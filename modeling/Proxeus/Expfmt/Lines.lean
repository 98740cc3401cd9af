import Mathlib.Data.List.SplitBy
import Proxeus.Expfmt.EncodeSpec

/-!
# Expfmt.Lines

What the lines of an encoded text say. Without an escaping scheme the line of a sample tells its name,
its label pairs, the text of its value and its timestamp (`line_inj`), whatever characters these are made
of, and the lines of a text are those of its runs, each under the line of its family
(`textLines_encode`). So the text of a list of samples tells all of them (`encode_determines`).
-/

namespace Proxeus
namespace Expfmt

open Lib Exposition

/-! ## Reading -/

/-- The unescaping of the text format. -/
def unescape : Text → Text
  | '\\' :: '\\' :: r => '\\' :: unescape r
  | '\\' :: 'n' :: r => '\n' :: unescape r
  | '\\' :: '"' :: r => '"' :: unescape r
  | c :: r => c :: unescape r
  | [] => []

theorem unescape_cons_of_ne {c : Char} (h : c ≠ '\\') (r : Text) :
    unescape (c :: r) = c :: unescape r := by
  rw [unescape]
  · rintro r' rfl
    exact absurd rfl h
  · rintro r' rfl
    exact absurd rfl h
  · rintro r' rfl
    exact absurd rfl h

/-- What is written for a character is read as that character. -/
theorem unescape_replace (quote : Bool) (c : Char) (r : Text) :
    unescape (replace quote c ++ r) = c :: unescape r := by
  unfold replace
  split
  · rename_i h
    rw [h]
    simp [unescape]
  · rename_i hslash
    split
    · rename_i h
      rw [h]
      simp [unescape]
    · split
      · rename_i h
        rw [Bool.and_eq_true, decide_eq_true_eq] at h
        rw [h.2]
        simp [unescape]
      · exact unescape_cons_of_ne hslash r

/-- The escaping is undone. -/
theorem unescape_writeEscaped (s : String) (quote : Bool) :
    unescape (writeEscaped s quote) = s.toList := by
  rw [writeEscaped_eq]
  induction s.toList with
  | nil => rfl
  | cons c cs ih => rw [List.flatMap_cons, unescape_replace, ih]

/-- The lines of a text that ends with one. -/
def textLines (text : Text) : List Text := (text.splitOn '\n').dropLast

theorem textLines_flatMap {lines : List Text} (h : ∀ line ∈ lines, '\n' ∉ line) :
    textLines (lines.flatMap fun line => line ++ ['\n']) = lines := by
  have hsplit : (lines.flatMap fun line => line ++ ['\n']).splitOn '\n' = lines ++ [[]] := by
    induction lines with
    | nil => rfl
    | cons line lines ih =>
      rw [List.forall_mem_cons] at h
      rw [List.flatMap_cons, List.append_assoc, List.singleton_append,
        List.splitOn_append_cons_self_of_not_mem h.1, ih h.2, List.cons_append]
  rw [textLines, hsplit, List.dropLast_concat]

theorem writeInt_ofNat (n : Nat) : writeInt (Int.ofNat n) = Nat.toDigits 10 n := by
  simp [writeInt, toString, Int.repr]

theorem writeInt_negSucc (n : Nat) : writeInt (Int.negSucc n) = '-' :: Nat.toDigits 10 (n + 1) := by
  simp [writeInt, toString, Int.repr]

theorem notMem_toDigits {c : Char} (h : c.isDigit = false) (n : Nat) : c ∉ Nat.toDigits 10 n := by
  intro hc
  rw [Nat.isDigit_of_mem_toDigits (by decide) (by decide) hc] at h
  cases h

theorem blank_notMem_writeInt (i : Int) : ' ' ∉ writeInt i := by
  have hdigits : ∀ n, ' ' ∉ Nat.toDigits 10 n := notMem_toDigits rfl
  cases i with
  | ofNat n =>
    rw [writeInt_ofNat]
    exact hdigits n
  | negSucc n =>
    rw [writeInt_negSucc]
    exact List.not_mem_cons_of_ne_of_not_mem (by decide) (hdigits (n + 1))

theorem writeInt_injective : Function.Injective writeInt := by
  have hnat : ∀ {n m : Nat}, Nat.toDigits 10 n = Nat.toDigits 10 m → n = m := by
    intro n m h
    calc n = Nat.ofDigitChars 10 (Nat.toDigits 10 n) 0 := Nat.ofDigitChars_ten_toDigits.symm
      _ = Nat.ofDigitChars 10 (Nat.toDigits 10 m) 0 := by rw [h]
      _ = m := Nat.ofDigitChars_ten_toDigits
  have hsign : ∀ (n m : Nat), Nat.toDigits 10 n ≠ '-' :: Nat.toDigits 10 (m + 1) := by
    intro n m h
    exact notMem_toDigits rfl n (h ▸ List.mem_cons_self)
  intro i j h
  cases i with
  | ofNat n =>
    cases j with
    | ofNat m =>
      rw [writeInt_ofNat, writeInt_ofNat] at h
      rw [hnat h]
    | negSucc m =>
      rw [writeInt_ofNat, writeInt_negSucc] at h
      exact absurd h (hsign n m)
  | negSucc n =>
    cases j with
    | ofNat m =>
      rw [writeInt_ofNat, writeInt_negSucc] at h
      exact absurd h.symm (hsign m n)
    | negSucc m =>
      rw [writeInt_negSucc, writeInt_negSucc] at h
      rw [Nat.succ.inj (hnat (List.cons.inj h).2)]

section

variable [Exposition]

/-! ## Samples -/

/-- What `WriteFloatSample` is called with. -/
structure Sample where
  name : String
  lbls : LabelSet
  external : List Label
  v : SampleValue
  t : Int

/-- The samples written one after the other, without an escaping scheme. -/
def encode (samples : List Sample) : Text :=
  (samples.foldl (fun e s => e.writeFloatSample s.name s.lbls s.external s.v s.t)
    (Encoder.new [] .noEscaping)).w

namespace Sample

/-- The non-empty labels of the series besides its name, and the external ones that it does not
carry. -/
def pairs (s : Sample) : List Label :=
  (s.lbls.pairs.filter fun l => !(l.name = metricNameLabel || l.value = "")) ++
    s.external.filter fun el => s.lbls.get el.name = ""

/-- What a line is to tell. -/
def content (s : Sample) : String × List Label × Text × Int :=
  (s.name, s.pairs, writeFloat s.v, s.t)

def line (s : Sample) : Text := sampleLine s.name s.pairs s.v s.t

end Sample

/-! ## One line -/

/-- The last blank of a line is before the timestamp, and the first one behind the labels before the
value. -/
theorem sampleLine_inj_values {name name' : String} {ls ls' : List Label} {v v' : SampleValue}
    {t t' : Int} (h : sampleLine name ls v t = sampleLine name' ls' v' t') :
    writeFloat v = writeFloat v' ∧ t = t' := by
  obtain ⟨rfl, rfl⟩ := sampleLine_inj h
  unfold sampleLine at h
  rw [List.append_assoc, List.append_assoc] at h
  have hrest := congrArg List.reverse (List.append_cancel_left h)
  have hsplit : ∀ (v : SampleValue) (t : Int), (' ' :: writeFloat v ++ ' ' :: writeInt t).reverse =
      (writeInt t).reverse ++ ' ' :: (' ' :: writeFloat v).reverse := by
    intro v t
    simp
  have hblank : ∀ t, ' ' ∉ (writeInt t).reverse := by
    intro t ht
    exact blank_notMem_writeInt t (List.mem_reverse.mp ht)
  rw [hsplit, hsplit] at hrest
  obtain ⟨htime, hvalue⟩ := line_inj (hblank t) (hblank t') hrest
  exact ⟨(List.cons.inj (List.reverse_inj.mp hvalue)).2,
    writeInt_injective (List.reverse_inj.mp htime)⟩

/-- Samples that differ never have the same line. -/
theorem Sample.line_inj {s s' : Sample} (h : s.line = s'.line) : s.content = s'.content := by
  unfold Sample.line at h
  obtain ⟨hname, hpairs⟩ := sampleLine_inj h
  obtain ⟨hvalue, ht⟩ := sampleLine_inj_values h
  unfold Sample.content
  rw [hname, hpairs, hvalue, ht]

/-! ## Runs -/

def sameName (s s' : Sample) : Bool := s.name == s'.name

/-- The maximal runs of samples of one name. -/
def runs (samples : List Sample) : List (List Sample) := samples.splitBy sameName

/-- The lines of a run: that of the family, and those of the samples. -/
def runLines : List Sample → List Text
  | [] => []
  | s :: run => typeLine s.name :: (s :: run).map Sample.line

/-- Every line ends. -/
def ended (lines : List Text) : Text := lines.flatMap fun line => line ++ ['\n']

omit [Exposition] in
theorem ended_append (lines lines' : List Text) :
    ended (lines ++ lines') = ended lines ++ ended lines' := List.flatMap_append

/-- Without a scheme a sample is written as its line, under that of its family if that is new. -/
theorem writeFloatSample_line (hname : ∀ name, escapeName name .noEscaping = name) (w : Text)
    (lastName : String) (started : Bool) (s : Sample) :
    (⟨w, .noEscaping, lastName, started⟩ : Encoder).writeFloatSample s.name s.lbls s.external s.v
        s.t =
      ⟨w ++ ended (if !started || s.name ≠ lastName then [typeLine s.name, s.line] else [s.line]),
        .noEscaping, s.name, true⟩ := by
  have hpairs : encodedLabels .noEscaping s.lbls s.external = s.pairs := by
    unfold encodedLabels Sample.pairs
    simp only [hname]
    exact List.map_id _
  rw [Encoder.writeFloatSample_spec]
  simp only [hname, hpairs, sampleBlock, Block.text, ended, Sample.line]
  cases hnew : !started || decide (s.name ≠ lastName) with
  | false => simp
  | true => simp

/-- The samples of a run after the first one. -/
theorem foldl_rest (hname : ∀ name, escapeName name .noEscaping = name) {name : String}
    {run : List Sample} (hrun : ∀ s ∈ run, s.name = name) (w : Text) :
    run.foldl (fun e s => e.writeFloatSample s.name s.lbls s.external s.v s.t)
        ⟨w, .noEscaping, name, true⟩ =
      (⟨w ++ ended (run.map Sample.line), .noEscaping, name, true⟩ : Encoder) := by
  induction run generalizing w with
  | nil => simp [ended]
  | cons s run ih =>
    rw [List.forall_mem_cons] at hrun
    have hold : (!true || decide (s.name ≠ name)) = false := by simp [hrun.1]
    have hlines : ended ((s :: run).map Sample.line) =
        ended [s.line] ++ ended (run.map Sample.line) := by
      rw [← ended_append]
      rfl
    rw [List.foldl_cons, writeFloatSample_line hname, hold, hrun.1, ih hrun.2, hlines,
      ← List.append_assoc]
    rfl

/-- Runs of one name, of which no two that follow each other have the same. -/
theorem foldl_runs (hname : ∀ name, escapeName name .noEscaping = name) {rs : List (List Sample)}
    (hne : [] ∉ rs) (hsame : ∀ run ∈ rs, ∀ s ∈ run, ∀ s' ∈ run, s.name = s'.name)
    (hnext : rs.IsChain fun run run' =>
      ∃ h h', sameName (run.getLast h) (run'.head h') = false)
    (w : Text) {lastName : String} {started : Bool}
    (hnew : started = true → ∀ run ∈ rs.head?, ∀ s ∈ run, s.name ≠ lastName) :
    (rs.flatten.foldl (fun e s => e.writeFloatSample s.name s.lbls s.external s.v s.t)
        (⟨w, .noEscaping, lastName, started⟩ : Encoder)).w =
      w ++ ended (rs.flatMap runLines) := by
  induction rs generalizing w lastName started with
  | nil => simp [ended]
  | cons run rs ih =>
    cases run with
    | nil => exact absurd List.mem_cons_self hne
    | cons s rest =>
      rw [List.forall_mem_cons] at hsame
      have hfirst : (!started || decide (s.name ≠ lastName)) = true := by
        cases started with
        | false => rfl
        | true =>
          have := hnew rfl (s :: rest) rfl s List.mem_cons_self
          simp [this]
      have hrest : ∀ s' ∈ rest, s'.name = s.name := by
        intro s' hs'
        exact hsame.1 s' (List.mem_cons_of_mem _ hs') s List.mem_cons_self
      have hafter : true = true → ∀ run ∈ rs.head?, ∀ s' ∈ run, s'.name ≠ s.name := by
        intro _ run hrun s' hs' heq
        obtain ⟨hlast, hhead, hdiffers⟩ := (List.isChain_cons.mp hnext).1 run hrun
        have hleft : ((s :: rest).getLast hlast).name = s.name :=
          hsame.1 _ (List.getLast_mem hlast) s List.mem_cons_self
        have hright : (run.head hhead).name = s'.name :=
          hsame.2 run (List.mem_of_mem_head? hrun) _ (List.head_mem hhead) s' hs'
        unfold sameName at hdiffers
        rw [hleft, hright, heq, beq_self_eq_true] at hdiffers
        cases hdiffers
      rw [List.flatten_cons, List.foldl_append, List.foldl_cons, writeFloatSample_line hname, hfirst,
        foldl_rest hname hrest, ih (fun h => hne (List.mem_cons_of_mem _ h)) hsame.2 hnext.tail _
          hafter, List.flatMap_cons, ended_append, ← List.append_assoc]
      congr 1
      rw [List.append_assoc, ← ended_append]
      rfl

omit [Exposition] in
/-- The samples of a run have one name. -/
theorem name_of_mem_runs {samples run : List Sample} (h : run ∈ runs samples) :
    ∀ s ∈ run, ∀ s' ∈ run, s.name = s'.name := by
  have htrans : Trans (fun s s' => sameName s s' = true) (fun s s' => sameName s s' = true)
      fun s s' => sameName s s' = true := by
    refine ⟨fun {s s' s''} h h' => ?_⟩
    unfold sameName at h h' ⊢
    rw [eq_of_beq h, h']
  have hsymm : Std.Symm fun s s' => sameName s s' = true := by
    refine ⟨fun s s' h => ?_⟩
    unfold sameName at h ⊢
    rw [eq_of_beq h, beq_self_eq_true]
  intro s hs s' hs'
  have hpairwise := (List.isChain_of_mem_splitBy h).pairwise
  exact eq_of_beq (hpairwise.forall_of_forall (fun _ _ => beq_self_eq_true _) hs hs')

theorem encode_eq (hname : ∀ name, escapeName name .noEscaping = name) (samples : List Sample) :
    encode samples = ended ((runs samples).flatMap runLines) := by
  have hflatten : (runs samples).flatten = samples := List.flatten_splitBy _ samples
  have hwritten := @foldl_runs _ hname (runs samples) (List.nil_notMem_splitBy _ samples)
    (fun run hrun => name_of_mem_runs hrun) (List.isChain_getLast_head_splitBy _ samples) [] "" false
    (fun h => absurd h (by decide))
  rw [List.nil_append] at hwritten
  rw [← hwritten]
  unfold encode
  conv_lhs => rw [← hflatten]
  rfl

/-- The lines of a text are those of its runs. -/
theorem textLines_encode (hname : ∀ name, escapeName name .noEscaping = name)
    (samples : List Sample) : textLines (encode samples) = (runs samples).flatMap runLines := by
  rw [encode_eq hname]
  refine textLines_flatMap fun line hline => ?_
  obtain ⟨run, -, hmem⟩ := List.mem_flatMap.mp hline
  cases run with
  | nil => cases hmem
  | cons s run =>
    rcases List.mem_cons.mp hmem with rfl | hmem
    · exact newline_notMem_typeLine s.name
    · obtain ⟨s', -, rfl⟩ := List.mem_map.mp hmem
      exact newline_notMem_sampleLine s'.name s'.pairs s'.v s'.t

/-! ## The text -/

/-- A line is that of a family, or that of a sample. -/
def isTypeLine (line : Text) : Bool := line.head? == some '#'

theorem isTypeLine_typeLine (name : String) : isTypeLine (typeLine name) = true := rfl

theorem isTypeLine_line (s : Sample) : isTypeLine s.line = false := by
  obtain ⟨c, hc, hmark⟩ := head_sampleLine s.name s.pairs s.v s.t
  unfold isTypeLine Sample.line
  rw [hc]
  simpa using hmark

theorem filter_runLines (run : List Sample) :
    (runLines run).filter (fun line => !isTypeLine line) = run.map Sample.line := by
  cases run with
  | nil => rfl
  | cons s run =>
    rw [runLines, List.filter_cons_of_neg (by simp [isTypeLine_typeLine]), List.filter_eq_self]
    intro line hline
    obtain ⟨s', -, rfl⟩ := List.mem_map.mp hline
    rw [isTypeLine_line]
    rfl

/-- Without the lines of the families there is a line for each sample. -/
theorem filter_textLines_encode (hname : ∀ name, escapeName name .noEscaping = name)
    (samples : List Sample) :
    (textLines (encode samples)).filter (fun line => !isTypeLine line) =
      samples.map Sample.line := by
  have hflatten : (runs samples).flatten = samples := List.flatten_splitBy _ samples
  rw [textLines_encode hname, List.filter_flatMap]
  calc (runs samples).flatMap (fun run => (runLines run).filter fun line => !isTypeLine line)
      = (runs samples).flatMap (List.map Sample.line) := by simp only [filter_runLines]
    _ = (runs samples).flatten.map Sample.line := by rw [List.map_flatten, List.flatMap_def]
    _ = samples.map Sample.line := by rw [hflatten]

/-- The text of the samples tells them all. -/
theorem encode_inj (hname : ∀ name, escapeName name .noEscaping = name)
    {samples samples' : List Sample} (h : encode samples = encode samples') :
    samples.map Sample.content = samples'.map Sample.content := by
  have hlines : samples.map Sample.line = samples'.map Sample.line := by
    rw [← filter_textLines_encode hname, h, filter_textLines_encode hname]
  clear h
  induction samples generalizing samples' with
  | nil =>
    rw [List.map_nil, eq_comm, List.map_eq_nil_iff] at hlines
    rw [hlines, List.map_nil]
  | cons s samples ih =>
    cases samples' with
    | nil => cases hlines
    | cons s' samples' =>
      obtain ⟨hfirst, hrest⟩ := List.cons.inj hlines
      rw [List.map_cons, List.map_cons, Sample.line_inj hfirst, ih hrest]

/-- What the text of a list of samples determines: the escaping of a value is undone, a line tells its
sample, the lines are those of the runs, and the text tells all of the samples. -/
theorem encode_determines (hname : ∀ name, escapeName name .noEscaping = name) :
    (∀ s, unescape (writeEscaped s true) = s.toList) ∧
    (∀ s s' : Sample, s.line = s'.line → s.content = s'.content) ∧
    (∀ s : Sample, ∀ name, s.line ≠ typeLine name) ∧
    ∀ samples, textLines (encode samples) = (runs samples).flatMap runLines ∧
      ∀ samples', encode samples = encode samples' →
        samples.map Sample.content = samples'.map Sample.content := by
  refine ⟨fun s => unescape_writeEscaped s true, fun _ _ => Sample.line_inj, ?_, ?_⟩
  · intro s name h
    have hmark := isTypeLine_line s
    rw [h, isTypeLine_typeLine] at hmark
    cases hmark
  · intro samples
    exact ⟨textLines_encode hname samples, fun _ => encode_inj hname⟩

end

attribute [local instance] schemeExposition

/-- A name that is not written bare, and a value with a quote in it. -/
theorem encode_determines_quoted :
    textLines (encode
      [⟨"up", ⟨[⟨"job", "a\"b"⟩], ascending_singleton _⟩, [⟨"zone", "eu"⟩],
          ⟨0x3ff0000000000000#64⟩, 1⟩,
        ⟨"up", ⟨[], ascending_nil⟩, [], ⟨0#64⟩, 2⟩,
        ⟨"µ s", ⟨[], ascending_nil⟩, [⟨"zone", "eu"⟩], ⟨0#64⟩, 3⟩]) =
    ["# TYPE up untyped".toList, "up\x7bjob=\"a\\\"b\",zone=\"eu\"\x7d 1 1".toList, "up 0 2".toList,
      "# TYPE \"µ s\" untyped".toList, "\x7b\"µ s\",zone=\"eu\"\x7d 0 3".toList] :=
  ((encode_determines fun _ => rfl).2.2.2 _).1.trans (by decide +kernel)

end Expfmt
end Proxeus
