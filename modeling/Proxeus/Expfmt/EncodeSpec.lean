import Proxeus.Expfmt.Encode

/-!
# Expfmt.EncodeSpec

What the encoders write. Either writes blocks, a line for each sample under the line of its family
(`writeFloatSample_spec`, `metricFamilyToText_eq`), from which the names and labels can be read back
(`sampleLine_inj`).
-/

namespace Proxeus
namespace Expfmt

open Lib Exposition

/-! ## Escaped values -/

theorem flatMap_replace_of_plain {quote : Bool} {cs : Text}
    (h : cs.all (fun c => !(c = '\\' || c = '\n' || (quote && c = '"'))) = true) :
    cs.flatMap (replace quote) = cs := by
  induction cs with
  | nil => rfl
  | cons c cs ih =>
    rw [List.all_cons, Bool.and_eq_true] at h
    rw [List.flatMap_cons, ih h.2]
    have hc : replace quote c = [c] := by
      have hplain := h.1
      simp only [Bool.not_eq_true', Bool.or_eq_false_iff, Bool.and_eq_false_iff,
        decide_eq_false_iff_not] at hplain
      obtain ⟨⟨hslash, hnl⟩, hquote⟩ := hplain
      rw [replace, if_neg hslash, if_neg hnl, if_neg]
      rcases hquote with rfl | hquote
      · simp
      · simp [hquote]
    rw [hc, List.singleton_append]

theorem writeEscaped_eq (s : String) (quote : Bool) :
    writeEscaped s quote = s.toList.flatMap (replace quote) := by
  rw [writeEscaped]
  split
  · rename_i h
    exact (flatMap_replace_of_plain h).symm
  · rfl

theorem isCode_replace : IsCode (replace true) '"' := by
  refine ⟨fun x y r r' h => ?_, fun x r r' h => ?_⟩
  · simp only [replace] at h
    grind
  · simp only [replace] at h
    grind

theorem newline_notMem_writeEscaped (s : String) (quote : Bool) : '\n' ∉ writeEscaped s quote := by
  rw [writeEscaped_eq, List.mem_flatMap]
  rintro ⟨c, -, hc⟩
  rw [replace] at hc
  split at hc
  · simp at hc
  · split at hc
    · simp at hc
    · rename_i hnl
      split at hc
      · simp at hc
      · exact hnl (List.mem_singleton.mp hc).symm

/-- A value can be read up to its quote. -/
theorem writeEscaped_inj {s s' : String} {r r' : Text}
    (h : writeEscaped s true ++ '"' :: r = writeEscaped s' true ++ '"' :: r') :
    s = s' ∧ r = r' := by
  rw [writeEscaped_eq, writeEscaped_eq] at h
  obtain ⟨hs, hr⟩ := isCode_replace.flatMap_inj h
  exact ⟨String.toList_inj.mp hs, hr⟩

section

variable [Exposition]

/-! ## Names -/

/-- The characters of the names that are written bare. -/
def isNameChar (c : Char) : Bool := c.isAlphanum || c = '_' || c = ':'

theorem newline_notMem_writeName (name : String) : '\n' ∉ writeName name := by
  rw [writeName]
  split
  · rename_i h
    intro hin
    exact absurd (legacy_chars name h _ hin) (by decide)
  · have hescaped := newline_notMem_writeEscaped name true
    simp [hescaped]

/-- A bare name begins with one of its characters. -/
theorem head_legacy {name : String} (h : isValidLegacyMetricName name = true) (r : Text) :
    ∃ c ∈ (name.toList ++ r).head?, isNameChar c = true := by
  cases hcs : name.toList with
  | nil =>
    have hname : name = "" := String.toList_eq_nil_iff.mp hcs
    rw [hname, legacy_ne_empty] at h
    cases h
  | cons c cs => exact ⟨c, rfl, legacy_chars name h c (hcs ▸ List.mem_cons_self)⟩

/-- A name can be read up to what is no character of a bare name. -/
theorem writeName_inj {name name' : String} {r r' : Text}
    (hr : ∀ c ∈ r.head?, isNameChar c = false) (hr' : ∀ c ∈ r'.head?, isNameChar c = false)
    (h : writeName name ++ r = writeName name' ++ r') : name = name' ∧ r = r' := by
  have hne : ∀ {n : String} {s s' : Text}, isValidLegacyMetricName n = true →
      n.toList ++ s ≠ '"' :: s' := by
    intro n s s' hn heq
    obtain ⟨c, hc, hchar⟩ := head_legacy hn s
    rw [heq] at hc
    cases hc
    exact absurd hchar (by decide)
  by_cases hn : isValidLegacyMetricName name = true
  · by_cases hn' : isValidLegacyMetricName name' = true
    · rw [writeName, if_pos hn, writeName, if_pos hn'] at h
      obtain ⟨hs, hrest⟩ := append_inj_of_stop (legacy_chars name hn) (legacy_chars name' hn')
        hr hr' h
      exact ⟨String.toList_inj.mp hs, hrest⟩
    · rw [writeName, if_pos hn, writeName, if_neg hn'] at h
      exact absurd h (hne hn)
  · by_cases hn' : isValidLegacyMetricName name' = true
    · rw [writeName, if_neg hn, writeName, if_pos hn'] at h
      exact absurd h.symm (hne hn')
    · rw [writeName, if_neg hn, writeName, if_neg hn'] at h
      simp only [List.cons_append, List.append_assoc, List.nil_append, List.cons.injEq,
        true_and] at h
      exact writeEscaped_inj h

/-! ## Lines -/

/-- A label, up to the quote that ends its value. -/
def pairText (l : Label) : Text :=
  writeName l.name ++ '=' :: '"' :: writeEscaped l.value true ++ ['"']

/-- The labels after the first token in the braces. -/
def restText (ls : List Label) : Text := ls.flatMap fun l => ',' :: pairText l

/-- The labels of a bare name. -/
def bracedText : List Label → Text
  | [] => []
  | l :: ls => '{' :: pairText l ++ restText ls ++ ['}']

/-- The part of a sample's line before its value. -/
def metricText (name : String) (ls : List Label) : Text :=
  if isValidLegacyMetricName name then writeName name ++ bracedText ls
  else '{' :: writeName name ++ restText ls ++ ['}']

/-- The line of a sample. -/
def sampleLine (name : String) (ls : List Label) (v : SampleValue) (t : Int) : Text :=
  metricText name ls ++ ' ' :: writeFloat v ++ ' ' :: writeInt t

/-- The line above a family. -/
def typeLine (name : String) : Text := typeToken ++ writeName name ++ " untyped".toList

theorem pairText_inj {l l' : Label} {r r' : Text} (h : pairText l ++ r = pairText l' ++ r') :
    l = l' ∧ r = r' := by
  obtain ⟨name, value⟩ := l
  obtain ⟨name', value'⟩ := l'
  simp only [pairText, List.append_assoc, List.cons_append, List.nil_append] at h
  have hstop : ∀ s : Text, ∀ c ∈ ('=' :: s).head?, isNameChar c = false := by
    rintro s c hc
    cases hc
    decide
  obtain ⟨rfl, hrest⟩ := writeName_inj (hstop _) (hstop _) h
  simp only [List.cons.injEq, true_and] at hrest
  obtain ⟨rfl, hr⟩ := writeEscaped_inj hrest
  exact ⟨rfl, hr⟩

theorem isCode_rest : IsCode (fun l : Label => ',' :: pairText l) '}' := by
  refine ⟨fun l l' r r' h => ?_, fun l r r' h => ?_⟩
  · simp only [List.cons_append, List.cons.injEq, true_and] at h
    exact pairText_inj h
  · simp only [List.cons_append, List.cons.injEq] at h
    exact absurd h.1 (by decide)

theorem bracedText_inj {ls ls' : List Label} {r r' : Text}
    (h : bracedText ls ++ ' ' :: r = bracedText ls' ++ ' ' :: r') : ls = ls' := by
  cases ls with
  | nil =>
    cases ls' with
    | nil => rfl
    | cons l' ls' => exact absurd (List.cons.inj h).1 (by decide)
  | cons l ls =>
    cases ls' with
    | nil => exact absurd (List.cons.inj h).1 (by decide)
    | cons l' ls' =>
      simp only [bracedText, List.append_assoc, List.cons_append, List.nil_append, List.cons.injEq,
        true_and] at h
      obtain ⟨rfl, hrest⟩ := pairText_inj h
      rw [(isCode_rest.flatMap_inj hrest).1]

/-- The name and the labels can be read back, up to the blank before the value. -/
theorem metricText_inj {name name' : String} {ls ls' : List Label} {r r' : Text}
    (h : metricText name ls ++ ' ' :: r = metricText name' ls' ++ ' ' :: r') :
    name = name' ∧ ls = ls' := by
  have hbrace : ∀ {n : String} {s s' : Text}, isValidLegacyMetricName n = true →
      writeName n ++ s ≠ '{' :: s' := by
    intro n s s' hn heq
    rw [writeName, if_pos hn] at heq
    obtain ⟨c, hc, hchar⟩ := head_legacy hn s
    rw [heq] at hc
    cases hc
    exact absurd hchar (by decide)
  have hbraced : ∀ (ls : List Label) (r : Text), ∀ c ∈ (bracedText ls ++ ' ' :: r).head?,
      isNameChar c = false := by
    rintro (_ | ⟨l, ls⟩) r c hc
    · cases hc
      decide
    · cases hc
      decide
  have hrest : ∀ (ls : List Label) (r : Text), ∀ c ∈ (restText ls ++ '}' :: r).head?,
      isNameChar c = false := by
    rintro (_ | ⟨l, ls⟩) r c hc
    · cases hc
      decide
    · cases hc
      decide
  by_cases hn : isValidLegacyMetricName name = true
  · by_cases hn' : isValidLegacyMetricName name' = true
    · rw [metricText, if_pos hn, metricText, if_pos hn', List.append_assoc, List.append_assoc] at h
      obtain ⟨rfl, hls⟩ := writeName_inj (hbraced _ _) (hbraced _ _) h
      exact ⟨rfl, bracedText_inj hls⟩
    · rw [metricText, if_pos hn, metricText, if_neg hn', List.append_assoc] at h
      exact absurd h (hbrace hn)
  · by_cases hn' : isValidLegacyMetricName name' = true
    · rw [metricText, if_neg hn, metricText, if_pos hn', List.append_assoc (writeName name')] at h
      exact absurd h.symm (hbrace hn')
    · rw [metricText, if_neg hn, metricText, if_neg hn'] at h
      simp only [List.append_assoc, List.cons_append, List.nil_append, List.cons.injEq,
        true_and] at h
      obtain ⟨rfl, hls⟩ := writeName_inj (hrest _ _) (hrest _ _) h
      exact ⟨rfl, (isCode_rest.flatMap_inj hls).1⟩

theorem sampleLine_inj {name name' : String} {ls ls' : List Label} {v v' : SampleValue} {t t' : Int}
    (h : sampleLine name ls v t = sampleLine name' ls' v' t') : name = name' ∧ ls = ls' := by
  simp only [sampleLine, List.append_assoc, List.cons_append] at h
  exact metricText_inj h

/-! ## Legible lines -/

theorem newline_notMem_pairText (l : Label) : '\n' ∉ pairText l := by
  have hname := newline_notMem_writeName l.name
  have hvalue := newline_notMem_writeEscaped l.value true
  simp [pairText, hname, hvalue]

theorem newline_notMem_restText (ls : List Label) : '\n' ∉ restText ls := by
  rw [restText, List.mem_flatMap]
  rintro ⟨l, -, hl⟩
  rcases List.mem_cons.mp hl with hl | hl
  · exact absurd hl (by decide)
  · exact newline_notMem_pairText l hl

theorem newline_notMem_metricText (name : String) (ls : List Label) :
    '\n' ∉ metricText name ls := by
  have hname := newline_notMem_writeName name
  rw [metricText]
  split
  · cases ls with
    | nil => simpa [bracedText] using hname
    | cons l ls => simp [bracedText, hname, newline_notMem_pairText, newline_notMem_restText]
  · simp [hname, newline_notMem_restText]

theorem newline_notMem_writeFloat (f : SampleValue) : '\n' ∉ writeFloat f := by
  rw [writeFloat]
  repeat' split
  all_goals first
    | decide
    | exact appendFloat_line f

omit [Exposition] in
theorem newline_notMem_writeInt (i : Int) : '\n' ∉ writeInt i := by
  have hdigits : ∀ n : Nat, '\n' ∉ Nat.toDigits 10 n := fun n h =>
    absurd (Nat.isDigit_of_mem_toDigits (by decide) (by decide) h) (by decide)
  cases i with
  | ofNat n => simpa [writeInt, toString, Int.repr] using hdigits n
  | negSucc n => simpa [writeInt, toString, Int.repr] using hdigits (n + 1)

/-- A sample's line begins with its name or with a brace. -/
theorem head_sampleLine (name : String) (ls : List Label) (v : SampleValue) (t : Int) :
    ∃ c ∈ (sampleLine name ls v t).head?, decide (c = '#') = false := by
  have hsome : ∀ {c : Char} {a b : Text}, c ∈ a.head? → c ∈ (a ++ b).head? := by
    rintro c (_ | ⟨x, a⟩) b hc
    · cases hc
    · exact hc
  by_cases hn : isValidLegacyMetricName name = true
  · obtain ⟨c, hc, hchar⟩ := head_legacy hn (bracedText ls)
    refine ⟨c, hsome (hsome ?_), ?_⟩
    · rw [metricText, if_pos hn, writeName, if_pos hn]
      exact hc
    · rw [decide_eq_false_iff_not]
      rintro rfl
      exact absurd hchar (by decide)
  · refine ⟨'{', hsome (hsome ?_), by decide⟩
    rw [metricText, if_neg hn]
    rfl

theorem newline_notMem_sampleLine (name : String) (ls : List Label) (v : SampleValue) (t : Int) :
    '\n' ∉ sampleLine name ls v t := by
  have hmetric := newline_notMem_metricText name ls
  have hfloat := newline_notMem_writeFloat v
  have hint := newline_notMem_writeInt t
  simp [sampleLine, hmetric, hfloat, hint]

theorem newline_notMem_typeLine (name : String) : '\n' ∉ typeLine name := by
  unfold typeLine
  rw [List.mem_append, List.mem_append, not_or, not_or]
  exact ⟨⟨by decide +kernel, newline_notMem_writeName name⟩, by decide +kernel⟩

/-- The encoders write the line with its end. -/
theorem append_typeLine (w : Text) (name : String) :
    w ++ typeToken ++ writeName name ++ untypedToken = w ++ (typeLine name ++ ['\n']) := by
  have huntyped : untypedToken = " untyped".toList ++ ['\n'] := by decide +kernel
  unfold typeLine
  simp only [huntyped, List.append_assoc]

namespace MetricLine

/-- No brace has been written before the separator that is one. -/
def Begun (m : MetricLine) : Prop := (m.braces || m.separator = '{') = true

omit [Exposition] in
theorem begun_comma (w : Text) : Begun ⟨w, ',', true⟩ := rfl

omit [Exposition] in
theorem begun_brace (w : Text) : Begun ⟨w, '{', false⟩ := rfl

theorem label_eq {m : MetricLine} (h : m.Begun) (l : Label) :
    m.label l.name l.value = ⟨m.w ++ m.separator :: pairText l, ',', true⟩ := by
  rw [label, pairText]
  exact congrArg _ h

theorem endMetric_foldl (ls : List Label) (w : Text) :
    (ls.foldl (fun m l => m.label l.name l.value) ⟨w, ',', true⟩ : MetricLine).endMetric =
      w ++ restText ls ++ ['}'] := by
  induction ls generalizing w with
  | nil => simp [endMetric, restText]
  | cons l ls ih =>
    rw [List.foldl_cons, label_eq (begun_comma w), ih, restText, restText, List.flatMap_cons]
    simp only [List.append_assoc, List.cons_append]

/-- The line of a metric whose name has been written, bare or in the braces. -/
theorem endMetric_named (name : String) (ls : List Label) (w : Text) :
    (ls.foldl (fun m l => m.label l.name l.value)
      (if isValidLegacyMetricName name then ⟨w ++ writeName name, '{', false⟩
        else ⟨w ++ '{' :: writeName name, ',', true⟩ : MetricLine)).endMetric =
      w ++ metricText name ls := by
  by_cases hname : isValidLegacyMetricName name = true
  · rw [if_pos hname, metricText, if_pos hname]
    cases ls with
    | nil => simp [bracedText, endMetric]
    | cons l ls =>
      rw [List.foldl_cons, label_eq (begun_brace _), endMetric_foldl, bracedText]
      simp only [List.append_assoc, List.cons_append]
  · rw [if_neg hname, endMetric_foldl, metricText, if_neg hname]
    simp only [List.append_assoc, List.cons_append]

theorem writeLabel_eq {m : MetricLine} (h : m.Begun) (scheme : EscapingScheme) (l : Label) :
    Encoder.writeLabel scheme m l = m.label (escapeName l.name scheme) l.value ∧
      (Encoder.writeLabel scheme m l).Begun := by
  refine ⟨?_, rfl⟩
  rw [label, Encoder.writeLabel]
  exact congrArg _ h.symm

theorem foldl_writeLabel (scheme : EscapingScheme) (ls : List Label) {m : MetricLine}
    (h : m.Begun) :
    ls.foldl (Encoder.writeLabel scheme) m =
      (ls.map fun l => ⟨escapeName l.name scheme, l.value⟩).foldl
        (fun m (l : Label) => m.label l.name l.value) m := by
  induction ls generalizing m with
  | nil => rfl
  | cons l ls ih =>
    obtain ⟨heq, hbegun⟩ := writeLabel_eq h scheme l
    rw [List.foldl_cons, List.map_cons, List.foldl_cons, ih hbegun, heq]

end MetricLine

/-! ## The encoders -/

/-- The block of a sample, if the line of its family is written above it. -/
def sampleBlock (types : Bool) (name : String) (ls : List Label) (v : SampleValue) (t : Int) :
    Block Char :=
  ⟨if types then some (typeLine name) else none, sampleLine name ls v t⟩

theorem legible_sampleBlock (types : Bool) (name : String) (ls : List Label) (v : SampleValue)
    (t : Int) : (sampleBlock types name ls v t).Legible '\n' fun c => c = '#' := by
  refine ⟨fun h hh => ?_, newline_notMem_sampleLine name ls v t, head_sampleLine name ls v t⟩
  cases types with
  | false => cases hh
  | true =>
    cases hh
    exact ⟨newline_notMem_typeLine name, '#', rfl, by decide⟩

theorem writeMetric_eq {name : String} (hname : name ≠ "") (w : Text) (ls : List Label)
    (v : SampleValue) (t : Int) :
    writeMetric w name ⟨ls, v, some t⟩ = w ++ sampleLine name ls v t ++ ['\n'] := by
  have hbegin : beginMetric w name =
      if isValidLegacyMetricName name then ⟨w ++ writeName name, '{', false⟩
        else ⟨w ++ '{' :: writeName name, ',', true⟩ := by
    rw [beginMetric, if_neg hname]
  simp only [writeMetric, hbegin, MetricLine.endMetric_named, sampleLine, List.append_assoc,
    List.cons_append]

/-- A family is written as the line of its name and the lines of its metrics. -/
theorem metricFamilyToText_eq {name : String} (hname : name ≠ "") (out : Text)
    (ms : List (List Label × SampleValue × Int)) :
    metricFamilyToText out ⟨name, none, ms.map fun m => ⟨m.1, m.2.1, some m.2.2⟩⟩ =
      out ++ (typeLine name ++ ['\n']) ++
        ms.flatMap fun m => sampleLine name m.1 m.2.1 m.2.2 ++ ['\n'] := by
  rw [metricFamilyToText]
  simp only [append_typeLine, List.foldl_map]
  generalize out ++ (typeLine name ++ ['\n']) = w
  induction ms generalizing w with
  | nil => rw [List.foldl_nil, List.flatMap_nil, List.append_nil]
  | cons m ms ih =>
    rw [List.foldl_cons, writeMetric_eq hname, ih, List.flatMap_cons]
    simp only [List.append_assoc]

/-- The labels of a series that the encoder writes: its own ones without the name, and the external
ones that it does not have. -/
def encodedLabels (scheme : EscapingScheme) (lbls : LabelSet) (external : List Label) :
    List Label :=
  ((lbls.pairs.filter fun l => !(l.name = metricNameLabel || l.value = "")) ++
    external.filter fun el => lbls.get el.name = "").map fun l => ⟨escapeName l.name scheme, l.value⟩

namespace Encoder

/-- Both loops of the encoder, as one over the labels that they write. -/
theorem foldl_labels (scheme : EscapingScheme) (lbls : LabelSet) (external : List Label)
    {m : MetricLine} (h : m.Begun) :
    external.foldl (fun m el => if lbls.get el.name ≠ "" then m else writeLabel scheme m el)
        (lbls.pairs.foldl (fun m l =>
          if l.name = metricNameLabel || l.value = "" then m else writeLabel scheme m l) m) =
      (encodedLabels scheme lbls external).foldl (fun m l => m.label l.name l.value) m := by
  have hown : lbls.pairs.foldl (fun m l =>
      if l.name = metricNameLabel || l.value = "" then m else writeLabel scheme m l) m =
      (lbls.pairs.filter fun l => !(l.name = metricNameLabel || l.value = "")).foldl
        (writeLabel scheme) m := by
    rw [List.foldl_filter]
    congr 1
    funext m l
    by_cases hl : (l.name = metricNameLabel || l.value = "") = true <;> simp [hl]
  have hext : ∀ m, external.foldl
      (fun m el => if lbls.get el.name ≠ "" then m else writeLabel scheme m el) m =
      (external.filter fun el => lbls.get el.name = "").foldl (writeLabel scheme) m := by
    intro m
    rw [List.foldl_filter]
    congr 1
    funext m l
    by_cases hl : lbls.get l.name = "" <;> simp [hl]
  rw [hown, hext, ← List.foldl_append, MetricLine.foldl_writeLabel scheme _ h, encodedLabels]

theorem writeLabels_eq (w : Text) (scheme : EscapingScheme) (name : String) (lbls : LabelSet)
    (external : List Label) :
    writeLabels w scheme name lbls external =
      w ++ metricText name (encodedLabels scheme lbls external) := by
  rw [← MetricLine.endMetric_named, writeLabels]
  by_cases hname : isValidLegacyMetricName name = true
  · simp only [hname, Bool.not_true, Bool.false_eq_true, if_false, if_true]
    rw [foldl_labels scheme lbls external (MetricLine.begun_brace _)]
    rfl
  · rw [Bool.not_eq_true] at hname
    simp only [hname, Bool.not_false, Bool.false_eq_true, if_false, if_true]
    rw [foldl_labels scheme lbls external (MetricLine.begun_comma _), List.append_assoc]
    rfl

theorem writeType_eq (e : Encoder) (name : String) :
    e.writeType name =
      ⟨e.w ++ (if !e.started || name ≠ e.lastName then typeLine name ++ ['\n'] else []),
        e.scheme, name, true⟩ := by
  unfold writeType
  split
  · simp only [append_typeLine]
  · rename_i h
    obtain ⟨w, scheme, lastName, started⟩ := e
    rw [Bool.or_eq_true, not_or, Bool.not_eq_true, Bool.not_eq_false', Bool.not_eq_true,
      decide_eq_false_iff_not, not_not] at h
    obtain ⟨rfl, rfl⟩ := h
    simp only [List.append_nil]

/-- A sample is written as a block. -/
theorem writeFloatSample_spec (e : Encoder) (name : String) (lbls : LabelSet)
    (external : List Label) (v : SampleValue) (t : Int) :
    e.writeFloatSample name lbls external v t =
      ⟨e.w ++ (sampleBlock (!e.started || escapeName name e.scheme ≠ e.lastName)
          (escapeName name e.scheme) (encodedLabels e.scheme lbls external) v t).text '\n',
        e.scheme, escapeName name e.scheme, true⟩ := by
  rw [writeFloatSample, writeType_eq]
  simp only [writeLabels_eq, sampleBlock, sampleLine, Block.text]
  congr 1
  split <;> simp only [List.append_assoc, List.cons_append, List.nil_append]

end Encoder

end

/-! ## A concrete instance -/

/-- `isValidLegacyRune` -/
def isValidLegacyRune (c : Char) (i : Nat) : Bool :=
  c.isAlpha || c = '_' || c = ':' || (c.isDigit && 0 < i)

def legacyName (name : String) : Bool :=
  name ≠ "" && name.toList.zipIdx.all fun p => isValidLegacyRune p.1 p.2

/-- What `EscapeName` writes for a character of a name that it rewrites. -/
def escapeRune (scheme : EscapingScheme) (c : Char) (i : Nat) : Text :=
  match scheme with
  | .noEscaping => [c]
  | .underscoreEscaping => if isValidLegacyRune c i then [c] else ['_']
  | .dotsEscaping =>
    if c = '_' then ['_', '_']
    else if c = '.' then "_dot_".toList
    else if isValidLegacyRune c i then [c]
    else ['_', '_']
  | .valueEncodingEscaping =>
    if c = '_' then ['_', '_']
    else if isValidLegacyRune c i then [c]
    else '_' :: Nat.toDigits 16 c.toNat ++ ['_']

def escapeRunes (scheme : EscapingScheme) (name : String) : String :=
  String.ofList (name.toList.zipIdx.flatMap fun p => escapeRune scheme p.1 p.2)

def escapeNameBy (name : String) : EscapingScheme → String
  | .noEscaping => name
  | .underscoreEscaping =>
    if legacyName name then name else escapeRunes .underscoreEscaping name
  | .dotsEscaping => escapeRunes .dotsEscaping name
  | .valueEncodingEscaping =>
    if legacyName name then name else "U__" ++ escapeRunes .valueEncodingEscaping name

theorem escapeRunes_ne_empty {scheme : EscapingScheme} {name : String} (h : name ≠ "") :
    escapeRunes scheme name ≠ "" := by
  have hrune : ∀ c i, escapeRune scheme c i ≠ [] := by
    intro c i
    cases scheme <;> simp only [escapeRune] <;> (repeat' split) <;> simp
  rw [escapeRunes, ne_eq, ← String.toList_eq_nil_iff, String.toList_ofList,
    List.flatMap_eq_nil_iff]
  intro hnil
  cases hcs : name.toList with
  | nil => exact h (String.toList_eq_nil_iff.mp hcs)
  | cons c cs =>
    rw [hcs] at hnil
    exact hrune c 0 (hnil (c, 0) (by simp))

abbrev schemeExposition : Exposition where
  isValidLegacyMetricName := legacyName
  escapeName := escapeNameBy
  escapeFamilyName name scheme := if legacyName name then name else escapeNameBy name scheme
  appendFloat _ := "0.5".toList
  legacy_chars := by
    intro name h c hc
    rw [legacyName, Bool.and_eq_true, List.all_eq_true] at h
    obtain ⟨i, hi, rfl⟩ := List.mem_iff_getElem.mp hc
    have hrune := h.2 (name.toList[i], i) (List.mk_mem_zipIdx_iff_getElem?.mpr (by simp))
    simp only [isValidLegacyRune, Char.isAlphanum, Bool.or_eq_true, Bool.and_eq_true] at hrune ⊢
    tauto
  legacy_ne_empty := rfl
  escapeName_ne_empty := by
    intro name scheme h
    cases scheme with
    | noEscaping => exact h
    | underscoreEscaping =>
      rw [escapeNameBy]
      split
      · exact h
      · exact escapeRunes_ne_empty h
    | dotsEscaping => exact escapeRunes_ne_empty h
    | valueEncodingEscaping =>
      rw [escapeNameBy]
      split
      · exact h
      · intro hempty
        exact absurd (String.append_eq_empty_iff.mp hempty).1 (by decide)
  escapeFamilyName_legacy _ _ h := if_pos h
  escapeFamilyName_other _ _ h := if_neg (Bool.eq_false_iff.mp h)
  appendFloat_line _ := by decide +kernel

end Expfmt
end Proxeus
