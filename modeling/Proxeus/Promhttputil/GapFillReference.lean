import Proxeus.Promhttputil.GapFill

/-!
# Promhttputil.GapFillReference

The cursors of `fill` are an optimisation. `referenceFill` is the recursion without them: for
every gap it is handed it scans the next stream from its first sample. Each sample is tagged with
the level that emitted it, so the `Filled` counters are counts over the tags.

`Ready` is the invariant that makes resuming sound: every sample before a cursor is at most a
margin past the lower end of the gap the level is handed next. It is kept although a window may
be inverted, because the lower ends only move forward and a level passes samples either up to its
lower bound or below the upper end of the gap. `Simulates` is what a call of `fill` owes its
caller, `fill_simulates` proves it by induction on the streams, and
`priorityMergeSampleStream_eq_reference` is the equality for whole merges.
-/

namespace Proxeus
namespace Promhttputil

open Lib

/-! ## Scanning from the start -/

/-- More than a margin after the lower end of the gap. -/
def afterLo (gap : Int) (lo : Option Int) (p : TimelineSample) : Bool :=
  !lo.any fun l => p.t ≤ l + gap / 4

/-- More than a margin before the upper end of the gap. -/
def beforeHi (gap : Int) (hi : Option Int) (p : TimelineSample) : Bool :=
  !hi.any fun h => h - gap / 4 ≤ p.t

def inWindow (gap : Int) (lo hi : Option Int) (p : TimelineSample) : Bool :=
  afterLo gap lo p && beforeHi gap hi p

/-- A sample under the level it was taken from: `0` for the base, `i + 1` for `fillers[i]`. -/
abbrev Taken := Nat × TimelineSample

/-- What level `lvl` emits for its sample `p`. -/
def emits (lvl : Nat) (live : Bool) (p : TimelineSample) : List Taken :=
  if p.stale && !(lvl = 0 || live) then [] else [(lvl, p)]

def referenceLoop (below : Option Int → Option Int → List Taken) (gap : Int)
    (hi : Option Int) (lvl : Nat) :
    List TimelineSample → Option Int → Bool → Bool → List Taken
  | [], subLo, stale, _ => if needsFill stale subLo hi gap then below subLo hi else []
  | p :: rest, subLo, stale, live =>
    (if needsFill stale subLo (some p.t) gap then below subLo (some p.t) else []) ++
      emits lvl live p ++
      referenceLoop below gap hi lvl rest (some p.t) p.stale (!p.stale)

def referenceFill (gap : Int) :
    List (List TimelineSample) → Nat → Option Int → Option Int → List Taken
  | [], _, _, _ => []
  | seq :: seqs, lvl, lo, hi =>
    referenceLoop (referenceFill gap seqs (lvl + 1)) gap hi lvl
      (seq.filter (inWindow gap lo hi)) lo false false

/-- How many samples were filled in from `fillers[i]`. -/
def filledBy (out : List Taken) (i : Nat) : Nat :=
  out.countP fun x => x.1 = i + 1 && !x.2.stale

/-- What the merge of `base` and `fillers` takes, from which stream, in order. -/
def referenceTaken (base : SampleStream) (fillers : List SampleStream) (gap : Int) : List Taken :=
  referenceFill (effectiveGap gap) (timeline base :: fillers.map timeline) 0 none none

def referencePriorityMerge (base : SampleStream) (fillers : List SampleStream) (gap : Int) :
    SampleStream × FillStats :=
  let out := referenceTaken base fillers gap
  (streamOf base.metric (out.map Prod.snd),
    { filled := (List.range fillers.length).map (filledBy out) })

/-! ## Counters -/

/-- The counters after `out` has been emitted. -/
def addFilled (out : List Taken) (filled : List Nat) : List Nat :=
  filled.mapIdx fun i n => n + filledBy out i

@[simp] theorem addFilled_nil (filled : List Nat) : addFilled [] filled = filled := by
  apply List.ext_getElem
  · simp [addFilled]
  · intro i h h'
    simp [addFilled, filledBy]

theorem addFilled_append (out out' : List Taken) (filled : List Nat) :
    addFilled (out ++ out') filled = addFilled out' (addFilled out filled) := by
  apply List.ext_getElem
  · simp [addFilled]
  · intro i h h'
    simp only [addFilled, filledBy, List.countP_append, List.getElem_mapIdx]
    omega

theorem count_filled (st : FillState) (lvl : Nat) {p : TimelineSample} (hp : p.stale = false) :
    (st.count lvl).filled = addFilled [(lvl, p)] st.filled := by
  unfold FillState.count
  split
  · rename_i hl
    apply List.ext_getElem
    · simp [addFilled]
    · intro i h h'
      have hi : lvl - 1 = i ↔ lvl = i + 1 := by omega
      simp only [addFilled, filledBy, List.getElem_modify, List.getElem_mapIdx,
        List.countP_singleton, hp, hi]
      by_cases he : lvl = i + 1 <;> simp [he]
  · rename_i hl
    have hl0 : lvl = 0 := by omega
    apply List.ext_getElem
    · simp [addFilled]
    · intro i h h'
      simp [addFilled, filledBy, hl0]

theorem addFilled_stale (lvl : Nat) {p : TimelineSample} (hp : p.stale = true)
    (filled : List Nat) : addFilled [(lvl, p)] filled = filled := by
  apply List.ext_getElem
  · simp [addFilled]
  · intro i h h'
    simp [addFilled, filledBy, hp]

theorem addFilled_replicate (out : List Taken) (n : Nat) :
    addFilled out (List.replicate n 0) = (List.range n).map (filledBy out) := by
  apply List.ext_getElem
  · simp [addFilled]
  · intro i h h'
    simp [addFilled]

/-! ## The cursors -/

@[simp] theorem cursor_count (st : FillState) (lvl j : Nat) :
    (st.count lvl).cursor j = st.cursor j := by
  unfold FillState.count
  split <;> rfl

@[simp] theorem cursors_count (st : FillState) (lvl : Nat) :
    (st.count lvl).cursors = st.cursors := by
  unfold FillState.count
  split <;> rfl

theorem cursor_setCursor_self (st : FillState) {lvl i : Nat} (h : lvl < st.cursors.length) :
    (st.setCursor lvl i).cursor lvl = i := by
  simp [FillState.cursor, FillState.setCursor, List.getD_eq_getElem?_getD, h]

theorem cursor_setCursor_ne (st : FillState) {lvl j i : Nat} (h : j ≠ lvl) :
    (st.setCursor lvl i).cursor j = st.cursor j := by
  simp [FillState.cursor, FillState.setCursor, List.getD_eq_getElem?_getD,
    Ne.symm h]

/-- No sample before a cursor is needed for a gap from `lo` on. -/
def Ready (gap : Int) (lo : Option Int) : List (List TimelineSample) → Nat → FillState → Prop
  | [], _, _ => True
  | seq :: seqs, lvl, st =>
    (∀ p ∈ seq.take (st.cursor lvl), afterLo gap lo p = false) ∧ Ready gap lo seqs (lvl + 1) st

theorem ready_congr {gap : Int} {lo : Option Int} {seqs : List (List TimelineSample)} {lvl : Nat}
    {st st' : FillState} (h : ∀ j, lvl ≤ j → st'.cursor j = st.cursor j)
    (hr : Ready gap lo seqs lvl st) : Ready gap lo seqs lvl st' := by
  induction seqs generalizing lvl with
  | nil => trivial
  | cons seq seqs ih =>
    refine ⟨?_, ih (fun j hj => h j (by omega)) hr.2⟩
    rw [h lvl (Nat.le_refl lvl)]
    exact hr.1

theorem not_afterLo_mono {gap : Int} {lo : Option Int} {l' : Int} {p : TimelineSample}
    (h : ∀ l, lo = some l → l ≤ l') (hp : afterLo gap lo p = false) :
    afterLo gap (some l') p = false := by
  cases lo with
  | none => simp [afterLo] at hp
  | some l =>
    have hl := h l rfl
    simp only [afterLo, Option.any_some, Bool.not_eq_false', decide_eq_true_eq] at hp ⊢
    omega

theorem ready_mono {gap : Int} {lo : Option Int} {l' : Int} {seqs : List (List TimelineSample)}
    {lvl : Nat} {st : FillState} (h : ∀ l, lo = some l → l ≤ l') (hr : Ready gap lo seqs lvl st) :
    Ready gap (some l') seqs lvl st := by
  induction seqs generalizing lvl with
  | nil => trivial
  | cons seq seqs ih => exact ⟨fun p hp => not_afterLo_mono h (hr.1 p hp), ih hr.2⟩

theorem ready_init (gap : Int) (seqs : List (List TimelineSample)) (lvl n : Nat)
    (filled : List Nat) :
    Ready gap none seqs lvl { filled := filled, cursors := List.replicate n 0 } := by
  induction seqs generalizing lvl with
  | nil => trivial
  | cons seq seqs ih =>
    refine ⟨fun p hp => ?_, ih (lvl + 1)⟩
    simp [FillState.cursor] at hp

/-! ## One call -/

/-- What a call of `fill` on the streams `seqs` from level `lvl` on, for a gap ending at `hi`,
leaves behind when it is to emit `out`. -/
structure Ran (gap : Int) (seqs : List (List TimelineSample)) (lvl : Nat) (hi : Option Int)
    (st : FillState) (out : List Taken) (r : List TimelineSample × FillState) : Prop where
  emitted : r.1 = out.map Prod.snd
  filled : r.2.filled = addFilled out st.filled
  length : r.2.cursors.length = st.cursors.length
  frame : ∀ j, j < lvl → r.2.cursor j = st.cursor j
  ready : ∀ h l', hi = some h → h ≤ l' → Ready gap (some l') seqs lvl r.2

/-- The ends of a gap are in order. -/
def Ordered (lo hi : Option Int) : Prop := ∀ l h, lo = some l → hi = some h → l ≤ h

/-- `below` computes `ref` from any state that is ready for the gap it is handed. -/
def Simulates (gap : Int) (seqs : List (List TimelineSample)) (lvl : Nat) (below : FillBelow)
    (ref : Option Int → Option Int → List Taken) : Prop :=
  ∀ lo hi st, Ordered lo hi → Ready gap lo seqs lvl st → lvl + seqs.length ≤ st.cursors.length →
    Ran gap seqs lvl hi st (ref lo hi) (below lo hi st)

section Loop

variable {gap : Int} {seqs : List (List TimelineSample)} {lvl : Nat} {below : FillBelow}
  {ref : Option Int → Option Int → List Taken}

/-- A descent emits what the reference emits for the same gap and leaves the next level ready for
every later one. -/
theorem descend_spec (hb : Simulates gap seqs (lvl + 1) below ref) {upper : Option Int}
    {v : FillVars} (ho : Ordered v.subLo upper) (hr : Ready gap v.subLo seqs (lvl + 1) v.st)
    (hlen : lvl + 1 + seqs.length ≤ v.st.cursors.length) :
    ∃ out, out = (if needsFill v.stale v.subLo upper gap then ref v.subLo upper else []) ∧
      (descend below gap upper v).out = v.out ++ out.map Prod.snd ∧
      (descend below gap upper v).i = v.i ∧ (descend below gap upper v).live = v.live ∧
      Ran gap seqs (lvl + 1) upper v.st out (out.map Prod.snd, (descend below gap upper v).st) := by
  unfold descend
  cases hn : needsFill v.stale v.subLo upper gap with
  | true =>
    have h := hb v.subLo upper v.st ho hr hlen
    exact ⟨_, rfl, congrArg (v.out ++ ·) h.emitted, rfl, rfl,
      ⟨rfl, h.filled, h.length, h.frame, h.ready⟩⟩
  | false =>
    refine ⟨_, rfl, by simp, rfl, rfl, ⟨rfl, by simp, rfl, fun _ _ => rfl, ?_⟩⟩
    intro h l' hh hl'
    exact ready_mono (fun l hl => (ho l h hl hh).trans hl') hr

@[simp] theorem take_subLo (p : TimelineSample) (v : FillVars) :
    (take lvl p v).subLo = some p.t := by
  unfold take; split <;> rfl

@[simp] theorem take_stale (p : TimelineSample) (v : FillVars) :
    (take lvl p v).stale = p.stale := by
  unfold take; split <;> simp [*]

@[simp] theorem take_live (p : TimelineSample) (v : FillVars) :
    (take lvl p v).live = !p.stale := by
  unfold take; split <;> simp [*]

@[simp] theorem take_i (p : TimelineSample) (v : FillVars) : (take lvl p v).i = v.i + 1 := by
  unfold take; split <;> rfl

@[simp] theorem take_cursors (p : TimelineSample) (v : FillVars) :
    (take lvl p v).st.cursors = v.st.cursors := by
  unfold take; split <;> simp

@[simp] theorem take_cursor (p : TimelineSample) (v : FillVars) (j : Nat) :
    (take lvl p v).st.cursor j = v.st.cursor j := by
  simp [FillState.cursor]

theorem take_out (p : TimelineSample) (v : FillVars) :
    (take lvl p v).out = v.out ++ (emits lvl v.live p).map Prod.snd := by
  unfold take emits
  cases hs : p.stale with
  | false => simp
  | true => by_cases hl : (decide (lvl = 0) || v.live) = true <;> simp [hl]

theorem take_filled (p : TimelineSample) (v : FillVars) :
    (take lvl p v).st.filled = addFilled (emits lvl v.live p) v.st.filled := by
  unfold take emits
  cases hs : p.stale with
  | false => simp [count_filled v.st lvl hs]
  | true =>
    by_cases hl : (decide (lvl = 0) || v.live) = true <;> simp [hl, addFilled_stale lvl hs]

/-- What the rest of a call leaves, `x`, from the variables `v` in its loop, when it is to emit
`out` and to pass `n` more samples of its level. -/
structure Closes (gap : Int) (seqs : List (List TimelineSample)) (lvl : Nat) (hi : Option Int)
    (v : FillVars) (out : List Taken) (n : Nat) (x : FillVars) : Prop where
  emitted : x.out = v.out ++ out.map Prod.snd
  filled : x.st.filled = addFilled out v.st.filled
  length : x.st.cursors.length = v.st.cursors.length
  frame : ∀ j, j < lvl → x.st.cursor j = v.st.cursor j
  cursor : x.st.cursor lvl = v.i + n
  ready : ∀ h l', hi = some h → h ≤ l' → Ready gap (some l') seqs (lvl + 1) x.st

/-- The end of a call: the cursor is saved and the last gap handed on. -/
def close (below : FillBelow) (gap : Int) (hi : Option Int) (lvl : Nat) (v : FillVars) : FillVars :=
  descend below gap hi { v with st := v.st.setCursor lvl v.i }

theorem close_spec (hb : Simulates gap seqs (lvl + 1) below ref) {hi : Option Int} {v : FillVars}
    (ho : Ordered v.subLo hi) (hr : Ready gap v.subLo seqs (lvl + 1) v.st)
    (hlen : lvl + 1 + seqs.length ≤ v.st.cursors.length) :
    Closes gap seqs lvl hi v (referenceLoop ref gap hi lvl [] v.subLo v.stale v.live) 0
      (close below gap hi lvl v) := by
  have hr' : Ready gap v.subLo seqs (lvl + 1) (v.st.setCursor lvl v.i) :=
    ready_congr (fun j hj => cursor_setCursor_ne v.st (by omega)) hr
  obtain ⟨out, hout, hemit, _, _, hran⟩ :=
    descend_spec hb (v := { v with st := v.st.setCursor lvl v.i }) ho hr'
      (by simpa [FillState.setCursor] using hlen)
  have href : out = referenceLoop ref gap hi lvl [] v.subLo v.stale v.live := hout
  subst href
  refine ⟨hemit, hran.filled, ?_, ?_, ?_, hran.ready⟩
  · rw [close, hran.length]
    simp [FillState.setCursor]
  · intro j hj
    rw [close, hran.frame j (by omega), cursor_setCursor_ne v.st (by omega)]
  · rw [close, hran.frame lvl (by omega), cursor_setCursor_self v.st (by omega), Nat.add_zero]

/-- One turn of the loop: the descent before the sample `p`, then `p`. -/
theorem turn_spec (hb : Simulates gap seqs (lvl + 1) below ref) {p : TimelineSample}
    {v : FillVars} (ho : Ordered v.subLo (some p.t)) (hr : Ready gap v.subLo seqs (lvl + 1) v.st)
    (hlen : lvl + 1 + seqs.length ≤ v.st.cursors.length) :
    Closes gap seqs lvl (some p.t) { v with i := v.st.cursor lvl }
      ((if needsFill v.stale v.subLo (some p.t) gap then ref v.subLo (some p.t) else []) ++
        emits lvl v.live p) 0 (take lvl p (descend below gap (some p.t) v)) ∧
      (take lvl p (descend below gap (some p.t) v)).i = v.i + 1 := by
  obtain ⟨out, hout, hemit, hi, hlive, hran⟩ := descend_spec hb ho hr hlen
  rw [← hout]
  refine ⟨⟨?_, ?_, ?_, ?_, ?_, ?_⟩, by rw [take_i, hi]⟩
  · rw [take_out, hemit, hlive, List.map_append, List.append_assoc]
  · rw [take_filled, hran.filled, hlive, addFilled_append]
  · rw [take_cursors, hran.length]
  · intro j hj
    rw [take_cursor, hran.frame j (by omega)]
  · rw [take_cursor, hran.frame lvl (by omega), Nat.add_zero]
  · intro h l' hh hl'
    exact ready_congr (fun j _ => take_cursor p _ j) (hran.ready h l' hh hl')

/-- The main loop and the end of the call, over the samples from the cursor on. The induction is
on these samples; the invariant is that the next level is ready for a gap starting at `subLo`. -/
theorem fillLoop_spec (hb : Simulates gap seqs (lvl + 1) below ref) (hgap : 0 < gap)
    (hi : Option Int) (rest : List TimelineSample) (v : FillVars)
    (hasc : Ascending TimelineSample.t rest)
    (hlo : ∀ l, v.subLo = some l → ∀ p ∈ rest, l ≤ p.t) (ho : Ordered v.subLo hi)
    (hr : Ready gap v.subLo seqs (lvl + 1) v.st)
    (hlen : lvl + 1 + seqs.length ≤ v.st.cursors.length) :
    Closes gap seqs lvl hi v
      (referenceLoop ref gap hi lvl (rest.takeWhile (beforeHi gap hi)) v.subLo v.stale v.live)
      (rest.takeWhile (beforeHi gap hi)).length
      (close below gap hi lvl (fillLoop below gap (marginBounds none hi gap).2 lvl rest v)) := by
  induction rest generalizing v with
  | nil => exact close_spec hb ho hr hlen
  | cons p rest ih =>
    have hany : (marginBounds none hi gap).2.any (fun h => h ≤ p.t) = !beforeHi gap hi p := by
      simp [marginBounds, beforeHi, Option.any_map]
    rw [fillLoop, hany, List.takeWhile_cons]
    cases hp : beforeHi gap hi p with
    | false => exact close_spec hb ho hr hlen
    | true =>
      rw [ascending_cons] at hasc
      have hop : Ordered v.subLo (some p.t) := by
        intro l h hl hh
        cases hh
        exact hlo l hl p List.mem_cons_self
      obtain ⟨hturn, hi'⟩ := turn_spec hb hop hr hlen
      have hlo' : ∀ l, some p.t = some l → ∀ q ∈ rest, l ≤ q.t := by
        intro l hl q hq
        cases hl
        exact (hasc.1 q hq).le
      have ho' : Ordered (some p.t) hi := by
        intro l h hl hh
        cases hl
        subst hh
        simp only [beforeHi, Option.any_some, Bool.not_eq_true', decide_eq_false_iff_not] at hp
        omega
      have hstep := ih (v := take lvl p (descend below gap (some p.t) v)) hasc.2
        (by rwa [take_subLo]) (by rwa [take_subLo])
        (by rw [take_subLo]; exact hturn.ready p.t p.t rfl (le_refl _))
        (by rw [hturn.length]; exact hlen)
      rw [take_subLo, take_stale, take_live] at hstep
      simp only [Bool.not_true, Bool.false_eq_true, if_false, if_true, referenceLoop,
        List.length_cons]
      refine ⟨?_, ?_, ?_, ?_, ?_, hstep.ready⟩
      · rw [hstep.emitted, hturn.emitted, List.append_assoc, ← List.map_append]
      · rw [hstep.filled, hturn.filled, ← addFilled_append]
      · rw [hstep.length, hturn.length]
      · intro j hj
        rw [hstep.frame j hj, hturn.frame j hj]
      · rw [hstep.cursor, hi']
        omega

end Loop

/-! ## The whole recursion -/

theorem skipLoop_eq (effLo : Option Int) (l : List TimelineSample) (i : Nat) :
    skipLoop effLo l i = i + (l.takeWhile fun p => effLo.any fun lo => p.t ≤ lo).length := by
  induction l generalizing i with
  | nil => rfl
  | cons p l ih =>
    rw [skipLoop, List.takeWhile_cons]
    split
    · rw [ih, List.length_cons]; omega
    · rfl

theorem pairwise_not_afterLo {gap : Int} {lo : Option Int} {seq : List TimelineSample}
    (h : Ascending TimelineSample.t seq) :
    seq.Pairwise fun x y => (!afterLo gap lo y) = true → (!afterLo gap lo x) = true := by
  refine List.Pairwise.imp (fun hxy hy => ?_) h
  cases lo with
  | none => simp [afterLo] at hy
  | some l =>
    simp only [afterLo, Option.any_some, Bool.not_not, decide_eq_true_eq] at hy ⊢
    omega

theorem pairwise_beforeHi {gap : Int} {hi : Option Int} {seq : List TimelineSample}
    (h : Ascending TimelineSample.t seq) :
    seq.Pairwise fun x y => beforeHi gap hi y = true → beforeHi gap hi x = true := by
  refine List.Pairwise.imp (fun hxy hy => ?_) h
  cases hi with
  | none => rfl
  | some u =>
    simp only [beforeHi, Option.any_some, Bool.not_eq_true', decide_eq_false_iff_not] at hy ⊢
    omega

/-- From the cursor on, skipping to the window and stopping at its end gives the samples in the
window. -/
theorem window_eq {gap : Int} {lo hi : Option Int} {seq : List TimelineSample} {c : Nat}
    (hasc : Ascending TimelineSample.t seq)
    (hpast : ∀ p ∈ seq.take c, afterLo gap lo p = false) :
    ((seq.drop c).dropWhile fun p => !afterLo gap lo p).takeWhile (beforeHi gap hi) =
      seq.filter (inWindow gap lo hi) := by
  have hdrop : Ascending TimelineSample.t (seq.drop c) := hasc.sublist (List.drop_sublist c seq)
  have h1 : ((seq.drop c).dropWhile fun p => !afterLo gap lo p) =
      (seq.drop c).filter (afterLo gap lo) := by
    rw [dropWhile_eq_filter (pairwise_not_afterLo hdrop)]
    simp
  have h2 : ((seq.drop c).filter (afterLo gap lo)).takeWhile (beforeHi gap hi) =
      ((seq.drop c).filter (afterLo gap lo)).filter (beforeHi gap hi) :=
    takeWhile_eq_filter (pairwise_beforeHi (hdrop.filter _))
  have h3 : (seq.take c).filter (inWindow gap lo hi) = [] := by
    rw [List.filter_eq_nil_iff]
    intro p hp hw
    simp [inWindow, hpast p hp] at hw
  rw [h1, h2, List.filter_filter]
  conv_rhs => rw [← List.take_append_drop c seq]
  rw [List.filter_append, h3, List.nil_append]
  exact List.filter_congr fun p _ => by rw [inWindow, Bool.and_comm]

theorem fill_simulates {gap : Int} (hgap : 0 < gap) {seqs : List (List TimelineSample)}
    (hasc : ∀ s ∈ seqs, Ascending TimelineSample.t s) (lvl : Nat) :
    Simulates gap seqs lvl (fill gap seqs lvl) (referenceFill gap seqs lvl) := by
  induction seqs generalizing lvl with
  | nil =>
    intro lo hi st _ _ _
    exact ⟨rfl, by simp [fill, referenceFill], rfl, fun _ _ => rfl, fun _ _ _ _ => trivial⟩
  | cons seq seqs ih =>
    intro lo hi st ho hr hlen
    rw [List.length_cons] at hlen
    have hseq : Ascending TimelineSample.t seq := hasc seq List.mem_cons_self
    have hb := ih (fun s hs => hasc s (List.mem_cons_of_mem seq hs)) (lvl + 1)
    have hmargin : 0 ≤ gap / 4 := by omega
    -- the samples the skip loop passes over are the ones not after the lower bound
    have hskip : (fun p : TimelineSample => (marginBounds lo hi gap).1.any fun e => p.t ≤ e) =
        fun p => !afterLo gap lo p := by
      funext p
      simp [marginBounds, afterLo, Option.any_map]
    let c := st.cursor lvl
    let i := skipLoop (marginBounds lo hi gap).1 (seq.drop c) c
    have hi_eq : i = c + ((seq.drop c).takeWhile fun p => !afterLo gap lo p).length := by
      rw [← hskip]
      exact skipLoop_eq _ _ _
    have hdrop : seq.drop i = (seq.drop c).dropWhile fun p => !afterLo gap lo p := by
      rw [hi_eq, ← List.drop_drop, drop_length_takeWhile]
    have hpast : ∀ p ∈ seq.take i, afterLo gap lo p = false := by
      intro p hp
      rw [hi_eq, List.take_add, List.mem_append, take_length_takeWhile] at hp
      rcases hp with hp | hp
      · exact hr.1 p hp
      · simpa using List.mem_takeWhile_imp hp
    have hafter : ∀ p ∈ seq.drop i, afterLo gap lo p = true := by
      intro p hp
      rw [hdrop, dropWhile_eq_filter (pairwise_not_afterLo (hseq.sublist (List.drop_sublist c seq))),
        List.mem_filter] at hp
      simpa using hp.2
    have hlo : ∀ l, lo = some l → ∀ p ∈ seq.drop i, l ≤ p.t := by
      intro l hl p hp
      have h := hafter p hp
      subst hl
      simp only [afterLo, Option.any_some, Bool.not_eq_true', decide_eq_false_iff_not] at h
      omega
    have hloop := fillLoop_spec hb hgap hi (seq.drop i)
      { out := [], i := i, subLo := lo, stale := false, live := false, st := st }
      (hseq.sublist (List.drop_sublist i seq)) hlo ho hr.2 (by simpa using by omega)
    have hwin : (seq.drop i).takeWhile (beforeHi gap hi) = seq.filter (inWindow gap lo hi) := by
      rw [hdrop]
      exact window_eq hseq hr.1
    rw [hwin] at hloop
    refine ⟨hloop.emitted, hloop.filled, hloop.length, hloop.frame, ?_⟩
    intro h l' hh hl'
    refine ⟨fun p hp => ?_, hloop.ready h l' hh hl'⟩
    have hcur : (fill gap (seq :: seqs) lvl lo hi st).2.cursor lvl =
        i + ((seq.drop i).takeWhile (beforeHi gap hi)).length := hwin ▸ hloop.cursor
    rw [hcur, List.take_add, List.mem_append, take_length_takeWhile] at hp
    rcases hp with hp | hp
    · exact not_afterLo_mono (fun l hl => (ho l h hl hh).trans hl') (hpast p hp)
    · have hb := List.mem_takeWhile_imp hp
      subst hh
      simp only [beforeHi, afterLo, Option.any_some, Bool.not_eq_true', Bool.not_eq_false',
        decide_eq_false_iff_not, decide_eq_true_eq] at hb ⊢
      omega

theorem effectiveGap_pos (gap : Int) : 0 < effectiveGap gap := by
  unfold effectiveGap
  split <;> omega

/-- Resuming from the cursors changes nothing: the merge emits the samples, and counts the ones
it filled in, as the recursion that rescans every filler for every gap does. -/
theorem priorityMergeSampleStream_eq_reference (base : SampleStream) (fillers : List SampleStream)
    (gap : Int) (hbase : Ascending TimelineSample.t (timeline base))
    (hfillers : ∀ f ∈ fillers, Ascending TimelineSample.t (timeline f)) :
    priorityMergeSampleStream base fillers gap = referencePriorityMerge base fillers gap := by
  have hasc : ∀ s ∈ timeline base :: fillers.map timeline, Ascending TimelineSample.t s := by
    intro s hs
    rcases List.mem_cons.mp hs with rfl | hs
    · exact hbase
    · obtain ⟨f, hf, rfl⟩ := List.mem_map.mp hs
      exact hfillers f hf
  have hran := fill_simulates (effectiveGap_pos gap) hasc 0 none none _ (fun _ _ hl => by cases hl)
    (ready_init _ _ 0 (timeline base :: fillers.map timeline).length
      (List.replicate fillers.length 0)) (by simp)
  rw [priorityMergeSampleStream, referencePriorityMerge, hran.emitted, hran.filled,
    addFilled_replicate]
  rfl

/-- A base that goes stale at 20 and is back at 22: the window of that gap is inverted. -/
theorem priorityMergeSampleStream_eq_reference_stale :
    let base : SampleStream :=
      ⟨.empty, [⟨0, ⟨1⟩⟩, ⟨20, .staleNaN⟩, ⟨22, ⟨1⟩⟩, ⟨90, ⟨1⟩⟩], []⟩
    let filler : SampleStream := ⟨.empty, [⟨5, ⟨2⟩⟩, ⟨21, ⟨2⟩⟩, ⟨40, ⟨2⟩⟩, ⟨60, ⟨2⟩⟩], []⟩
    priorityMergeSampleStream base [filler] 40 = referencePriorityMerge base [filler] 40 :=
  priorityMergeSampleStream_eq_reference _ _ 40 (by decide) (by decide)

end Promhttputil
end Proxeus
