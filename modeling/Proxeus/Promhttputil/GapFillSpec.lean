import Proxeus.Promhttputil.GapFillReference

/-!
# Promhttputil.GapFillSpec

What a gap fill is for. The merge keeps the base stream whole, and everything else it takes lies in
a gap of the base (`GapSlot`) more than a margin away from the base samples around it; samples of
different streams are never closer than the margin (`Apart`).

All of it is proved of `referenceFill` by induction on the streams, with one induction on the
samples of a level inside: `referenceLoop_apart` and `referenceLoop_inWindow` say what a level does
with the gaps it hands on, whatever the levels below it are.
-/

namespace Proxeus
namespace Promhttputil

open Lib

/-! ## Streams and timelines -/

theorem timelineLoop_streamOf (metric : Labels) {out : List TimelineSample}
    (h : Ascending TimelineSample.t out) :
    timelineLoop (streamOf metric out).values (streamOf metric out).histograms = out := by
  induction out with
  | nil => rfl
  | cons p out ih =>
    rw [ascending_cons] at h
    have htail := ih h.2
    obtain ⟨t, v⟩ := p
    cases v with
    | float f =>
      have hvals : (streamOf metric (⟨t, .float f⟩ :: out)).values =
          ⟨t, f⟩ :: (streamOf metric out).values := rfl
      have hhists : (streamOf metric (⟨t, .float f⟩ :: out)).histograms =
          (streamOf metric out).histograms := rfl
      rw [hvals, hhists]
      conv_rhs => rw [← htail]
      rw [timelineLoop]
      cases hh : (streamOf metric out).histograms with
      | nil => rfl
      | cons g gs =>
        have hlt : t < g.timestamp := by
          have hg : g ∈ (streamOf metric out).histograms := hh ▸ List.mem_cons_self
          obtain ⟨q, hq, hqg⟩ := List.mem_filterMap.mp hg
          have := h.1 q hq
          split at hqg
          · cases hqg
          · cases hqg
            exact this
        rw [timelineStep, if_pos (show t ≤ g.timestamp by omega)]
        rfl
    | histogram g =>
      have hvals : (streamOf metric (⟨t, .histogram g⟩ :: out)).values =
          (streamOf metric out).values := rfl
      have hhists : (streamOf metric (⟨t, .histogram g⟩ :: out)).histograms =
          ⟨t, g⟩ :: (streamOf metric out).histograms := rfl
      rw [hvals, hhists]
      conv_rhs => rw [← htail]
      cases hv : (streamOf metric out).values with
      | nil => rfl
      | cons w ws =>
        have hlt : t < w.timestamp := by
          have hw : w ∈ (streamOf metric out).values := hv ▸ List.mem_cons_self
          obtain ⟨q, hq, hqw⟩ := List.mem_filterMap.mp hw
          have := h.1 q hq
          split at hqw
          · cases hqw
            exact this
          · cases hqw
        rw [timelineLoop, timelineStep, if_neg (show ¬ w.timestamp ≤ t by omega)]
        rfl

/-- A strictly ascending list of samples survives being split into a stream and read back. -/
theorem timeline_streamOf (metric : Labels) {out : List TimelineSample}
    (h : Ascending TimelineSample.t out) : timeline (streamOf metric out) = out :=
  timelineLoop_streamOf metric h

/-! ## One level -/

/-- `x` comes before `y`, by more than `margin` when they are of different streams. -/
def Apart (margin : Int) (x y : Taken) : Prop :=
  x.2.t < y.2.t ∧ (x.1 ≠ y.1 → x.2.t + margin < y.2.t)

theorem needsFill_true_iff {stale : Bool} {lo upper : Option Int} {gap : Int} :
    needsFill stale lo upper gap = true ↔
      stale = true ∨ ∀ l u, lo = some l → upper = some u → gap ≤ u - l := by
  unfold needsFill
  cases stale <;> cases lo <;> cases upper <;> simp

theorem mem_emits {lvl : Nat} {live : Bool} {p : TimelineSample} {x : Taken}
    (h : x ∈ emits lvl live p) : x = (lvl, p) := by
  unfold emits at h
  split at h
  · cases h
  · exact List.mem_singleton.mp h

section Loop

variable {gap : Int} {hi : Option Int} {lvl : Nat} {below : Option Int → Option Int → List Taken}

/-- A sample the loop emits is one of its level's or was emitted for a gap it handed on: between
the last sample before it and the next one, or after the last one. -/
theorem mem_referenceLoop {l : List TimelineSample} {subLo : Option Int} {stale live : Bool}
    {x : Taken} (hx : x ∈ referenceLoop below gap hi lvl l subLo stale live) :
    (x.1 = lvl ∧ x.2 ∈ l) ∨
      ∃ s u, x ∈ below s u ∧ (s = subLo ∨ ∃ p ∈ l, s = some p.t) ∧
        (u = hi ∨ ∃ p ∈ l, u = some p.t) := by
  induction l generalizing subLo stale live with
  | nil =>
    simp only [referenceLoop] at hx
    split at hx
    · exact .inr ⟨subLo, hi, hx, .inl rfl, .inl rfl⟩
    · cases hx
  | cons p l ih =>
    simp only [referenceLoop, List.mem_append] at hx
    rcases hx with (hx | hx) | hx
    · split at hx
      · exact .inr ⟨subLo, some p.t, hx, .inl rfl, .inr ⟨p, List.mem_cons_self, rfl⟩⟩
      · cases hx
    · rw [mem_emits hx]
      exact .inl ⟨rfl, List.mem_cons_self⟩
    · rcases ih hx with ⟨h1, h2⟩ | ⟨s, u, hsu, hs, hu⟩
      · exact .inl ⟨h1, List.mem_cons_of_mem p h2⟩
      · refine .inr ⟨s, u, hsu, ?_, ?_⟩
        · rcases hs with rfl | ⟨q, hq, rfl⟩
          · exact .inr ⟨p, List.mem_cons_self, rfl⟩
          · exact .inr ⟨q, List.mem_cons_of_mem p hq, rfl⟩
        · rcases hu with rfl | ⟨q, hq, rfl⟩
          · exact .inl rfl
          · exact .inr ⟨q, List.mem_cons_of_mem p hq, rfl⟩

/-- The gaps handed on lie inside the gap of the level, so what is taken for them does. -/
theorem referenceLoop_inWindow (hgap : 0 < gap) {lo : Option Int}
    (hbelow : ∀ s u, ∀ x ∈ below s u, inWindow gap s u x.2 = true)
    {l : List TimelineSample} (hl : ∀ p ∈ l, inWindow gap lo hi p = true) {stale live : Bool}
    {x : Taken} (hx : x ∈ referenceLoop below gap hi lvl l lo stale live) :
    inWindow gap lo hi x.2 = true := by
  rcases mem_referenceLoop hx with ⟨_, hm⟩ | ⟨s, u, hsu, hs, hu⟩
  · exact hl _ hm
  · have hw := hbelow s u x hsu
    simp only [inWindow, Bool.and_eq_true] at hw hl ⊢
    constructor
    · rcases hs with rfl | ⟨p, hp, rfl⟩
      · exact hw.1
      · have hp1 := (hl p hp).1
        cases lo with
        | none => rfl
        | some l =>
          simp only [afterLo, Option.any_some, Bool.not_eq_true', decide_eq_false_iff_not]
            at hw hp1 ⊢
          omega
    · rcases hu with rfl | ⟨p, hp, rfl⟩
      · exact hw.2
      · have hp2 := (hl p hp).2
        cases hi with
        | none => rfl
        | some h =>
          simp only [beforeHi, Option.any_some, Bool.not_eq_true', decide_eq_false_iff_not]
            at hw hp2 ⊢
          omega

/-- Later than `subLo`, by more than the margin when it is not of level `lvl`. -/
def Beyond (gap : Int) (lvl : Nat) (subLo : Option Int) (x : Taken) : Prop :=
  ∀ s, subLo = some s → s < x.2.t ∧ (x.1 ≠ lvl → s + gap / 4 < x.2.t)

theorem beyond_of_inWindow (hgap : 0 < gap) {s u : Option Int} {x : Taken}
    (h : inWindow gap s u x.2 = true) : Beyond gap lvl s x := by
  intro s' hs
  subst hs
  simp only [inWindow, afterLo, Option.any_some, Bool.and_eq_true, Bool.not_eq_true',
    decide_eq_false_iff_not] at h
  omega

theorem referenceLoop_apart (hgap : 0 < gap)
    (hbelow : ∀ s u, (below s u).Pairwise (Apart (gap / 4)))
    (hwin : ∀ s u, ∀ x ∈ below s u, inWindow gap s u x.2 = true)
    {l : List TimelineSample} (hl : Ascending TimelineSample.t l) {subLo : Option Int}
    {stale live : Bool} (hlo : ∀ s, subLo = some s → ∀ p ∈ l, s < p.t) :
    (referenceLoop below gap hi lvl l subLo stale live).Pairwise (Apart (gap / 4)) ∧
      ∀ x ∈ referenceLoop below gap hi lvl l subLo stale live, Beyond gap lvl subLo x := by
  induction l generalizing subLo stale live with
  | nil =>
    simp only [referenceLoop]
    split
    · exact ⟨hbelow _ _, fun x hx => beyond_of_inWindow hgap (hwin _ _ x hx)⟩
    · exact ⟨List.Pairwise.nil, fun x hx => by cases hx⟩
  | cons p l ih =>
    rw [ascending_cons] at hl
    obtain ⟨hrest, hbeyond⟩ := @ih hl.2 (some p.t) p.stale (!p.stale)
      (fun s hs q hq => by cases hs; exact hl.1 q hq)
    -- what is taken below for the gap that ends at `p`
    have hdeep : ∀ x ∈ (if needsFill stale subLo (some p.t) gap then below subLo (some p.t) else []),
        inWindow gap subLo (some p.t) x.2 = true := by
      intro x hx
      split at hx
      · exact hwin _ _ x hx
      · cases hx
    have hpair : (if needsFill stale subLo (some p.t) gap then below subLo (some p.t)
        else []).Pairwise (Apart (gap / 4)) := by
      split
      · exact hbelow _ _
      · exact List.Pairwise.nil
    have hbefore : ∀ x ∈ (if needsFill stale subLo (some p.t) gap then below subLo (some p.t)
        else []), x.2.t + gap / 4 < p.t := by
      intro x hx
      have h := hdeep x hx
      simp only [inWindow, beforeHi, Option.any_some, Bool.and_eq_true, Bool.not_eq_true',
        decide_eq_false_iff_not] at h
      omega
    simp only [referenceLoop]
    refine ⟨?_, ?_⟩
    · rw [List.pairwise_append, List.pairwise_append]
      refine ⟨⟨hpair, ?_, ?_⟩, hrest, ?_⟩
      · unfold emits
        split
        · exact List.Pairwise.nil
        · exact List.pairwise_singleton _ _
      · intro x hx y hy
        rw [mem_emits hy]
        have hxp := hbefore x hx
        exact ⟨by simp only; omega, fun _ => hxp⟩
      · intro x hx y hy
        have hyp := hbeyond y hy p.t rfl
        rcases List.mem_append.mp hx with hx | hx
        · have hxp := hbefore x hx
          exact ⟨by omega, fun _ => by omega⟩
        · rw [mem_emits hx]
          exact ⟨hyp.1, fun hne => hyp.2 (Ne.symm hne)⟩
    · intro x hx s hs
      have hsp := hlo s hs p List.mem_cons_self
      simp only [List.mem_append] at hx
      rcases hx with (hx | hx) | hx
      · exact beyond_of_inWindow hgap (hdeep x hx) s hs
      · rw [mem_emits hx]
        exact ⟨hsp, fun hne => absurd rfl hne⟩
      · have hxp := hbeyond x hx p.t rfl
        exact ⟨by omega, fun hne => by have := hxp.2 hne; omega⟩

end Loop

/-! ## The recursion -/

section Fill

variable {gap : Int}

theorem referenceFill_inWindow (hgap : 0 < gap) {seqs : List (List TimelineSample)} {lvl : Nat}
    {lo hi : Option Int} {x : Taken} (hx : x ∈ referenceFill gap seqs lvl lo hi) :
    inWindow gap lo hi x.2 = true := by
  induction seqs generalizing lvl lo hi x with
  | nil => cases hx
  | cons seq seqs ih =>
    exact referenceLoop_inWindow hgap (fun s u y hy => ih hy)
      (fun p hp => (List.mem_filter.mp hp).2) hx

theorem referenceFill_apart (hgap : 0 < gap) {seqs : List (List TimelineSample)}
    (hasc : ∀ s ∈ seqs, Ascending TimelineSample.t s) {lvl : Nat} {lo hi : Option Int} :
    (referenceFill gap seqs lvl lo hi).Pairwise (Apart (gap / 4)) := by
  induction seqs generalizing lvl lo hi with
  | nil => exact List.Pairwise.nil
  | cons seq seqs ih =>
    refine (referenceLoop_apart hgap (fun s u => ih fun s hs => hasc s (List.mem_cons_of_mem _ hs))
      (fun s u x hx => referenceFill_inWindow hgap hx)
      ((hasc seq List.mem_cons_self).filter _) ?_).1
    intro s hs p hp
    subst hs
    have hw := (List.mem_filter.mp hp).2
    simp only [inWindow, afterLo, Option.any_some, Bool.and_eq_true, Bool.not_eq_true',
      decide_eq_false_iff_not] at hw
    omega

/-- A sample is tagged with the stream it is a sample of. -/
theorem referenceFill_source {seqs : List (List TimelineSample)} {lvl : Nat} {lo hi : Option Int}
    {x : Taken} (hx : x ∈ referenceFill gap seqs lvl lo hi) :
    lvl ≤ x.1 ∧ ∃ seq, seqs[x.1 - lvl]? = some seq ∧ x.2 ∈ seq := by
  induction seqs generalizing lvl lo hi x with
  | nil => cases hx
  | cons seq seqs ih =>
    rcases mem_referenceLoop hx with ⟨hl, hm⟩ | ⟨s, u, hsu, _, _⟩
    · refine ⟨hl.ge, seq, ?_, (List.mem_filter.mp hm).1⟩
      simp [hl]
    · obtain ⟨hle, seq', hget, hmem⟩ := ih hsu
      refine ⟨by omega, seq', ?_, hmem⟩
      rw [show x.1 - lvl = (x.1 - (lvl + 1)) + 1 by omega, List.getElem?_cons_succ, hget]

/-- A live sample in the window of a level is taken, whatever the levels below do. -/
theorem mem_referenceFill_of_inWindow {seq : List TimelineSample}
    {seqs : List (List TimelineSample)} {lvl : Nat} {lo hi : Option Int} {p : TimelineSample}
    (hp : p ∈ seq) (hs : p.stale = false) (hw : inWindow gap lo hi p = true) :
    (lvl, p) ∈ referenceFill gap (seq :: seqs) lvl lo hi := by
  have key : ∀ (l : List TimelineSample), p ∈ l → ∀ subLo stale live,
      (lvl, p) ∈ referenceLoop (referenceFill gap seqs (lvl + 1)) gap hi lvl l subLo stale live := by
    intro l hl
    induction l with
    | nil => cases hl
    | cons q l ih =>
      intro subLo stale live
      simp only [referenceLoop, List.mem_append]
      rcases List.mem_cons.mp hl with rfl | hl
      · exact .inl (.inr (by simp [emits, hs]))
      · exact .inr (ih hl _ _ _)
  exact key _ (List.mem_filter.mpr ⟨hp, hw⟩) _ _ _

end Fill

/-! ## The gaps of the base -/

/-- `t` lies in a gap of `base`, more than a margin away from the samples around it: `pre` are the
samples before the gap and `post` the ones after it. -/
def GapSlot (gap : Int) (base : List TimelineSample) (t : Int) : Prop :=
  ∃ pre post, base = pre ++ post ∧ (∀ p, pre.getLast? = some p → p.t + gap / 4 < t) ∧
    (∀ q, post.head? = some q → t < q.t - gap / 4) ∧
    ∀ p q, pre.getLast? = some p → post.head? = some q → p.stale = true ∨ gap ≤ q.t - p.t

section Slot

variable {gap : Int} {pre post : List TimelineSample}

/-- A gap is always handed on. -/
theorem slot_needsFill
    (h : ∀ p q, pre.getLast? = some p → post.head? = some q → p.stale = true ∨ gap ≤ q.t - p.t) :
    needsFill (pre.getLast?.any TimelineSample.stale) (pre.getLast?.map TimelineSample.t)
      (post.head?.map TimelineSample.t) gap = true := by
  rw [needsFill_true_iff]
  cases hp : pre.getLast? with
  | none => exact .inr fun l u hl _ => by cases hl
  | some p =>
    cases hq : post.head? with
    | none => exact .inr fun l u _ hu => by cases hu
    | some q =>
      refine (h p q hp hq).imp id fun hge l u hl hu => ?_
      cases hl
      cases hu
      exact hge

theorem slot_inWindow {p : TimelineSample}
    (hpre : ∀ q, pre.getLast? = some q → q.t + gap / 4 < p.t)
    (hpost : ∀ q, post.head? = some q → p.t < q.t - gap / 4) :
    inWindow gap (pre.getLast?.map TimelineSample.t) (post.head?.map TimelineSample.t) p = true := by
  rw [inWindow, Bool.and_eq_true]
  constructor
  · cases hl : pre.getLast? with
    | none => rfl
    | some q => simpa [afterLo] using hpre q hl
  · cases hh : post.head? with
    | none => rfl
    | some q =>
      have := hpost q hh
      simp only [beforeHi, Option.map_some, Option.any_some, Bool.not_eq_true',
        decide_eq_false_iff_not]
      omega

end Slot

section Base

variable {gap : Int} {below : Option Int → Option Int → List Taken}

/-- The level above all others hands on exactly the gaps between its samples: `pre` is the part of
the base the loop is past. -/
theorem base_gapSlot (hwin : ∀ s u, ∀ x ∈ below s u, inWindow gap s u x.2 = true)
    (pre : List TimelineSample) {post : List TimelineSample} (live : Bool) {x : Taken}
    (hx0 : x.1 ≠ 0) (hx : x ∈ referenceLoop below gap none 0 post (pre.getLast?.map TimelineSample.t)
      (pre.getLast?.any TimelineSample.stale) live) : GapSlot gap (pre ++ post) x.2.t := by
  -- a gap `(pre, post)` that is handed on is a slot for what is taken for it
  have slot : ∀ (pre post : List TimelineSample),
      needsFill (pre.getLast?.any TimelineSample.stale) (pre.getLast?.map TimelineSample.t)
        (post.head?.map TimelineSample.t) gap = true →
      x ∈ below (pre.getLast?.map TimelineSample.t) (post.head?.map TimelineSample.t) →
      GapSlot gap (pre ++ post) x.2.t := by
    intro pre post hn hx
    have hw := hwin _ _ x hx
    simp only [inWindow, Bool.and_eq_true] at hw
    refine ⟨pre, post, rfl, fun p hp => ?_, fun q hq => ?_, fun p q hp hq => ?_⟩
    · simpa [afterLo, hp] using hw.1
    · have h2 := hw.2
      simp only [beforeHi, hq, Option.map_some, Option.any_some, Bool.not_eq_true',
        decide_eq_false_iff_not] at h2
      omega
    · rw [needsFill_true_iff] at hn
      rcases hn with hn | hn
      · exact .inl (by simpa [hp] using hn)
      · exact .inr (hn p.t q.t (by simp [hp]) (by simp [hq]))
  induction post generalizing pre live with
  | nil =>
    simp only [referenceLoop] at hx
    split at hx
    · exact slot pre [] ‹_› hx
    · cases hx
  | cons p post ih =>
    simp only [referenceLoop, List.mem_append] at hx
    rcases hx with (hx | hx) | hx
    · split at hx
      · exact slot pre (p :: post) ‹_› hx
      · cases hx
    · exact absurd (by rw [mem_emits hx]) hx0
    · have h := ih (pre ++ [p]) (!p.stale) (by simpa using hx)
      rwa [List.append_assoc] at h

/-- What is taken for a gap of the base is in the output. -/
theorem mem_base_of_gap (pre : List TimelineSample) {post post' : List TimelineSample}
    (live : Bool) {x : Taken}
    (hn : needsFill ((pre ++ post).getLast?.any TimelineSample.stale)
      ((pre ++ post).getLast?.map TimelineSample.t) (post'.head?.map TimelineSample.t) gap = true)
    (hx : x ∈ below ((pre ++ post).getLast?.map TimelineSample.t)
      (post'.head?.map TimelineSample.t)) :
    x ∈ referenceLoop below gap none 0 (post ++ post') (pre.getLast?.map TimelineSample.t)
      (pre.getLast?.any TimelineSample.stale) live := by
  induction post generalizing pre live with
  | nil =>
    rw [List.append_nil] at hn hx
    cases post' with
    | nil =>
      simp only [List.head?_nil, Option.map_none] at hn hx
      simp [referenceLoop, hn, hx]
    | cons q post' =>
      simp only [List.head?_cons, Option.map_some] at hn hx
      simp [referenceLoop, hn, hx]
  | cons p post ih =>
    rw [List.append_cons] at hn hx
    have h := ih (pre ++ [p]) (!p.stale) hn hx
    simp only [List.cons_append, referenceLoop, List.mem_append]
    exact .inr (by simpa using h)

/-- The base is kept whole, its stale markers included. -/
theorem base_kept (htag : ∀ s u, ∀ x ∈ below s u, x.1 ≠ 0) {l : List TimelineSample}
    {subLo : Option Int} {stale live : Bool} :
    (referenceLoop below gap none 0 l subLo stale live).filter (fun x => x.1 = 0) =
      l.map fun p => (0, p) := by
  have hnone : ∀ s u, (below s u).filter (fun x => x.1 = 0) = [] := by
    intro s u
    rw [List.filter_eq_nil_iff]
    intro x hx
    simpa using htag s u x hx
  have hdeep : ∀ (b : Bool) s u,
      (if b then below s u else []).filter (fun x => x.1 = 0) = [] := by
    intro b s u
    cases b
    · rfl
    · exact hnone s u
  induction l generalizing subLo stale live with
  | nil => simpa only [referenceLoop, List.map_nil] using hdeep _ _ _
  | cons p l ih =>
    simp only [referenceLoop, List.filter_append, hdeep, ih, List.nil_append, List.map_cons]
    simp [emits]

end Base

section Merge

variable {base : SampleStream} {fillers : List SampleStream} {gap : Int}

theorem effectiveGap_of_pos (h : 0 < gap) : effectiveGap gap = gap := if_neg (by omega)

theorem seqs_ascending (hbase : Ascending TimelineSample.t (timeline base))
    (hfillers : ∀ f ∈ fillers, Ascending TimelineSample.t (timeline f)) :
    ∀ s ∈ timeline base :: fillers.map timeline, Ascending TimelineSample.t s := by
  intro s hs
  rcases List.mem_cons.mp hs with rfl | hs
  · exact hbase
  · obtain ⟨f, hf, rfl⟩ := List.mem_map.mp hs
    exact hfillers f hf

theorem referenceTaken_apart (hbase : Ascending TimelineSample.t (timeline base))
    (hfillers : ∀ f ∈ fillers, Ascending TimelineSample.t (timeline f)) :
    (referenceTaken base fillers gap).Pairwise (Apart (effectiveGap gap / 4)) :=
  referenceFill_apart (effectiveGap_pos gap) (seqs_ascending hbase hfillers)

theorem referenceTaken_ascending (hbase : Ascending TimelineSample.t (timeline base))
    (hfillers : ∀ f ∈ fillers, Ascending TimelineSample.t (timeline f)) :
    Ascending TimelineSample.t ((referenceTaken base fillers gap).map Prod.snd) :=
  ascending_map.mpr (List.Pairwise.imp (fun h => h.1) (referenceTaken_apart hbase hfillers))

/-- Read back, the output of a merge is the samples taken, in order. -/
theorem timeline_priorityMerge (hbase : Ascending TimelineSample.t (timeline base))
    (hfillers : ∀ f ∈ fillers, Ascending TimelineSample.t (timeline f)) :
    timeline (priorityMergeSampleStream base fillers gap).1 =
      (referenceTaken base fillers gap).map Prod.snd := by
  rw [priorityMergeSampleStream_eq_reference base fillers gap hbase hfillers]
  exact timeline_streamOf base.metric (referenceTaken_ascending hbase hfillers)

/-- The base has the whole of time for its window. -/
theorem referenceTaken_eq : referenceTaken base fillers gap =
    referenceLoop (referenceFill (effectiveGap gap) (fillers.map timeline) 1) (effectiveGap gap)
      none 0 (timeline base) none false false := by
  have hall : (timeline base).filter (inWindow (effectiveGap gap) none none) = timeline base :=
    List.filter_eq_self.mpr fun _ _ => rfl
  rw [referenceTaken, referenceFill, hall]

theorem referenceTaken_base :
    (referenceTaken base fillers gap).filter (fun x => x.1 = 0) =
      (timeline base).map fun p => (0, p) := by
  rw [referenceTaken_eq]
  exact base_kept fun s u x hx => by
    have := (referenceFill_source hx).1
    omega

theorem referenceTaken_filler {x : Taken} (hx : x ∈ referenceTaken base fillers gap)
    (h0 : x.1 ≠ 0) : ∃ f, fillers[x.1 - 1]? = some f ∧ x.2 ∈ timeline f := by
  obtain ⟨_, seq, hget, hmem⟩ := referenceFill_source hx
  rw [show x.1 - 0 = (x.1 - 1) + 1 by omega, List.getElem?_cons_succ, List.getElem?_map] at hget
  obtain ⟨f, hf, rfl⟩ := Option.map_eq_some_iff.mp hget
  exact ⟨f, hf, hmem⟩

theorem referenceTaken_gapSlot {x : Taken} (hx : x ∈ referenceTaken base fillers gap)
    (h0 : x.1 ≠ 0) : GapSlot (effectiveGap gap) (timeline base) x.2.t := by
  rw [referenceTaken_eq] at hx
  exact base_gapSlot (fun s u y hy => referenceFill_inWindow (effectiveGap_pos gap) hy) [] _ h0 hx

theorem mem_referenceTaken_of_gapSlot {f : SampleStream} (hf : fillers.head? = some f)
    {p : TimelineSample} (hp : p ∈ timeline f) (hs : p.stale = false)
    (hslot : GapSlot (effectiveGap gap) (timeline base) p.t) :
    (1, p) ∈ referenceTaken base fillers gap := by
  obtain ⟨pre, post, hsplit, hpre, hpost, hwide⟩ := hslot
  cases fillers with
  | nil => cases hf
  | cons g fillers =>
    cases hf
    rw [referenceTaken_eq, hsplit]
    exact mem_base_of_gap [] _ (slot_needsFill hwide)
      (mem_referenceFill_of_inWindow hp hs (slot_inWindow hpre hpost))

/-- **What a gap fill takes.** Read back, the output is the samples taken, strictly ascending. The
ones of the base are the base. Every other one is a sample of the filler it is tagged with, in a
gap of the base and more than a margin away from the base samples around it. Neighbours of
different streams are more than a margin apart. Every live sample of the first filler that lies in
a gap, beyond the margin, is taken. -/
theorem priorityMergeSampleStream_spec (base : SampleStream) (fillers : List SampleStream)
    (gap : Int) (hgap : 0 < gap) (hbase : Ascending TimelineSample.t (timeline base))
    (hfillers : ∀ f ∈ fillers, Ascending TimelineSample.t (timeline f)) :
    let out := timeline (priorityMergeSampleStream base fillers gap).1
    let taken := referenceTaken base fillers gap
    taken.map Prod.snd = out ∧ Ascending TimelineSample.t out ∧
      (∀ p ∈ timeline base, out.count p = 1) ∧
      (taken.filter fun x => x.1 = 0) = (timeline base).map (fun p => (0, p)) ∧
      (∀ x ∈ taken, x.1 ≠ 0 → (∃ f, fillers[x.1 - 1]? = some f ∧ x.2 ∈ timeline f) ∧
        GapSlot gap (timeline base) x.2.t) ∧
      taken.IsChain (fun x y => x.1 ≠ y.1 → gap / 4 < y.2.t - x.2.t) ∧
      ∀ f, fillers.head? = some f → ∀ p ∈ timeline f, p.stale = false →
        GapSlot gap (timeline base) p.t → (1, p) ∈ taken := by
  intro out taken
  have hout : out = taken.map Prod.snd := timeline_priorityMerge hbase hfillers
  have hasc : Ascending TimelineSample.t out := hout ▸ referenceTaken_ascending hbase hfillers
  have hg : effectiveGap gap = gap := effectiveGap_of_pos hgap
  refine ⟨hout.symm, hasc, ?_, referenceTaken_base, ?_, ?_, ?_⟩
  · intro p hp
    apply List.count_eq_one_of_mem hasc.nodup
    have hmem : (0, p) ∈ taken.filter fun x => x.1 = 0 := by
      rw [referenceTaken_base]
      exact List.mem_map_of_mem hp
    rw [hout]
    exact List.mem_map_of_mem (List.mem_filter.mp hmem).1
  · intro x hx h0
    exact ⟨referenceTaken_filler hx h0, hg ▸ referenceTaken_gapSlot hx h0⟩
  · refine List.Pairwise.isChain (List.Pairwise.imp ?_ (referenceTaken_apart hbase hfillers))
    intro x y hxy hne
    have := hxy.2 hne
    rw [hg] at this
    omega
  · intro f hf p hp hs hslot
    exact mem_referenceTaken_of_gapSlot hf hp hs (by rwa [hg])

/-- A gap of 100 filled with the sample in its middle. -/
theorem priorityMergeSampleStream_spec_gap :
    let base : SampleStream := ⟨.empty, [⟨0, ⟨1⟩⟩, ⟨100, ⟨1⟩⟩], []⟩
    let filler : SampleStream := ⟨.empty, [⟨5, ⟨2⟩⟩, ⟨50, ⟨2⟩⟩], []⟩
    Ascending TimelineSample.t (timeline (priorityMergeSampleStream base [filler] 40).1) ∧
      (1, ⟨50, .float ⟨2⟩⟩) ∈ referenceTaken base [filler] 40 := by
  intro base filler
  have h := priorityMergeSampleStream_spec base [filler] 40 (by decide) (by decide) (by decide)
  refine ⟨h.2.1, h.2.2.2.2.2.2 filler rfl ⟨50, .float ⟨2⟩⟩ (by decide) (by decide) ?_⟩
  refine ⟨[⟨0, .float ⟨1⟩⟩], [⟨100, .float ⟨1⟩⟩], by decide, ?_, ?_, ?_⟩
  · intro p hp
    cases hp
    decide
  · intro q hq
    cases hq
    decide
  · intro p q hp hq
    cases hp
    cases hq
    decide

end Merge

end Promhttputil
end Proxeus
