import Proxeus.Lib.Spaced
import Proxeus.Promhttputil.Merge

/-!
# Promhttputil.MergePass

The single pass computes the union of its inputs: `mergePass_eq_weaveAll` for whatever is emitted
in the place of the longer side's samples, `mergePass_eq_spacedUnion` where they are emitted
unchanged. `PassInv` is what the loop over `a` keeps: the last time emitted is that of the last
sample of `a`, and what `bOffset` has passed is too early for every hole to come, be it emitted or
not.
-/

namespace Proxeus
namespace Promhttputil

open Lib

section

variable {α : Type*} {time : α → Int} {buffer : Int} {emit : α → Nat → α × Nat} {a b : List α}

/-! ## The two loops over `b` -/

theorem prefixLoop_fst (T : Int) (l : List α) (i off : Nat) :
    (prefixLoop time T l i off).1 = l.takeWhile fun x => time x < T := by
  induction l generalizing i off with
  | nil => rfl
  | cons x l ih =>
    rw [prefixLoop, List.takeWhile_cons]
    by_cases hx : time x < T
    · simp only [hx, if_true, decide_true, ih]
    · simp only [hx, if_false, decide_false, Bool.false_eq_true]

/-- The offset stays on the last point emitted where the whole list is, so it is only bounded. -/
theorem prefixLoop_snd_le (time : α → Int) (T : Int) (l : List α) (i off : Nat) :
    (prefixLoop time T l i off).2 ≤ max off (i + (l.takeWhile fun x => time x < T).length) := by
  induction l generalizing i off with
  | nil => exact le_max_left _ _
  | cons x l ih =>
    rw [prefixLoop, List.takeWhile_cons]
    by_cases hx : time x < T
    · have := ih (i + 1) i
      simp only [hx, if_true, decide_true, List.length_cons]
      omega
    · simp only [hx, if_false, decide_false, Bool.false_eq_true, List.length_nil]
      omega

theorem betweenLoop_fst (hB : 0 ≤ buffer) {lastTime aTime : Int} {l : List α}
    (hl : Ascending time l) (off : Nat) :
    (betweenLoop time buffer lastTime aTime l off).1 = between time buffer lastTime aTime l := by
  induction l generalizing off with
  | nil => rfl
  | cons x l ih =>
    rw [ascending_cons] at hl
    rw [betweenLoop, between, List.filter_cons]
    by_cases hx : aTime ≤ time x
    · have hnil : l.filter (fun x => lastTime + buffer < time x && time x < aTime - buffer) = [] := by
        rw [List.filter_eq_nil_iff]
        intro z hz h
        have := hl.1 z hz
        simp only [Bool.and_eq_true, decide_eq_true_eq] at h
        omega
      have hfalse : ¬ time x < aTime - buffer := by omega
      simp only [hx, if_true, hfalse, decide_false, Bool.and_false, Bool.false_eq_true, if_false,
        hnil]
    · rw [if_neg hx]
      have := ih hl.2 (off + 1)
      rw [between] at this
      split
      · simp only [this]
      · exact this

theorem betweenLoop_snd {lastTime aTime : Int} (l : List α) (off : Nat) :
    (betweenLoop time buffer lastTime aTime l off).2 =
      off + (l.takeWhile fun x => time x < aTime).length := by
  induction l generalizing off with
  | nil => rfl
  | cons x l ih =>
    rw [betweenLoop, List.takeWhile_cons]
    by_cases hx : aTime ≤ time x
    · simp only [hx, if_true, not_lt.mpr hx, decide_false, Bool.false_eq_true, if_false,
        List.length_nil, Nat.add_zero]
    · simp only [hx, if_false, not_le.mp hx, decide_true, if_true, List.length_cons]
      have := ih (off + 1)
      split
      · simp only [this]
        omega
      · rw [this]
        omega

/-! ## One turn -/

/-- After a sample of time `prev` has been emitted. -/
structure PassInv (time : α → Int) (buffer : Int) (b : List α) (prev : Int)
    (v : MergeVars α) : Prop where
  last : v.newValues.getLast?.map time = some prev
  passed : ∀ x ∈ b.take v.bOffset, time x ≤ prev + buffer

/-- What the offset has passed does not fit into a hole after `prev`. -/
theorem filter_drop_of_passed {off : Nat} {p : α → Bool} (h : ∀ x ∈ b.take off, p x = false) :
    (b.drop off).filter p = b.filter p := by
  have hnil : (b.take off).filter p = [] := by
    rw [List.filter_eq_nil_iff]
    intro x hx
    simp [h x hx]
  calc (b.drop off).filter p
      = (b.take off).filter p ++ (b.drop off).filter p := by rw [hnil, List.nil_append]
    _ = b.filter p := by rw [← List.filter_append, List.take_append_drop]

theorem PassInv.filter_between {prev aTime : Int} {v : MergeVars α}
    (hv : PassInv time buffer b prev v) :
    between time buffer prev aTime (b.drop v.bOffset) = between time buffer prev aTime b := by
  refine filter_drop_of_passed fun x hx => ?_
  have := hv.passed x hx
  have hlate : ¬ prev + buffer < time x := by omega
  simp [hlate]

theorem mergeTurn_step (hB : 0 ≤ buffer) (hb : Ascending time b)
    (hemit : ∀ y off, time (emit y off).1 = time y) {prev : Int} {v : MergeVars α}
    (hv : PassInv time buffer b prev v) {y : α} (hy : prev < time y) :
    (mergeTurn time buffer emit b v y).newValues =
        v.newValues ++ between time buffer prev (time y) b ++ [(emit y v.lastOffset).1] ∧
      (mergeTurn time buffer emit b v y).lastOffset = (emit y v.lastOffset).2 ∧
      PassInv time buffer b (time y) (mergeTurn time buffer emit b v y) := by
  obtain ⟨last, hlast, rfl⟩ := Option.map_eq_some_iff.mp hv.last
  have hdrop : Ascending time (b.drop v.bOffset) := hb.sublist (List.drop_sublist _ _)
  by_cases hgap : buffer * 2 < time y - time last
  · have hturn : mergeTurn time buffer emit b v y =
        { newValues := v.newValues ++ between time buffer (time last) (time y) b ++
            [(emit y v.lastOffset).1]
          bOffset := v.bOffset + ((b.drop v.bOffset).takeWhile fun x => time x < time y).length
          lastOffset := (emit y v.lastOffset).2 } := by
      simp only [mergeTurn, hlast, hgap, if_true, betweenLoop_fst hB hdrop, betweenLoop_snd,
        hv.filter_between]
    rw [hturn]
    refine ⟨rfl, rfl, ?_, fun x hx => ?_⟩
    · simp only [List.getLast?_append, List.getLast?_singleton, Option.some_or, Option.map_some,
        hemit]
    · rw [List.take_add, List.mem_append, take_length_takeWhile] at hx
      rcases hx with hx | hx
      · have := hv.passed x hx
        omega
      · have := List.mem_takeWhile_imp hx
        simp only [decide_eq_true_eq] at this
        omega
  · -- a hole this small holds no sample far enough from both ends
    have hnil : between time buffer (time last) (time y) b = [] := by
      rw [between, List.filter_eq_nil_iff]
      intro x _ h
      simp only [Bool.and_eq_true, decide_eq_true_eq] at h
      omega
    have hturn : mergeTurn time buffer emit b v y =
        { newValues := v.newValues ++ [(emit y v.lastOffset).1]
          bOffset := v.bOffset
          lastOffset := (emit y v.lastOffset).2 } := by
      simp only [mergeTurn, hlast, hgap, if_false, List.append_nil]
    rw [hturn, hnil, List.append_nil]
    refine ⟨rfl, rfl, ?_, fun x hx => ?_⟩
    · simp only [List.getLast?_append, List.getLast?_singleton, Option.some_or, Option.map_some,
        hemit]
    · have := hv.passed x hx
      omega

/-! ## The run -/

/-- What is emitted in the places of the samples of `a`, `lastOffset` going along. -/
def emitted (emit : α → Nat → α × Nat) : List α → Nat → List α
  | [], _ => []
  | y :: a, off => (emit y off).1 :: emitted emit a (emit y off).2

theorem emitted_mk (a : List α) (off : Nat) : emitted Prod.mk a off = a := by
  induction a generalizing off with
  | nil => rfl
  | cons y a ih => rw [emitted, ih]

theorem finishPass_run (hB : 0 ≤ buffer) (hb : Ascending time b)
    (hemit : ∀ y off, time (emit y off).1 = time y) {prev : Int} {v : MergeVars α}
    (hv : PassInv time buffer b prev v) (ha : Ascending time a) (hprev : ∀ y ∈ a, prev < time y) :
    finishPass time buffer b (a.foldl (mergeTurn time buffer emit b) v) =
      v.newValues ++ weave time buffer b prev (emitted emit a v.lastOffset) := by
  induction a generalizing prev v with
  | nil =>
    obtain ⟨last, hlast, rfl⟩ := Option.map_eq_some_iff.mp hv.last
    simp only [List.foldl_nil, finishPass, hlast, emitted, weave]
    congr 1
    refine filter_drop_of_passed fun x hx => ?_
    have := hv.passed x hx
    exact decide_eq_false (by omega)
  | cons y a ih =>
    rw [ascending_cons] at ha
    obtain ⟨hvals, hoff, hinv⟩ := mergeTurn_step hB hb hemit hv (hprev y List.mem_cons_self)
    rw [List.foldl_cons, ih hinv ha.2 ha.1, hvals, hoff, emitted, weave, hemit]
    simp only [List.append_assoc, List.singleton_append]

/-! ## The first turn -/

theorem startPass_newValues (buffer : Int) (y : α) (a : List α) (hb : Ascending time b) (hne : b ≠ []) :
    (startPass time buffer (y :: a) b).newValues = b.filter fun x => time x < time y - buffer := by
  cases b with
  | nil => exact absurd rfl hne
  | cons b0 b =>
    rw [← hb.takeWhile_lt]
    by_cases h : time b0 < time y - buffer
    · simp only [startPass, h, if_true, prefixLoop_fst]
    · simp only [startPass, h, if_false, List.takeWhile_cons, decide_false, Bool.false_eq_true]

/-- The offsets have passed nothing but points before the buffered start of `a`. -/
theorem startPass_passed (time : α → Int) (buffer : Int) (y : α) (a : List α) (hne : b ≠ []) :
    (startPass time buffer (y :: a) b).lastOffset = (startPass time buffer (y :: a) b).bOffset ∧
      ∀ x ∈ b.take (startPass time buffer (y :: a) b).bOffset, time x < time y - buffer := by
  cases b with
  | nil => exact absurd rfl hne
  | cons b0 b =>
    refine ⟨rfl, fun x hx => ?_⟩
    by_cases h : time b0 < time y - buffer
    · simp only [startPass, h, if_true] at hx
      have hle := prefixLoop_snd_le time (time y - buffer) (b0 :: b) 0 0
      rw [Nat.zero_add, Nat.zero_max] at hle
      have hmem := (List.take_sublist_take_left hle).subset hx
      rw [take_length_takeWhile] at hmem
      simpa only [decide_eq_true_eq] using List.mem_takeWhile_imp hmem
    · simp only [startPass, h, if_false, List.take_zero] at hx
      cases hx

/-- Where no point of `b` comes first, the first point of `a` is emitted as it is. -/
def emittedFrom (emit : α → Nat → α × Nat) (v : MergeVars α) : List α → List α
  | [] => []
  | y :: a =>
    if v.newValues = [] then y :: emitted emit a v.lastOffset
    else emitted emit (y :: a) v.lastOffset

theorem mergePass_eq_weaveAll (hB : 0 ≤ buffer) (hemit : ∀ y off, time (emit y off).1 = time y)
    (ha : Ascending time a) (hb : Ascending time b) (hane : a ≠ []) (hbne : b ≠ []) :
    mergePass time buffer emit a b =
      weaveAll time buffer b (emittedFrom emit (startPass time buffer a b) a) := by
  cases a with
  | nil => exact absurd rfl hane
  | cons y a =>
    rw [ascending_cons] at ha
    have hvals := startPass_newValues buffer y a hb hbne
    obtain ⟨-, hpassed⟩ := startPass_passed time buffer y a hbne
    rw [mergePass, List.foldl_cons]
    generalize startPass time buffer (y :: a) b = v at hvals hpassed ⊢
    by_cases hnil : v.newValues = []
    · have hturn : mergeTurn time buffer emit b v y = { v with newValues := [y] } := by
        simp only [mergeTurn, hnil, List.getLast?_nil]
      have hinv : PassInv time buffer b (time y) { v with newValues := [y] } := by
        refine ⟨rfl, fun x hx => ?_⟩
        have := hpassed x hx
        omega
      rw [hturn, finishPass_run hB hb hemit hinv ha.2 ha.1, emittedFrom, if_pos hnil, weaveAll,
        ← hvals, hnil]
      rfl
    · obtain ⟨front, last, hfront⟩ := List.eq_nil_or_concat v.newValues |>.resolve_left hnil
      rw [List.concat_eq_append] at hfront
      have hlast : v.newValues.getLast? = some last := by rw [hfront, List.getLast?_concat]
      have hlt : time last < time y - buffer := by
        have hmem := List.mem_of_getLast? hlast
        rw [hvals] at hmem
        exact of_decide_eq_true (List.mem_filter.mp hmem).2
      -- all of `b` that is early enough has been emitted, up to `last`
      have hupto : ∀ x ∈ b, time x < time y - buffer → time x ≤ time last := by
        intro x hx hearly
        have hasc : Ascending time v.newValues := hvals ▸ hb.filter _
        have hmem : x ∈ v.newValues := by
          rw [hvals, List.mem_filter]
          exact ⟨hx, decide_eq_true hearly⟩
        rw [hfront, ascending_append] at hasc
        rw [hfront, List.mem_append, List.mem_singleton] at hmem
        rcases hmem with hmem | rfl
        · exact (hasc.2.2 x hmem last (List.mem_singleton.mpr rfl)).le
        · exact le_rfl
      have hinv : PassInv time buffer b (time last) v := by
        refine ⟨by rw [hlast]; rfl, fun x hx => ?_⟩
        have := hupto x (List.mem_of_mem_take hx) (hpassed x hx)
        omega
      have hmid : between time buffer (time last) (time y) b = [] := by
        rw [between, List.filter_eq_nil_iff]
        intro x hx h
        simp only [Bool.and_eq_true, decide_eq_true_eq] at h
        have := hupto x hx h.2
        omega
      obtain ⟨hv', hoff, hinv'⟩ := mergeTurn_step hB hb hemit hinv (y := y) (by omega)
      rw [finishPass_run hB hb hemit hinv' ha.2 ha.1, hv', hoff, hmid, emittedFrom, if_neg hnil,
        emitted, weaveAll, hemit, ← hvals]
      simp only [List.append_nil, List.append_assoc, List.singleton_append]

/-- The pass of `mergeHistogramSamples`, and of the floats without `preferMax`. -/
theorem mergePass_eq_spacedUnion (hB : 0 ≤ buffer) (ha : Ascending time a)
    (hb : Ascending time b) (hane : a ≠ []) (hbne : b ≠ []) :
    mergePass time buffer Prod.mk a b = spacedUnion time buffer a b := by
  have hkeep : ∀ v : MergeVars α, emittedFrom Prod.mk v a = a := by
    intro v
    cases a with
    | nil => rfl
    | cons y a => simp only [emittedFrom, emitted_mk, ite_self]
  rw [mergePass_eq_weaveAll hB (fun _ _ => rfl) ha hb hane hbne, hkeep,
    weaveAll_eq_spacedUnion hB ha hb]

end

end Promhttputil
end Proxeus
