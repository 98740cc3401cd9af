import Proxeus.Proxystorage.Lookback

/-!
# Proxystorage.StaleNaNGaps

A response of a call after `fillStaleNaNGaps`: one sample at every step, so that no lookback can show
a value at a step that has none. The fill has a guard: a series that lacks more than ten thousand
steps is left as it is.
-/

namespace Proxeus
namespace Proxystorage

open Lib Promclient Promql

/-! ## The steps -/

theorem length_stepTimes {start stop step : Int} (hstep : 0 < step) (hle : start ≤ stop) :
    ((stepTimes start stop step).length : Int) = (stop - start).tdiv step + 1 := by
  have hnonneg : 0 ≤ (stop - start) / step := Int.ediv_nonneg (by omega) hstep.le
  rw [stepTimes, if_neg (by omega), List.length_map, List.length_range, Nat.cast_add,
    Int.toNat_of_nonneg hnonneg, Int.tdiv_eq_ediv_of_nonneg (by omega)]
  rfl

theorem ascending_stepTimes (start stop step : Int) : Ascending id (stepTimes start stop step) := by
  unfold stepTimes
  split
  · exact ascending_nil
  · rename_i hno
    unfold Ascending
    rw [List.pairwise_map]
    refine List.pairwise_lt_range.imp ?_
    intro i j hij
    have hstep : 0 < step := by omega
    have hcast : (i : Int) < j := by exact_mod_cast hij
    have hmul := mul_lt_mul_of_pos_right hcast hstep
    simp only [id_eq]
    omega

/-- The steps at which a series has no sample. -/
def missingSteps {V : Type} (start stop step : Int) (σ : ResponseSeries V) : List Int :=
  (stepTimes start stop step).filter fun t => t ∉ σ.samples.map Prod.fst

section

variable {V : Type} {start stop step : Int} {σ : ResponseSeries V}

/-- On the grid, the steps are those with a sample and those without. -/
theorem length_missingSteps (hasc : σ.samples.Pairwise fun p q => p.1 < q.1)
    (hgrid : ∀ p ∈ σ.samples, p.1 ∈ stepTimes start stop step) :
    (missingSteps start stop step σ).length + σ.samples.length =
      (stepTimes start stop step).length := by
  have hperm : List.Perm ((stepTimes start stop step).filter fun t => t ∈ σ.samples.map Prod.fst)
      (σ.samples.map Prod.fst) := by
    rw [List.perm_ext_iff_of_nodup ((nodup_stepTimes start stop step).filter _)
      (Ascending.nodup_keys hasc)]
    intro t
    rw [List.mem_filter, decide_eq_true_eq]
    refine ⟨fun h => h.2, fun h => ⟨?_, h⟩⟩
    obtain ⟨p, hp, rfl⟩ := List.mem_map.mp h
    exact hgrid p hp
  have hlen := hperm.length_eq
  rw [List.length_map] at hlen
  have hmissing : missingSteps start stop step σ =
      (stepTimes start stop step).filter fun t => !decide (t ∈ σ.samples.map Prod.fst) := by
    unfold missingSteps
    exact List.filter_congr fun t _ => by simp
  have hsplit := List.length_eq_length_filter_add (l := stepTimes start stop step)
    fun t => decide (t ∈ σ.samples.map Prod.fst)
  rw [hmissing]
  omega

/-! ## A filled series -/

/-- The series with a marker at every step it lacks. -/
def filledSeries (start stop step : Int) (σ : ResponseSeries V) : ResponseSeries V :=
  ⟨σ.labels, sortBy Prod.fst (σ.samples ++
    (missingSteps start stop step σ).map fun t => (t, Point.staleNaN))⟩

/-- The guard lets a series pass that lacks at most ten thousand steps. -/
theorem guard_iff (hstep : 0 < step) (hle : start ≤ stop)
    (hasc : σ.samples.Pairwise fun p q => p.1 < q.1)
    (hgrid : ∀ p ∈ σ.samples, p.1 ∈ stepTimes start stop step) :
    (0 < (stop - start).tdiv step + 1 ∧ (stop - start).tdiv step + 1 ≤
        ((σ.samples.map Prod.fst).dedup.length : Int) + 10000) ↔
      (missingSteps start stop step σ).length ≤ 10000 := by
  have hdedup : (σ.samples.map Prod.fst).dedup = σ.samples.map Prod.fst :=
    (Ascending.nodup_keys hasc).dedup
  have hlen := length_stepTimes hstep hle
  have hsum := length_missingSteps hasc hgrid
  have hnonneg := Int.tdiv_nonneg (show 0 ≤ stop - start by omega) hstep.le
  rw [hdedup, List.length_map]
  omega

theorem mem_filledSeries {q : Int × Point V} :
    q ∈ (filledSeries start stop step σ).samples ↔
      q ∈ σ.samples ∨ ∃ t ∈ missingSteps start stop step σ, q = (t, Point.staleNaN) := by
  unfold filledSeries
  rw [mem_sortBy, List.mem_append, List.mem_map]
  simp only [eq_comm]

theorem filledSeries_ascending (hasc : σ.samples.Pairwise fun p q => p.1 < q.1) :
    (filledSeries start stop step σ).samples.Pairwise fun p q => p.1 < q.1 :=
  ascending_filled hasc (nodup_stepTimes start stop step)

theorem mem_missingSteps {t : Int} :
    t ∈ missingSteps start stop step σ ↔
      t ∈ stepTimes start stop step ∧ ∀ p ∈ σ.samples, p.1 ≠ t := by
  unfold missingSteps
  rw [List.mem_filter, decide_eq_true_eq, List.mem_map]
  refine and_congr_right fun _ => ⟨fun h p hp hpt => h ⟨p, hp, hpt⟩, ?_⟩
  rintro h ⟨p, hp, hpt⟩
  exact h p hp hpt

/-- There is one sample at every step, in the order of the steps, and no other. -/
theorem times_filledSeries (hasc : σ.samples.Pairwise fun p q => p.1 < q.1)
    (hgrid : ∀ p ∈ σ.samples, p.1 ∈ stepTimes start stop step) :
    (filledSeries start stop step σ).samples.map Prod.fst = stepTimes start stop step := by
  have htimes : Ascending id ((filledSeries start stop step σ).samples.map Prod.fst) :=
    ascending_map.mpr (filledSeries_ascending hasc)
  refine htimes.ext (ascending_stepTimes start stop step) fun t => ?_
  rw [List.mem_map]
  constructor
  · rintro ⟨q, hq, rfl⟩
    rcases mem_filledSeries.mp hq with hq | ⟨t, ht, rfl⟩
    · exact hgrid q hq
    · exact (mem_missingSteps.mp ht).1
  · intro ht
    by_cases hown : ∃ p ∈ σ.samples, p.1 = t
    · obtain ⟨p, hp, rfl⟩ := hown
      exact ⟨p, mem_filledSeries.mpr (.inl hp), rfl⟩
    · have hmissing : t ∈ missingSteps start stop step σ :=
        mem_missingSteps.mpr ⟨ht, fun p hp hpt => hown ⟨p, hp, hpt⟩⟩
      exact ⟨(t, Point.staleNaN), mem_filledSeries.mpr (.inr ⟨t, hmissing, rfl⟩), rfl⟩

/-- At a step the filled series is seen as the series is, whatever the lookback. -/
theorem lookup_filledSeries (hasc : σ.samples.Pairwise fun p q => p.1 < q.1) {lookback t : Int}
    (hlookback : 0 < lookback) (ht : t ∈ stepTimes start stop step) :
    (filledSeries start stop step σ).lookup lookback t = σ.sampleAt t := by
  have hfilled : (filledSeries start stop step σ).samples.Pairwise fun p q => p.1 < q.1 :=
    filledSeries_ascending hasc
  rw [ResponseSeries.lookup, ResponseSeries.sampleAt]
  cases hf : σ.samples.find? fun p => p.1 = t with
  | some p =>
    have htime : p.1 = t := by simpa using List.find?_some hf
    have hmem : p ∈ (filledSeries start stop step σ).samples :=
      mem_filledSeries.mpr (.inl (List.mem_of_find?_eq_some hf))
    rw [latest_of_mem hlookback hfilled hmem htime]
  | none =>
    have hmissing : t ∈ missingSteps start stop step σ := by
      refine mem_missingSteps.mpr ⟨ht, fun p hp hpt => ?_⟩
      exact List.find?_eq_none.mp hf p hp (decide_eq_true hpt)
    have hmem : (t, Point.staleNaN) ∈ (filledSeries start stop step σ).samples :=
      mem_filledSeries.mpr (.inr ⟨t, hmissing, rfl⟩)
    rw [latest_of_mem hlookback hfilled hmem rfl]
    rfl

/-! ## A filled response -/

/-- A series on the grid is filled, or left as it is. -/
theorem fillStaleNaNGaps_getElem? {ss : Response V} {i : Nat} (hstep : 0 < step)
    (hle : start ≤ stop) (hσ : ss.series[i]? = some σ)
    (hasc : σ.samples.Pairwise fun p q => p.1 < q.1)
    (hgrid : ∀ p ∈ σ.samples, p.1 ∈ stepTimes start stop step) :
    (fillStaleNaNGaps ss start stop step).series[i]? =
      some (if (missingSteps start stop step σ).length ≤ 10000 then
        filledSeries start stop step σ else σ) := by
  unfold fillStaleNaNGaps
  rw [if_neg (by omega), List.getElem?_map, hσ, Option.map_some]
  simp only [guard_iff hstep hle hasc hgrid]
  split
  · rfl
  · rfl

/-- **Every series that lacks at most ten thousand steps** has exactly one sample at every step after
the fill, in the order of time: its own where it has one, a marker elsewhere. The engine sees at each
step what was returned for it, whatever its lookback. A series that lacks more steps is as before. -/
theorem fillStaleNaNGaps_one_per_step (ss : Response V) (start stop step : Int) (hstep : 0 < step)
    (hle : start ≤ stop) (i : Nat) (σ : ResponseSeries V) (hσ : ss.series[i]? = some σ)
    (hasc : σ.samples.Pairwise fun p q => p.1 < q.1)
    (hgrid : ∀ p ∈ σ.samples, p.1 ∈ stepTimes start stop step) :
    ∃ filled, (fillStaleNaNGaps ss start stop step).series[i]? = some filled ∧
      filled.labels = σ.labels ∧
      ((missingSteps start stop step σ).length ≤ 10000 →
        filled.samples.map Prod.fst = stepTimes start stop step ∧
        (∀ p ∈ σ.samples, p ∈ filled.samples) ∧
        (∀ t ∈ stepTimes start stop step, (∀ p ∈ σ.samples, p.1 ≠ t) →
          (t, Point.staleNaN) ∈ filled.samples) ∧
        filled.samples.Pairwise (fun p q => p.1 < q.1) ∧
        ∀ lookback, 0 < lookback → ∀ t ∈ stepTimes start stop step,
          filled.lookup lookback t = σ.sampleAt t) ∧
      (10000 < (missingSteps start stop step σ).length → filled = σ) := by
  refine ⟨_, fillStaleNaNGaps_getElem? hstep hle hσ hasc hgrid, ?_, ?_, ?_⟩
  · split
    · rfl
    · rfl
  · intro hfew
    rw [if_pos hfew]
    refine ⟨times_filledSeries hasc hgrid, fun p hp => mem_filledSeries.mpr (.inl hp), ?_,
      filledSeries_ascending hasc, fun lookback hlookback t ht =>
        lookup_filledSeries hasc hlookback ht⟩
    intro t ht hown
    exact mem_filledSeries.mpr (.inr ⟨t, mem_missingSteps.mpr ⟨ht, hown⟩, rfl⟩)
  · intro hmany
    rw [if_neg (by omega)]

end

/-- A sample at the first of three steps. -/
theorem fillStaleNaNGaps_one_per_step_first :
    ∃ filled, (fillStaleNaNGaps (seriesAt [0]) 0 120000 60000).series[0]? = some filled ∧
      filled.lookup 300000 60000 = none := by
  obtain ⟨filled, hget, -, hfew, -⟩ := fillStaleNaNGaps_one_per_step (seriesAt [0]) 0 120000 60000
    (by decide) (by decide) 0 ⟨Labels.empty, [(0, .float 1)]⟩ rfl (by decide) (by decide)
  refine ⟨filled, hget, ?_⟩
  rw [(hfew (by decide)).2.2.2.2 300000 (by decide) 60000 (by decide)]
  rfl

/-- Eleven thousand steps, of which a series has the first: the fill is skipped, and the first sample
is seen at the second step, too. -/
theorem fillStaleNaNGaps_eleven_thousand_steps :
    (stepTimes 0 10999000 1000).length = 11000 ∧
      fillStaleNaNGaps (seriesAt [0]) 0 10999000 1000 = seriesAt [0] ∧
      ∃ σ ∈ (fillStaleNaNGaps (seriesAt [0]) 0 10999000 1000).series,
        σ.samples.map Prod.fst ≠ stepTimes 0 10999000 1000 ∧
        1000 ∈ stepTimes 0 10999000 1000 ∧ σ.sampleAt 1000 = none ∧
        σ.lookup 300000 1000 = some 1 := by
  have hlen : (stepTimes 0 10999000 1000).length = 11000 := by
    have h := length_stepTimes (show (0 : Int) < 1000 by decide) (show (0 : Int) ≤ 10999000 by decide)
    rw [show ((10999000 - 0 : Int).tdiv 1000 + 1 : Int) = 11000 by decide] at h
    omega
  have hskip : fillStaleNaNGaps (seriesAt [0]) 0 10999000 1000 = seriesAt [0] := by
    unfold fillStaleNaNGaps
    rw [if_neg (by decide)]
    simp [seriesAt]
  refine ⟨hlen, hskip, ?_⟩
  rw [hskip]
  refine ⟨_, List.mem_cons_self, ?_, ?_, by decide, by decide⟩
  · intro h
    have := congrArg List.length h
    rw [hlen] at this
    simp at this
  · unfold stepTimes
    rw [if_neg (by decide)]
    exact List.mem_map.mpr ⟨1, List.mem_range.mpr (by omega), by decide⟩

end Proxystorage
end Proxeus
