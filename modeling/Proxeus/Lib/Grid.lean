import Mathlib.Algebra.Order.Ring.Int
import Mathlib.Algebra.Ring.Divisibility.Basic
import Mathlib.Order.Bounds.Basic
import Mathlib.Tactic.Ring

/-!
# Lib.Grid

The points `start + k * step` of a grid that begins at `start`. `ceilGrid` is the first point of the
phase of `start` from a time on (`isLeast_ceilGrid`), and the grid that begins there has the points of
the old one from that time on (`mem_grid_ceilGrid_iff`). The remainder of `start` is the one distance
below `step` that takes the multiples of `step` to the phase of `start` (`phase_iff`).
-/

namespace Proxeus
namespace Lib

/-- The points of the grid. -/
def grid (start step : Int) : Set Int := {t | ∃ k : Nat, t = start + k * step}

/-- The first time from `s` on with the phase of `start`. -/
def ceilGrid (start step s : Int) : Int := s + (start - s) % step

section

variable {start step s t : Int}

theorem mem_grid_iff (hstep : 0 < step) : t ∈ grid start step ↔ start ≤ t ∧ step ∣ t - start := by
  constructor
  · rintro ⟨k, rfl⟩
    have : 0 ≤ (k : Int) * step := mul_nonneg (by omega) hstep.le
    exact ⟨by omega, k, by ring⟩
  · rintro ⟨hle, k, hk⟩
    have hk0 : 0 ≤ k := by
      by_contra hneg
      have := mul_neg_of_pos_of_neg hstep (show k < 0 by omega)
      omega
    exact ⟨k.toNat, by rw [Int.toNat_of_nonneg hk0, mul_comm]; omega⟩

theorem dvd_ceilGrid_sub (start step s : Int) : step ∣ ceilGrid start step s - start := by
  have heq : ceilGrid start step s - start = -((start - s) - (start - s) % step) := by
    unfold ceilGrid
    omega
  rw [heq, dvd_neg]
  exact Int.dvd_self_sub_of_emod_eq rfl

theorem isLeast_ceilGrid (hstep : 0 < step) (start s : Int) :
    IsLeast {t | s ≤ t ∧ step ∣ t - start} (ceilGrid start step s) := by
  have hnonneg := Int.emod_nonneg (start - s) hstep.ne'
  have hlt := Int.emod_lt_of_pos (start - s) hstep
  refine ⟨⟨by unfold ceilGrid; omega, dvd_ceilGrid_sub start step s⟩, ?_⟩
  rintro t ⟨hle, hdvd⟩
  by_contra hgt
  -- A second point of the phase within one step of the first is the first.
  have hdiff : step ∣ ceilGrid start step s - t := by
    have := dvd_sub (dvd_ceilGrid_sub start step s) hdvd
    have heq : ceilGrid start step s - start - (t - start) = ceilGrid start step s - t := by ring
    rwa [heq] at this
  have := Int.le_of_dvd (by omega) hdiff
  unfold ceilGrid at this hgt
  omega

/-- A point of the phase within one step from `s` on is the first. -/
theorem ceilGrid_eq (hdvd : step ∣ t - start) (hle : s ≤ t) (hlt : t < s + step) :
    ceilGrid start step s = t := by
  have heq : (start - s) % step = (t - s) % step := by
    rw [Int.emod_eq_emod_iff_emod_sub_eq_zero, ← Int.dvd_iff_emod_eq_zero, ← dvd_neg]
    have hneg : -(start - s - (t - s)) = t - start := by ring
    rwa [hneg]
  rw [ceilGrid, heq, Int.emod_eq_of_lt (by omega) (by omega)]
  omega

/-- The grid from `s` on. -/
theorem mem_grid_ceilGrid_iff (hstep : 0 < step) (hs : start ≤ s) :
    t ∈ grid (ceilGrid start step s) step ↔ t ∈ grid start step ∧ s ≤ t := by
  obtain ⟨⟨hge, hdvd⟩, hleast⟩ := isLeast_ceilGrid hstep start s
  rw [mem_grid_iff hstep, mem_grid_iff hstep]
  constructor
  · rintro ⟨hle, hd⟩
    have hsum := dvd_add hd hdvd
    rw [sub_add_sub_cancel] at hsum
    exact ⟨⟨by omega, hsum⟩, by omega⟩
  · rintro ⟨⟨-, hd⟩, hst⟩
    have hsub := dvd_sub hd hdvd
    rw [sub_sub_sub_cancel_right] at hsub
    exact ⟨hleast ⟨hst, hd⟩, hsub⟩

/-- Among the distances below `step`, the remainder of `start` and no other takes a multiple of `step`
to the phase of `start`. -/
theorem phase_iff (ht : step ∣ t) {d : Int} (hd : 0 ≤ d) (hd' : d < step) :
    step ∣ t + d - start ↔ d = start % step := by
  have hassoc : t + d - start = t + (d - start) := by ring
  rw [hassoc, dvd_add_right ht, Int.dvd_iff_emod_eq_zero,
    ← Int.emod_eq_emod_iff_emod_sub_eq_zero, Int.emod_eq_of_lt hd hd']

end

end Lib
end Proxeus
