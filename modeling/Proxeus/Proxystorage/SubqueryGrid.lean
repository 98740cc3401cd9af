import Proxeus.Proxystorage.Lookback

/-!
# Proxystorage.SubqueryGrid

The times of the range query that a subquery is replaced with. The engine evaluates a subquery at the
multiples of its step from the epoch on; `replaceSubquery` rounds with `time.Time.Truncate`, which
counts from the year 1. The two grids are the same exactly if the step divides the distance between
their origins (`replaceSubquery_aligned_iff`).
-/

namespace Proxeus
namespace Proxystorage

open Lib Promclient Promql

/-- The milliseconds from the year 1 to the epoch. -/
def yearOneToEpoch : Int := 62135596800000

/-! ## Rounding -/

/-- The first time from `t` on that `Truncate` leaves as it is. -/
def roundUp (t d : Int) : Int := if truncate t d < t then truncate t d + d else truncate t d

theorem truncate_spec {d : Int} (hd : 0 < d) (t : Int) :
    truncate t d ≤ t ∧ t < truncate t d + d ∧ d ∣ truncate t d + yearOneToEpoch := by
  have hnonneg := Int.emod_nonneg (t + 62135596800000) hd.ne'
  have hlt := Int.emod_lt_of_pos (t + 62135596800000) hd
  unfold truncate
  rw [if_neg (by omega)]
  refine ⟨by omega, by omega, ?_⟩
  unfold yearOneToEpoch
  have heq : t - (t + 62135596800000) % d + 62135596800000 =
      t + 62135596800000 - (t + 62135596800000) % d := by omega
  rw [heq]
  exact Int.dvd_self_sub_of_emod_eq rfl

theorem roundUp_spec {d : Int} (hd : 0 < d) (t : Int) :
    t ≤ roundUp t d ∧ roundUp t d < t + d ∧ d ∣ roundUp t d + yearOneToEpoch := by
  obtain ⟨hle, hlt, hdvd⟩ := truncate_spec hd t
  unfold roundUp
  split
  · refine ⟨by omega, by omega, ?_⟩
    have heq : truncate t d + d + yearOneToEpoch = truncate t d + yearOneToEpoch + d := by omega
    rw [heq]
    exact Int.dvd_add hdvd (Int.dvd_refl d)
  · exact ⟨by omega, by omega, hdvd⟩

/-- Rounding gives a multiple, counted from the epoch, if and only if the origins are a multiple
apart. -/
theorem dvd_roundUp_iff {d : Int} (hd : 0 < d) (t : Int) :
    d ∣ roundUp t d ↔ d ∣ yearOneToEpoch := by
  obtain ⟨-, -, hdvd⟩ := roundUp_spec hd t
  constructor
  · intro h
    exact (Int.dvd_add_right h).mp hdvd
  · intro h
    exact (Int.dvd_add_left h).mp hdvd

theorem mem_stepTimes_iff {start stop step t : Int} (hstep : 0 < step) :
    t ∈ stepTimes start stop step ↔ start ≤ t ∧ t ≤ stop ∧ step ∣ t - start := by
  unfold stepTimes
  split
  · rename_i hno
    constructor
    · intro h
      cases h
    · rintro ⟨hle, hle', -⟩
      omega
  · rename_i hno
    rw [List.mem_map]
    have hnonneg : 0 ≤ (stop - start) / step := Int.ediv_nonneg (by omega) hstep.le
    constructor
    · rintro ⟨i, hi, rfl⟩
      have hi' : (i : Int) ≤ (stop - start) / step := by
        have := List.mem_range.mp hi
        omega
      have hmul : (i : Int) * step ≤ stop - start :=
        (mul_le_mul_of_nonneg_right hi' hstep.le).trans (Int.ediv_mul_le _ hstep.ne')
      have hpos : 0 ≤ (i : Int) * step := mul_nonneg (by omega) hstep.le
      exact ⟨by omega, by omega, by simp⟩
    · rintro ⟨hle, hle', k, hk⟩
      have hk0 : 0 ≤ k := by
        by_contra hneg
        have := mul_neg_of_pos_of_neg hstep (show k < 0 by omega)
        omega
      have hkle : k ≤ (stop - start) / step :=
        Int.le_ediv_of_mul_le hstep (by rw [mul_comm]; omega)
      refine ⟨k.toNat, List.mem_range.mpr (by omega), ?_⟩
      rw [Int.toNat_of_nonneg hk0, mul_comm]
      omega

/-! ## The grid of the engine -/

/-- What the statement of a subquery has to be for the grid of the engine after `lo`, up to `hi`: it
starts at the first multiple of its step that is not before `lo`, all its times are multiples, and
it has every one that the engine evaluates the subquery at. -/
structure Aligned (lo hi : Int) (st : EvalStmt) : Prop where
  first : IsLeast {g | st.interval ∣ g ∧ lo ≤ g} st.start
  onGrid : ∀ t ∈ stepTimes st.start st.stop st.interval, st.interval ∣ t
  covers : ∀ g ∈ gridTimes lo hi st.interval, g ∈ stepTimes st.start st.stop st.interval

section

variable {V : Type}

/-- The beginning of the evaluation, which an `@` stands for. -/
def evalStart (s : EvalStmt) (timestamp : Option Int) : Int := timestamp.getD s.start

def evalStop (s : EvalStmt) (timestamp : Option Int) : Int := timestamp.getD s.stop

theorem subEvalStmt_eq (p : ProxyStorage V) (s : EvalStmt) (range offset step : Int)
    (timestamp : Option Int) :
    subEvalStmt p s range offset step timestamp =
      { start := roundUp (evalStart s timestamp - offset - range)
          (if step = 0 then p.noStepSubqueryIntervalFn range else step)
        stop := evalStop s timestamp - offset
        interval := if step = 0 then p.noStepSubqueryIntervalFn range else step } := by
  cases timestamp with
  | none => rfl
  | some ts => rfl

theorem aligned_iff (p : ProxyStorage V) (s : EvalStmt) (range offset step : Int)
    (timestamp : Option Int)
    (hpos : 0 < if step = 0 then p.noStepSubqueryIntervalFn range else step) :
    Aligned (evalStart s timestamp - offset - range) (evalStop s timestamp - offset)
        (subEvalStmt p s range offset step timestamp) ↔
      (if step = 0 then p.noStepSubqueryIntervalFn range else step) ∣ yearOneToEpoch := by
  rw [subEvalStmt_eq]
  generalize (if step = 0 then p.noStepSubqueryIntervalFn range else step) = interval at hpos ⊢
  generalize evalStart s timestamp - offset - range = lo
  generalize evalStop s timestamp - offset = hi
  obtain ⟨hle, hlt, -⟩ := roundUp_spec hpos lo
  rw [← dvd_roundUp_iff hpos lo]
  constructor
  · intro h
    exact h.first.1.1
  · intro hdvd
    have hleast : ∀ g, interval ∣ g → lo ≤ g → roundUp lo interval ≤ g := by
      intro g hg hlo
      by_contra hbefore
      have hle' := Int.le_of_dvd (show 0 < roundUp lo interval - g by omega) (Int.dvd_sub hdvd hg)
      omega
    refine ⟨⟨⟨hdvd, hle⟩, fun g hg => hleast g hg.1 hg.2⟩, ?_, ?_⟩
    · intro t ht
      have hstep := ((mem_stepTimes_iff hpos).mp ht).2.2
      have hsum := Int.dvd_add hstep hdvd
      rwa [Int.sub_add_cancel] at hsum
    · intro g hg
      obtain ⟨hgrid, hlo, hhi⟩ := (mem_gridTimes hpos).mp hg
      exact (mem_stepTimes_iff hpos).mpr
        ⟨hleast g hgrid hlo.le, hhi, Int.dvd_sub hgrid hdvd⟩

/-- **A subquery that is replaced** is replaced with the result of one range query, and that query is
on the grid of the engine if and only if the step divides the milliseconds from the year 1 to the
epoch. -/
theorem replaceSubquery_aligned_iff [Regexp] [Engine V] (p : ProxyStorage V)
    (inspect : EvalStmt → Expr (Response V) → Except Failure (Expr (Response V) × Bool))
    (s : EvalStmt) (path : List (Expr (Response V))) (expr : Expr (Response V))
    (range originalOffset offset step : Int) (timestamp : Option Int) (visit : Visit V)
    (hvisit : nodeReplacer p inspect s path
      (.subqueryExpr expr range originalOffset offset step timestamp) = .ok visit)
    (replacement : Expr (Response V)) (hpushed : visit.outcome = .pushed replacement)
    (hpos : 0 < if step = 0 then p.noStepSubqueryIntervalFn range else step) :
    ∃ st newN, inspect st expr = .ok (newN, true) ∧
      replacement = .subqueryExpr newN range originalOffset offset step timestamp ∧
      st = subEvalStmt p s range offset step timestamp ∧
      (Aligned (evalStart s timestamp - offset - range) (evalStop s timestamp - offset) st ↔
        (if step = 0 then p.noStepSubqueryIntervalFn range else step) ∣ yearOneToEpoch) := by
  obtain ⟨prepared, -, hvisit⟩ := bind_eq_ok hvisit
  cases prepared with
  | inl reason =>
    cases hvisit
    cases hpushed
  | inr r =>
    obtain ⟨visit', hnode, rfl⟩ := map_eq_ok hvisit
    obtain ⟨⟨newN, pushed⟩, hinspect, rfl⟩ := map_eq_ok hnode
    cases pushed with
    | false => cases hpushed
    | true =>
      cases hpushed
      exact ⟨_, newN, hinspect, rfl, rfl, aligned_iff p s range offset step timestamp hpos⟩

end

section

attribute [local instance] sortingLibraries

/-- `foo[5m:1m]`, of which the selector is replaced. -/
theorem replaceSubquery_aligned_iff_minute :
    ∃ visit replacement st,
      nodeReplacer (answering (seriesAt [0]))
        (fun s expr => walk (answering (seriesAt [0])) 2 s [] expr)
        ⟨1700000000000, 1700000600000, 60000⟩ []
        (.subqueryExpr (.vectorSelector foo) 300000 0 0 60000 none) = .ok visit ∧
      visit.outcome = .pushed replacement ∧ Aligned 1699999700000 1700000600000 st := by
  obtain ⟨visit, replacement, hvisit, hpushed⟩ : ∃ visit replacement,
      nodeReplacer (answering (seriesAt [0]))
        (fun s expr => walk (answering (seriesAt [0])) 2 s [] expr)
        ⟨1700000000000, 1700000600000, 60000⟩ []
        (.subqueryExpr (.vectorSelector foo) 300000 0 0 60000 none) = .ok visit ∧
      visit.outcome = .pushed replacement := ⟨_, _, rfl, rfl⟩
  obtain ⟨st, newN, -, -, -, hiff⟩ := replaceSubquery_aligned_iff _ _ _ _ _ _ _ _ _ _ visit hvisit
    replacement hpushed (by decide)
  exact ⟨visit, replacement, st, hvisit, hpushed, hiff.mpr (by decide)⟩

/-- `foo[5m:7s]`: the selector is replaced with a query that is on no multiple of seven seconds. -/
theorem replaceSubquery_off_grid :
    ∃ visit replacement newN,
      nodeReplacer (answering (seriesAt [0]))
        (fun s expr => walk (answering (seriesAt [0])) 2 s [] expr)
        ⟨1700000000000, 1700000600000, 60000⟩ []
        (.subqueryExpr (.vectorSelector foo) 300000 0 0 7000 none) = .ok visit ∧
      visit.outcome = .pushed replacement ∧
      walk (answering (seriesAt [0])) 2
        (subEvalStmt (answering (seriesAt [0])) ⟨1700000000000, 1700000600000, 60000⟩ 300000 0 7000
          none) [] (.vectorSelector foo) = .ok (newN, true) ∧
      ¬ Aligned 1699999700000 1700000600000
        (subEvalStmt (answering (seriesAt [0])) ⟨1700000000000, 1700000600000, 60000⟩ 300000 0 7000
          none) := by
  refine ⟨_, _, _, rfl, rfl, rfl, ?_⟩
  intro h
  have hdvd := (aligned_iff (answering (seriesAt [0])) ⟨1700000000000, 1700000600000, 60000⟩ 300000
    0 7000 none (by decide)).mp h
  exact absurd hdvd (by decide)

end

end Proxystorage
end Proxeus
