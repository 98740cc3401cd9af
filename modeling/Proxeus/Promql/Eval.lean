import Proxeus.Promql.Ast

/-!
# Promql.Eval

What the Prometheus engine computes from a tree at a time, over any type `V` of values. What it does
with its operands is the business of an `Engine`; which data the operands are made of is fixed here.
A tree reads the data times `reads`: sources that agree there give the same value (`eval_congr`).

`none` is an evaluation that ends with an error.
-/

namespace Proxeus
namespace Promql

/-- `promql.Sample`, without its time. -/
@[ext] structure VectorSample (V : Type) where
  metric : Labels
  value : V
deriving DecidableEq

/-- `promql.Vector` -/
abbrev InstantVector (V : Type) := List (VectorSample V)

/-- `parser.Value`. A matrix is kept by its times, with the end and the length of its window. The
values of a list of arguments are a chain of `values`. -/
inductive Value (V : Type) where
  | scalar (v : ℚ)
  | string (s : String)
  | vector (v : InstantVector V)
  | matrix (stop range : Int) (steps : List (Int × InstantVector V))
  | noValue
  | values (head tail : Value V)

namespace Value

def toVector {V : Type} : Value V → Option (InstantVector V)
  | vector v => some v
  | _ => none

end Value

/-- The functions and operators of the engine. A call depends on its time only if it is one of
`promql.AtModifierUnsafeFunctions`. -/
class Engine (V : Type) where
  atModifierUnsafe : String → Bool
  call : String → Value V → Int → Option (Value V)
  aggregation : ItemType → Value V → List String → Bool → InstantVector V →
    Option (InstantVector V)
  binary : String → Value V → Value V → Option (Value V)
  unary : String → Value V → Option (Value V)
  call_safe : ∀ func, atModifierUnsafe func = false → ∀ args t t', call func args t = call func args t'

/-- What selectors take their data from: a storage, by the instant vector at a time and the samples
after a time up to another one, and the data `D` that a selector has been given. -/
structure Source (D V : Type) where
  instant : Int → InstantVector V
  window : Int → Int → List (Int × InstantVector V)
  fetched : D → Int → Option (InstantVector V)
  /-- `NoStepSubqueryIntervalFn` -/
  noStepSubqueryInterval : Int → Int

/-- The results of all, or none if one of them fails. -/
def allAnswers {α : Type*} : List (Option α) → Option (List α)
  | [] => some []
  | answer :: answers => answer.bind fun a => (allAnswers answers).map (a :: ·)

/-- The time that an `@` and an offset make of the evaluation time. -/
def lookupTime (timestamp : Option Int) (offset t : Int) : Int := timestamp.getD t - offset

theorem lookupTime_of_isSome {timestamp : Option Int} (h : timestamp.isSome = true)
    (offset t t' : Int) : lookupTime timestamp offset t = lookupTime timestamp offset t' := by
  obtain ⟨ts, rfl⟩ := Option.isSome_iff_exists.mp h
  rfl

/-- The multiples of `step` after `start`, up to `stop`. -/
def gridTimes (start stop step : Int) : List Int :=
  if step ≤ 0 then []
  else
    (List.range (stop / step - start / step).toNat).map fun i : Nat => (start / step + 1 + i) * step

theorem mem_gridTimes {start stop step g : Int} (hstep : 0 < step) :
    g ∈ gridTimes start stop step ↔ step ∣ g ∧ start < g ∧ g ≤ stop := by
  rw [gridTimes, if_neg (by omega)]
  simp only [List.mem_map, List.mem_range]
  constructor
  · rintro ⟨i, hi, rfl⟩
    refine ⟨Dvd.intro_left _ rfl, ?_, ?_⟩
    · have hnext := Int.lt_ediv_add_one_mul_self start hstep
      have hle : (start / step + 1) * step ≤ (start / step + 1 + i) * step :=
        mul_le_mul_of_nonneg_right (by omega) hstep.le
      omega
    · have hle : (start / step + 1 + i) * step ≤ stop / step * step :=
        mul_le_mul_of_nonneg_right (by omega) hstep.le
      exact hle.trans (Int.ediv_mul_le _ hstep.ne')
  · rintro ⟨⟨k, rfl⟩, hlt, hle⟩
    have h1 : start / step < k := Int.ediv_lt_of_lt_mul hstep (by rwa [mul_comm])
    have h2 : k ≤ stop / step := Int.le_ediv_of_mul_le hstep (by rwa [mul_comm])
    refine ⟨(k - start / step - 1).toNat, by omega, ?_⟩
    rw [show start / step + 1 + ((k - start / step - 1).toNat : Int) = k by omega, mul_comm]

section

variable {D V : Type} [Regexp] [Engine V] (src : Source D V)

def evalVectorSelector (vs : VectorSelector D) (t : Int) : Option (InstantVector V) :=
  let time := lookupTime vs.timestamp vs.originalOffset t
  match vs.unexpandedSeriesSet with
  | some d => src.fetched d time
  | none => some ((src.instant time).filter fun s => selects vs.labelMatchers s.metric)

def evalMatrixSelector (vs : VectorSelector D) (range t : Int) : Value V :=
  let stop := lookupTime vs.timestamp vs.originalOffset t
  .matrix stop range
    ((src.window (stop - range) stop).map fun p =>
      (p.1, p.2.filter fun s => selects vs.labelMatchers s.metric))

/-- The times at which a subquery evaluates its expression. -/
def subqueryTimes (noStepSubqueryInterval : Int → Int) (range originalOffset step : Int)
    (timestamp : Option Int) (t : Int) : List Int :=
  let stop := lookupTime timestamp originalOffset t
  gridTimes (stop - range) stop (if step = 0 then noStepSubqueryInterval range else step)

def eval : Expr D → Int → Option (Value V)
  | .vectorSelector vs, t => (evalVectorSelector src vs t).map .vector
  | .matrixSelector vs range, t => some (evalMatrixSelector src vs range t)
  | .subqueryExpr expr range originalOffset _ step timestamp, t =>
    (allAnswers ((subqueryTimes src.noStepSubqueryInterval range originalOffset step timestamp t).map
      fun g => ((eval expr g).bind Value.toVector).map fun v => (g, v))).map
      (.matrix (lookupTime timestamp originalOffset t) range)
  | .call func args, t => (eval args t).bind fun args => Engine.call func args t
  | .aggregateExpr op expr param grouping without, t =>
    ((eval expr t).bind Value.toVector).bind fun v =>
      (eval param t).bind fun param =>
        (Engine.aggregation op param grouping without v).map .vector
  | .binaryExpr op lhs rhs, t =>
    (eval lhs t).bind fun lhs => (eval rhs t).bind fun rhs => Engine.binary op lhs rhs
  | .unaryExpr op expr, t => (eval expr t).bind (Engine.unary op)
  | .numberLiteral val, _ => some (.scalar val)
  | .stringLiteral val, _ => some (.string val)
  | .parenExpr expr, t => eval expr t
  | .stepInvariantExpr expr, t => eval expr t
  | .noExpr, _ => some .noValue
  | .argument head tail, t =>
    (eval head t).bind fun head => (eval tail t).map fun tail => .values head tail

end

/-! ## Data times -/

section

variable {D : Type}

/-- The data times that a tree reads at the evaluation time `t`. -/
def reads (noStepSubqueryInterval : Int → Int) : Expr D → Int → Set Int
  | .vectorSelector vs, t =>
    match vs.unexpandedSeriesSet with
    | some _ => ∅
    | none => {lookupTime vs.timestamp vs.originalOffset t}
  | .matrixSelector vs range, t =>
    let stop := lookupTime vs.timestamp vs.originalOffset t
    Set.Ioc (stop - range) stop
  | .subqueryExpr expr range originalOffset _ step timestamp, t =>
    {time | ∃ g ∈ subqueryTimes noStepSubqueryInterval range originalOffset step timestamp t,
      time ∈ reads noStepSubqueryInterval expr g}
  | .call _ args, t => reads noStepSubqueryInterval args t
  | .aggregateExpr _ expr param _ _, t =>
    reads noStepSubqueryInterval expr t ∪ reads noStepSubqueryInterval param t
  | .binaryExpr _ lhs rhs, t =>
    reads noStepSubqueryInterval lhs t ∪ reads noStepSubqueryInterval rhs t
  | .unaryExpr _ expr, t => reads noStepSubqueryInterval expr t
  | .parenExpr expr, t => reads noStepSubqueryInterval expr t
  | .stepInvariantExpr expr, t => reads noStepSubqueryInterval expr t
  | .argument head tail, t =>
    reads noStepSubqueryInterval head t ∪ reads noStepSubqueryInterval tail t
  | _, _ => ∅

variable {V : Type}

/-- Two storages that hold the same data at the times `times`. -/
structure AgreeOn (src src' : Source D V) (times : Set Int) : Prop where
  instant : ∀ t ∈ times, src.instant t = src'.instant t
  window : ∀ start stop, Set.Ioc start stop ⊆ times → src.window start stop = src'.window start stop
  fetched : src.fetched = src'.fetched
  noStep : src.noStepSubqueryInterval = src'.noStepSubqueryInterval

theorem AgreeOn.mono {src src' : Source D V} {times times' : Set Int} (h : AgreeOn src src' times)
    (hsub : times' ⊆ times) : AgreeOn src src' times' :=
  ⟨fun t ht => h.instant t (hsub ht), fun start stop hs => h.window start stop (hs.trans hsub),
    h.fetched, h.noStep⟩

/-- A tree is evaluated from the data at the times it reads. -/
theorem eval_congr [Regexp] [Engine V] {src src' : Source D V} {e : Expr D} {t : Int}
    (h : AgreeOn src src' (reads src.noStepSubqueryInterval e t)) : eval src e t = eval src' e t := by
  induction e generalizing t with
  | vectorSelector vs =>
    simp only [eval, evalVectorSelector, reads] at h ⊢
    cases hd : vs.unexpandedSeriesSet with
    | some d => simp only [h.fetched]
    | none =>
      rw [hd] at h
      simp only [h.instant _ rfl]
  | matrixSelector vs range =>
    simp only [eval, evalMatrixSelector, reads] at h ⊢
    rw [h.window _ _ (Set.Subset.refl _)]
  | subqueryExpr expr range originalOffset offset step timestamp ih =>
    simp only [eval, reads] at h ⊢
    rw [← h.noStep]
    congr 2
    refine List.map_congr_left fun g hg => ?_
    rw [ih (h.mono fun time htime => ⟨g, hg, htime⟩)]
  | call func args ih =>
    simp only [eval, reads] at h ⊢
    rw [ih h]
  | aggregateExpr op expr param grouping without ih ih' =>
    simp only [eval, reads] at h ⊢
    rw [ih (h.mono Set.subset_union_left), ih' (h.mono Set.subset_union_right)]
  | binaryExpr op lhs rhs ih ih' =>
    simp only [eval, reads] at h ⊢
    rw [ih (h.mono Set.subset_union_left), ih' (h.mono Set.subset_union_right)]
  | unaryExpr op expr ih =>
    simp only [eval, reads] at h ⊢
    rw [ih h]
  | numberLiteral val => rfl
  | stringLiteral val => rfl
  | parenExpr expr ih => exact ih h
  | stepInvariantExpr expr ih => exact ih h
  | noExpr => rfl
  | argument head tail ih ih' =>
    simp only [eval, reads] at h ⊢
    rw [ih (h.mono Set.subset_union_left), ih' (h.mono Set.subset_union_right)]

end

end Promql
end Proxeus
