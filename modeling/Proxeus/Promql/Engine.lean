import Proxeus.Lib.Mean
import Proxeus.Lib.TopK
import Proxeus.Promql.Eval

/-!
# Promql.Engine

The engine over exact rationals, as far as the aggregation pushdown deals in it: the aggregations
that the proxy splits, `label_replace` and `label_join`, and the division of two vectors. The
backends and the proxy run the same engine. A division by zero does not occur: divisors are counts.
-/

namespace Proxeus
namespace Promql

open Lib

/-- The libraries that the engine is built on, as far as the results of a query depend on them: the
format of a value as a label, the choice `topk` and `bottomk` make, and the rest of the engine. -/
class Libraries extends Regexp where
  /-- `strconv.FormatFloat(f, 'f', -1, 64)` -/
  formatFloat : ℚ → String
  topk : Nat → InstantVector ℚ → InstantVector ℚ
  bottomk : Nat → InstantVector ℚ → InstantVector ℚ
  topk_isTop : ∀ k v, IsTop VectorSample.value k v (topk k v)
  bottomk_isTop : ∀ k v, IsTop (fun s => OrderDual.toDual s.value) k v (bottomk k v)
  rest : Engine ℚ

/-! ## Aggregation -/

/-- `generateGroupingLabels` -/
def groupingLabels (grouping : List String) (without : Bool) (metric : Labels) : Labels :=
  if without then metric.del (metricNameLabel :: grouping) else metric.keep grouping

/-- The names that `count_values` groups by. -/
def countValuesGrouping (grouping : List String) (without : Bool) (valueLabel : String) :
    List String :=
  if without then grouping else grouping ++ [valueLabel]

/-- The vector of an aggregation's results. -/
def ofResults (results : List (Labels × ℚ)) : InstantVector ℚ := results.map fun p => ⟨p.1, p.2⟩

def aggregateBy (key : VectorSample ℚ → Labels) (f : List ℚ → ℚ) (v : InstantVector ℚ) :
    InstantVector ℚ :=
  ofResults (aggregate key VectorSample.value f v)

def minOf (vals : List ℚ) : ℚ := vals.min?.getD 0

def maxOf (vals : List ℚ) : ℚ := vals.max?.getD 0

def countOf (vals : List ℚ) : ℚ := vals.length

section

variable [Libraries]

def countValuesKey (grouping : List String) (without : Bool) (valueLabel : String)
    (s : VectorSample ℚ) : Labels :=
  groupingLabels (countValuesGrouping grouping without valueLabel) without
    (s.metric.set valueLabel (Libraries.formatFloat s.value))

def aggregation (op : ItemType) (param : Value ℚ) (grouping : List String) (without : Bool)
    (v : InstantVector ℚ) : Option (InstantVector ℚ) :=
  let key (s : VectorSample ℚ) := groupingLabels grouping without s.metric
  match op, param with
  | .sum, _ => some (aggregateBy key List.sum v)
  | .avg, _ => some (aggregateBy key mean v)
  | .count, _ => some (aggregateBy key countOf v)
  | .min, _ => some (aggregateBy key minOf v)
  | .max, _ => some (aggregateBy key maxOf v)
  | .group, _ => some (aggregateBy key (fun _ => 1) v)
  | .countValues, .string valueLabel =>
    some (aggregateBy (countValuesKey grouping without valueLabel) countOf v)
  | .topk, .scalar k => some (selectBy key (Libraries.topk ⌊k⌋.toNat) v)
  | .bottomk, .scalar k => some (selectBy key (Libraries.bottomk ⌊k⌋.toNat) v)
  | op, param => Libraries.rest.aggregation op param grouping without v

/-! ## Label functions -/

/-- Changing the labels of the series of a vector, which fails if it leaves two series with the same
labels. -/
def relabelVector (f : Labels → Labels) (v : InstantVector ℚ) : Option (InstantVector ℚ) :=
  let relabelled : InstantVector ℚ := v.map fun s => { s with metric := f s.metric }
  if (relabelled.map VectorSample.metric).Nodup then some relabelled else none

/-- `label_replace` on the labels of a series. -/
def labelReplace (dst replacement src regex : String) (metric : Labels) : Labels :=
  match Regexp.expand regex replacement (metric.get src) with
  | some res => metric.set dst res
  | none => metric

/-- `label_join` on the labels of a series. -/
def labelJoin (dst separator : String) (srcs : List String) (metric : Labels) : Labels :=
  metric.set dst (separator.intercalate (srcs.map metric.get))

/-- String arguments. -/
def strings : Value ℚ → Option (List String)
  | .noValue => some []
  | .values (.string s) tail => (strings tail).map (s :: ·)
  | _ => none

def callFunction (func : String) (args : Value ℚ) (t : Int) : Option (Value ℚ) :=
  if func = "label_replace" then
    match args with
    | .values (.vector v) (.values (.string dst) (.values (.string replacement)
        (.values (.string src) (.values (.string regex) .noValue)))) =>
      (relabelVector (labelReplace dst replacement src regex) v).map .vector
    | _ => none
  else if func = "label_join" then
    match args with
    | .values (.vector v) (.values (.string dst) (.values (.string separator) srcs)) =>
      (strings srcs).bind fun srcs =>
        (relabelVector (labelJoin dst separator srcs) v).map .vector
    | _ => none
  else Libraries.rest.call func args t

/-! ## Division -/

/-- What a sample is matched by, and what its result is labelled with. -/
def matchSignature (s : VectorSample ℚ) : Labels := s.metric.del [metricNameLabel]

/-- `VectorBinop` for a division that matches one to one. -/
def vectorDiv (lhs rhs : InstantVector ℚ) : Option (InstantVector ℚ) :=
  let matched := lhs.filter fun l => matchSignature l ∈ rhs.map matchSignature
  if lhs = [] ∨ rhs = [] then some []
  else if ¬ (rhs.map matchSignature).Nodup then none
  else if ¬ (matched.map matchSignature).Nodup then none
  else
    some (lhs.filterMap fun l =>
      (rhs.find? fun r => matchSignature r = matchSignature l).map fun r =>
        ⟨matchSignature l, l.value / r.value⟩)

def binaryOperator (op : String) (lhs rhs : Value ℚ) : Option (Value ℚ) :=
  match lhs, rhs with
  | .vector l, .vector r =>
    if op = "/" then (vectorDiv l r).map .vector else Libraries.rest.binary op (.vector l) (.vector r)
  | lhs, rhs => Libraries.rest.binary op lhs rhs

instance rationalEngine : Engine ℚ where
  atModifierUnsafe := Libraries.rest.atModifierUnsafe
  call := callFunction
  aggregation := aggregation
  binary := binaryOperator
  unary := Libraries.rest.unary
  call_safe func hsafe args t t' := by
    unfold callFunction
    split
    · rfl
    · split
      · rfl
      · exact Libraries.rest.call_safe func hsafe args t t'

end

end Promql
end Proxeus
