import Proxeus.Promclient.MergeSeriesSetSpec
import Proxeus.Promql.Engine
import Proxeus.Promql.Printer

/-!
# Promclient.InstantQuery

The clients between the engine and the backends, for requests at one evaluation time: `label.go`,
`filtermatcher.go`, and the default merge of `multi_api.go`.

Of series with the same labels that have a sample at one time only, the merge of sample streams keeps
the first, so at one evaluation time the merge of series sets is a choice of series.
-/

namespace Proxeus
namespace Promclient

open Lib Promhttputil Promql

/-! ## Merging -/

/-- The places of the elements of some lists: the list and the index in it. -/
def places {α : Type*} : List (List α) → List (Nat × Nat)
  | [] => []
  | set :: sets =>
    (List.range set.length).map (fun j => (0, j)) ++ (places sets).map fun p => (p.1 + 1, p.2)

def elementAt {α : Type*} (sets : List (List α)) (p : Nat × Nat) : Option α :=
  sets[p.1]?.bind fun set => set[p.2]?

/-- `storage.NewMergeSeriesSet`, which merges the series of several sets by their labels. It takes
the labels of the sets, and gives the places of the series that are merged into one, in the order
in which the merge function is handed them. -/
class MergeSeriesSet where
  newMergeSeriesSet : List (List Labels) → List (List (Nat × Nat))
  perm_places : ∀ sets, (newMergeSeriesSet sets).flatten.Perm (places sets)
  ne_nil : ∀ sets, ∀ merged ∈ newMergeSeriesSet sets, merged ≠ []
  same_labels : ∀ sets, ∀ merged ∈ newMergeSeriesSet sets, ∀ p ∈ merged, ∀ q ∈ merged,
    elementAt sets p = elementAt sets q
  distinct_labels : ∀ sets, (∀ set ∈ sets, set.Nodup) →
    (newMergeSeriesSet sets).Pairwise fun merged merged' => ∀ p ∈ merged, ∀ q ∈ merged',
      elementAt sets p ≠ elementAt sets q

/-- `MergeSeriesSets` at one evaluation time. -/
def mergeSeriesSets [MergeSeriesSet] {α : Type*} (labels : α → Labels) :
    List (List α) → List α
  | [] => []
  | [set] => set
  | sets =>
    (MergeSeriesSet.newMergeSeriesSet (sets.map (List.map labels))).filterMap fun merged =>
      merged.head?.bind (elementAt sets)

/-! ## Clients -/

/-- `promclient.API`, by its method `Query`. -/
structure QueryAPI (D : Type) where
  query : Expr D → Int → Option (InstantVector ℚ)

/-- The stand-in `__name__=~".+"`, whose regular expression is not compiled. -/
def anyMetricName : Matcher := ⟨.matchRegexp, metricNameLabel, ".+", false⟩

section

variable [Regexp]

/-- The loop of `FilterMatchers`. -/
def filterMatchersLoop (ls : LabelSet) : List Matcher → Option (List Matcher)
  | [] => some []
  | matcher :: matchers =>
    match ls.lookup matcher.name with
    | some localValue => if matcher.accepts localValue then filterMatchersLoop ls matchers else none
    | none => (filterMatchersLoop ls matchers).map (matcher :: ·)

/-- `FilterMatchers`, `none` being its `false`. -/
def filterMatchers (ls : LabelSet) (matchers : List Matcher) : Option (List Matcher) :=
  (filterMatchersLoop ls matchers).map fun filtered =>
    if filtered.length = 0 then [anyMetricName] else filtered

def filterSelector {D : Type} (ls : LabelSet) (vs : VectorSelector D) : Option (VectorSelector D) :=
  (filterMatchers ls vs.labelMatchers).map fun filtered => { vs with labelMatchers := filtered }

/-- The expression after a walk of `FilterMatcherVisitor`, `none` if its `filterMatch` is false. The
selector of a matrix selector is visited twice. -/
def filterMatcherVisitor {D : Type} (ls : LabelSet) : Expr D → Option (Expr D)
  | .vectorSelector vs => (filterSelector ls vs).map .vectorSelector
  | .matrixSelector vs range =>
    ((filterSelector ls vs).bind (filterSelector ls)).map fun vs => .matrixSelector vs range
  | .subqueryExpr expr range originalOffset offset step timestamp =>
    (filterMatcherVisitor ls expr).map fun expr =>
      .subqueryExpr expr range originalOffset offset step timestamp
  | .call func args => (filterMatcherVisitor ls args).map (.call func)
  | .aggregateExpr op expr param grouping without =>
    (filterMatcherVisitor ls expr).bind fun expr =>
      (filterMatcherVisitor ls param).map fun param => .aggregateExpr op expr param grouping without
  | .binaryExpr op lhs rhs =>
    (filterMatcherVisitor ls lhs).bind fun lhs =>
      (filterMatcherVisitor ls rhs).map fun rhs => .binaryExpr op lhs rhs
  | .unaryExpr op expr => (filterMatcherVisitor ls expr).map (.unaryExpr op)
  | .numberLiteral val => some (.numberLiteral val)
  | .stringLiteral val => some (.stringLiteral val)
  | .parenExpr expr => (filterMatcherVisitor ls expr).map .parenExpr
  | .stepInvariantExpr expr => (filterMatcherVisitor ls expr).map .stepInvariantExpr
  | .noExpr => some .noExpr
  | .argument head tail =>
    (filterMatcherVisitor ls head).bind fun head =>
      (filterMatcherVisitor ls tail).map fun tail => .argument head tail

end

/-- `addLabels` -/
def addLabels {V : Type} (ls : LabelSet) (s : VectorSample V) : VectorSample V :=
  { s with metric := s.metric.setAll ls.pairs }

section

variable {D : Type}

/-- A Prometheus server with the data `src`. -/
def backend [Libraries] (src : Source D ℚ) : QueryAPI D where
  query query ts := query.reparse.bind fun e => (eval src e ts).bind Value.toVector

/-- `AddLabelClient.Query` -/
def addLabelClient [Regexp] (api : QueryAPI D) (ls : LabelSet) : QueryAPI D where
  query query ts :=
    query.reparse.bind fun e =>
      match filterMatcherVisitor ls e with
      | none => some []
      | some e => (api.query e ts).map (List.map (addLabels ls))

/-- `MultiAPI` with its default merge, every API being required to answer. -/
def multiAPI [MergeSeriesSet] (apis : List (QueryAPI D)) : QueryAPI D where
  query query ts :=
    (allAnswers (apis.map fun api => api.query query ts)).map
      (mergeSeriesSets VectorSample.metric)

end

end Promclient
end Proxeus
