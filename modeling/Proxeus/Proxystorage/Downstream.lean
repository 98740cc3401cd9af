import Proxeus.Promclient.LabelSpec
import Proxeus.Promql.LabelCall
import Proxeus.Proxystorage.NodeReplacerSpec

/-!
# Proxystorage.Downstream

The Prometheus servers below the proxy, each behind an `AddLabelClient`: the one of a server group, or
the targets of a group. An answer of such a server, before its labels are added, is `answer`; it
follows the tree of the query, since nothing is asked for where an added label refuses the selector,
and the aggregations and functions that are pushed down have no results over no series.
-/

namespace Proxeus
namespace Proxystorage

open Lib Promclient Promql

/-- A Prometheus server and the labels that are added to its series. -/
structure Downstream where
  labels : LabelSet
  source : Source (Response ℚ) ℚ

theorem filterMatcherVisitor_literal [Regexp] {D : Type} {e : Expr D} {value : Value ℚ}
    (h : Literal e value) (ls : LabelSet) : filterMatcherVisitor ls e = some e := by
  induction h with
  | argument hhead htail ih ih' =>
    rw [filterMatcherVisitor, ih, ih', Option.bind_some, Option.map_some]
  | _ => rfl

/-! ## Answers -/

namespace Downstream

section

variable [Libraries] (d : Downstream)

def api : QueryAPI (Response ℚ) := addLabelClient (backend d.source) d.labels

/-- What the server answers, before the labels are added. -/
def answer (e : Expr (Response ℚ)) (t : Int) : Option (InstantVector ℚ) :=
  match filterMatcherVisitor d.labels e with
  | none => some []
  | some e => (backend d.source).query e t

theorem query_eq {e : Expr (Response ℚ)} (he : e.reparse = some e) (t : Int) :
    d.api.query e t = (d.answer e t).map (List.map (addLabels d.labels)) := by
  simp only [api, addLabelClient, he, Option.bind_some, answer]
  cases filterMatcherVisitor d.labels e with
  | none => rfl
  | some e => rfl

variable {d} {e param : Expr (Response ℚ)} {t : Int} {value : Value ℚ}

/-- An aggregation that has no results over no series is evaluated over the answer to its operand. -/
theorem answer_aggregateExpr (hparam : Literal param value) {op : ItemType}
    {grouping : List String} {without : Bool}
    (hnil : aggregation op value grouping without [] = some []) :
    d.answer (.aggregateExpr op e param grouping without) t =
      (d.answer e t).bind (aggregation op value grouping without) := by
  simp only [answer, filterMatcherVisitor, filterMatcherVisitor_literal hparam, Option.map_some]
  cases filterMatcherVisitor d.labels e with
  | none => rw [Option.bind_none, Option.bind_some, hnil]
  | some e =>
    simp only [Option.bind_some, backend, Expr.reparse, hparam.reparse, Option.map_some]
    cases e.reparse with
    | none => rfl
    | some e =>
      simp only [Option.bind_some, eval, hparam.eval]
      cases (eval d.source e t).bind Value.toVector with
      | none => rfl
      | some v =>
        simp only [Option.bind_some, bind_toVector_map_vector]
        rfl

theorem answer_call (c : LabelCall) :
    d.answer (c.call e) t = (d.answer e t).bind (relabelVector c.relabel) := by
  simp only [answer, LabelCall.call, filterMatcherVisitor,
    filterMatcherVisitor_literal (LabelCall.literal_stringArgs _)]
  cases filterMatcherVisitor d.labels e with
  | none => rfl
  | some e =>
    simp only [Option.bind_some, Option.map_some, backend, Expr.reparse,
      (LabelCall.literal_stringArgs _).reparse]
    cases e.reparse with
    | none => rfl
    | some e => exact LabelCall.eval_call c

theorem answer_callAll (calls : List LabelCall) :
    d.answer (LabelCall.callAll calls e) t =
      (d.answer e t).bind (LabelCall.relabelAll calls) := by
  induction calls with
  | nil =>
    cases h : d.answer e t with
    | none => exact h
    | some v => exact h
  | cons c calls ih =>
    rw [LabelCall.callAll, List.foldr_cons, ← LabelCall.callAll, answer_call, ih,
      Option.bind_assoc]
    rfl

end

/-! ## Selectors -/

section

variable [Regexp] (d : Downstream)

/-- The series of the server that the selector selects when they have been labelled. -/
def selected (vs : VectorSelector (Response ℚ)) (t : Int) : InstantVector ℚ :=
  (d.source.instant t).filter fun s => selects vs.labelMatchers (addLabels d.labels s).metric

/-- The server takes what is left of the selector, and the selected series have the metric names that
are asked for. -/
structure Forwards (vs : VectorSelector (Response ℚ)) (t : Int) : Prop where
  check : (filterSelector d.labels vs).all fun vs' => vs'.text.check
  named : (∀ m ∈ vs.labelMatchers, m.name ∈ d.labels.names) →
    ∀ s ∈ d.selected vs t, s.metric.get metricNameLabel ≠ ""
  outside : ∀ s ∈ d.selected vs t, vs.name = "" ∨ s.metric.get metricNameLabel = vs.name

end

section

variable [Libraries] {d : Downstream} {vs : VectorSelector (Response ℚ)} {t time : Int}

theorem answer_vectorSelector (h : d.Forwards vs time) {originalOffset : Int}
    (htime : lookupTime vs.timestamp originalOffset t = time) :
    d.answer (.vectorSelector { vs with originalOffset }) t = some (d.selected vs time) := by
  have hfilter : filterSelector d.labels { vs with originalOffset } =
      (filterSelector d.labels vs).map fun vs' => { vs' with originalOffset } := by
    rw [filterSelector, filterSelector, Option.map_map]
    rfl
  rw [answer, filterMatcherVisitor, hfilter, Option.map_map]
  have hsel : ∀ s ∈ d.source.instant time,
      ((filterSelector d.labels vs).any fun vs' => selects vs'.text.parseMetricSelector s.metric) =
        selects vs.labelMatchers (addLabels d.labels s).metric := by
    intro s hs
    cases hselected : selects vs.labelMatchers (s.metric.setAll d.labels.pairs) with
    | true =>
      have hs : s ∈ d.selected vs time := List.mem_filter.mpr ⟨hs, hselected⟩
      have hname := h.outside s hs
      rw [selects_filterSelector d.labels vs fun hall => h.named hall s hs]
      simp only [addLabels, hselected, Bool.true_and, Bool.or_eq_true, decide_eq_true_eq]
      exact hname
    | false =>
      rw [addLabels, hselected]
      exact filterSelector_refuses vs hselected
  rw [selected, ← List.filter_congr hsel]
  cases hf : filterSelector d.labels vs with
  | none => simp
  | some vs' =>
    have hcheck : vs'.text.check = true := by
      have hcheck := h.check
      rwa [hf, Option.all_some] at hcheck
    have htimestamp : vs'.timestamp = vs.timestamp := by
      obtain ⟨filtered, -, rfl⟩ := Option.map_eq_some_iff.mp hf
      rfl
    simp only [Option.map_some, Function.comp_apply, backend_vectorSelector]
    rw [if_pos (by exact hcheck), htimestamp, htime]
    rfl

end

end Downstream

end Proxystorage
end Proxeus
