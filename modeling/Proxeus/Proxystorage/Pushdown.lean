import Proxeus.Proxystorage.DataTimes
import Proxeus.Proxystorage.Partials
import Proxeus.Proxystorage.Walks

/-!
# Proxystorage.Pushdown

An instant query over the whole way: `NodeReplacer` sends an aggregation to the servers, each
evaluates it and has its labels added, the results are merged, and the engine evaluates the tree that
is left. `Pushes` is the outcome; `becomes_sent` has it for an aggregation that is sent as a whole.
-/

namespace Proxeus
namespace Proxystorage

open Lib Promclient Promql

/-! ## Removing the offsets -/

section

variable [Regexp] {V : Type}

theorem reparse_offsetRemover {e e' : Expr (Response V)} (h : e.reparse = some e') :
    (offsetRemover e).reparse = some (offsetRemover e') := by
  induction e generalizing e' with
  | vectorSelector vs =>
    obtain ⟨vs', hvs', rfl⟩ := Option.map_eq_some_iff.mp h
    obtain ⟨parsed, hparsed, rfl⟩ := Option.map_eq_some_iff.mp hvs'
    exact congrArg (Option.map Expr.vectorSelector) (congrArg (Option.map _) hparsed)
  | matrixSelector vs range =>
    obtain ⟨vs', hvs', rfl⟩ := Option.map_eq_some_iff.mp h
    obtain ⟨parsed, hparsed, rfl⟩ := Option.map_eq_some_iff.mp hvs'
    exact congrArg (Option.map fun vs => Expr.matrixSelector vs range)
      (congrArg (Option.map _) hparsed)
  | subqueryExpr expr range originalOffset offset step timestamp ih =>
    obtain ⟨expr', hexpr, rfl⟩ := Option.map_eq_some_iff.mp h
    rw [offsetRemover, Expr.reparse, ih hexpr]
    rfl
  | call func args ih =>
    obtain ⟨args', hargs, rfl⟩ := Option.map_eq_some_iff.mp h
    rw [offsetRemover, Expr.reparse, ih hargs]
    rfl
  | aggregateExpr op expr param grouping without ih ih' =>
    obtain ⟨expr', hexpr, h⟩ := Option.bind_eq_some_iff.mp h
    obtain ⟨param', hparam, rfl⟩ := Option.map_eq_some_iff.mp h
    rw [offsetRemover, Expr.reparse, ih hexpr, ih' hparam]
    rfl
  | binaryExpr op lhs rhs ih ih' =>
    obtain ⟨lhs', hlhs, h⟩ := Option.bind_eq_some_iff.mp h
    obtain ⟨rhs', hrhs, rfl⟩ := Option.map_eq_some_iff.mp h
    rw [offsetRemover, Expr.reparse, ih hlhs, ih' hrhs]
    rfl
  | unaryExpr op expr ih =>
    obtain ⟨expr', hexpr, rfl⟩ := Option.map_eq_some_iff.mp h
    rw [offsetRemover, Expr.reparse, ih hexpr]
    rfl
  | parenExpr expr ih =>
    obtain ⟨expr', hexpr, rfl⟩ := Option.map_eq_some_iff.mp h
    rw [offsetRemover, Expr.reparse, ih hexpr]
    rfl
  | stepInvariantExpr expr ih => exact ih h
  | argument head tail ih ih' =>
    obtain ⟨head', hhead, h⟩ := Option.bind_eq_some_iff.mp h
    obtain ⟨tail', htail, rfl⟩ := Option.map_eq_some_iff.mp h
    rw [offsetRemover, Expr.reparse, ih hhead, ih' htail]
    rfl
  | _ =>
    cases h
    rfl

theorem reparse_removeOffset (r : Prepared) {e : Expr (Response V)} (h : e.reparse = some e) :
    (removeOffset r e).reparse = some (removeOffset r e) := by
  rw [removeOffset]
  split
  · exact h
  · exact reparse_offsetRemover h

end

theorem removeOffset_aggregateExpr (r : Prepared) {op : ItemType} {expr param : Expr (Response ℚ)}
    {value : Value ℚ} (hparam : Literal param value) (grouping : List String) (without : Bool) :
    removeOffset r (.aggregateExpr op expr param grouping without) =
      .aggregateExpr op (removeOffset r expr) param grouping without := by
  have hliteral := removeOffset_literal hparam r
  rw [removeOffset] at hliteral ⊢
  rw [removeOffset]
  split
  · rfl
  · rename_i hkeep
    rw [if_neg hkeep] at hliteral
    rw [offsetRemover, hliteral]

/-! ## The proxy -/

/-- The statement of an instant query. -/
def instantStmt (ts : Int) : EvalStmt := ⟨ts, ts, 0⟩

section

variable [Libraries] [MergeSeriesSet]

/-- A proxy over the `apis`. It does not know of native histograms, and aggregates what the groups
answer. -/
structure Fronts (p : ProxyStorage ℚ) (apis : List (QueryAPI (Response ℚ))) : Prop where
  notExact : p.crossGroupExact = false
  metrics : ∀ name, histogramNamePredicate p name = false
  query : ∀ e t, p.client.query true e t = instantResponse t ((multiAPI apis).query e t)

/-- The engine's lookups in the responses. -/
def LooksUp (src : Source (Response ℚ) ℚ) : Prop :=
  ∃ lookback, 0 < lookback ∧ src.fetched = Response.lookup lookback

/-- The tree that `NodeReplacer` makes of `e` has the value `v` in the engine. -/
def Pushes (p : ProxyStorage ℚ) (src : Source (Response ℚ) ℚ) (ts : Int)
    (path : List (Expr (Response ℚ))) (e : Expr (Response ℚ)) (v : Option (InstantVector ℚ)) : Prop :=
  ∃ tree, Walks p (instantStmt ts) path e tree true ∧
    (eval src tree ts).bind Value.toVector = v

/-- The same, where the engine also fails on the tree itself if there is no such value. -/
def Becomes (p : ProxyStorage ℚ) (src : Source (Response ℚ) ℚ) (ts : Int)
    (path : List (Expr (Response ℚ))) (e : Expr (Response ℚ)) (v : Option (InstantVector ℚ)) : Prop :=
  ∃ tree, Walks p (instantStmt ts) path e tree true ∧ eval src tree ts = v.map .vector

omit [MergeSeriesSet] in
theorem Becomes.pushes {p : ProxyStorage ℚ} {src : Source (Response ℚ) ℚ} {ts : Int}
    {path : List (Expr (Response ℚ))} {e : Expr (Response ℚ)} {v : Option (InstantVector ℚ)}
    (h : Becomes p src ts path e v) : Pushes p src ts path e v := by
  obtain ⟨tree, hwalk, heval⟩ := h
  exact ⟨tree, hwalk, by rw [heval, bind_toVector_map_vector]⟩

variable {apis : List (QueryAPI (Response ℚ))} {p : ProxyStorage ℚ}
  {src : Source (Response ℚ) ℚ} {ts : Int} {path : List (Expr (Response ℚ))} {r : Prepared}

omit [Libraries] in
theorem request_eq (hfronts : Fronts p apis) (query : Expr (Response ℚ)) :
    request p (instantStmt ts) r true query =
      instantResponse (ts - r.reqOffset) ((multiAPI apis).query query (ts - r.reqOffset)) :=
  hfronts.query _ _

omit [Libraries] in
theorem not_lossy (hfronts : Fronts p apis) (query : Expr (Response ℚ)) :
    containsLossyHistogram (request p (instantStmt ts) r true query) = false := by
  rw [request_eq hfronts]
  cases (multiAPI apis).query query (ts - r.reqOffset) with
  | none => rfl
  | some v => simp [containsLossyHistogram, instantResponse, Point.isHistogram]

/-- The engine aggregates what the servers have answered. -/
theorem eval_answered (hfronts : Fronts p apis) (hsrc : LooksUp src)
    (hr : r.synthOffset = r.reqOffset) (query : Expr (Response ℚ)) {op : ItemType}
    {param : Expr (Response ℚ)} {value : Value ℚ} (hparam : Literal param value)
    (grouping : List String) (without : Bool) :
    eval src (answered p (instantStmt ts) r query op param grouping without) ts =
      (((multiAPI apis).query query (ts - r.reqOffset)).bind
        (aggregation op value grouping without)).map .vector := by
  obtain ⟨lookback, hlookback, hfetched⟩ := hsrc
  have hselector : evalVectorSelector src (responseSelector (instantStmt ts) r
      (request p (instantStmt ts) r true query)) ts =
        (multiAPI apis).query query (ts - r.reqOffset) := by
    rw [request_eq hfronts]
    show src.fetched _ (lookupTime none r.synthOffset ts) = _
    rw [hfetched, hr]
    exact lookup_instantResponse hlookback _ _
  rw [answered, eval, eval, hselector, bind_toVector_map_vector, hparam.eval]
  cases (multiAPI apis).query query (ts - r.reqOffset) with
  | none => rfl
  | some v => rfl

/-- An aggregation that is sent as it stands. -/
theorem becomes_sent (hfronts : Fronts p apis) (hsrc : LooksUp src)
    (hpath : path.any isHistogramOnlyCall = false) {op op' : ItemType}
    {expr param param' query : Expr (Response ℚ)} {grouping grouping' : List String}
    {without : Bool} {value : Value ℚ} (hparam : Literal param' value)
    (hprepare : prepare p (.aggregateExpr op expr param grouping without) path = .ok (.inr r))
    (houtcome : (replaceAggregate p (instantStmt ts) r op expr param grouping without).outcome =
      .pushed (answered p (instantStmt ts) r query op' param' grouping' without)) :
    Becomes p src ts path (.aggregateExpr op expr param grouping without)
      (((multiAPI apis).query query (ts - r.reqOffset)).bind
        (aggregation op' value grouping' without)) :=
  ⟨_, walks_sent hfronts.metrics hpath hparam hprepare houtcome,
    eval_answered hfronts hsrc (prepare_eq_inr hprepare).synthOffset query hparam grouping' without⟩

/-! ## The servers -/

omit [MergeSeriesSet] in
/-- The selector that is sent reads the data that it reads in the query. -/
theorem answer_removeOffset {d : Downstream} {node : Expr (Response ℚ)}
    (h : Accepted p node path r) (hnode : isSubQuery node = false)
    {vs : VectorSelector (Response ℚ)} (hvs : .vectorSelector vs ∈ node.nodes)
    (hforwards : d.Forwards vs (lookupTime vs.timestamp vs.originalOffset ts)) :
    d.answer (removeOffset r (.vectorSelector vs)) (ts - r.reqOffset) =
      some (d.selected vs (lookupTime vs.timestamp vs.originalOffset ts)) := by
  have hoffset : vs.originalOffset = r.offset := by
    rw [h.offset]
    exact offset_of_offsetFinder hnode h.found.2 _ hvs _ rfl
  rw [removeOffset, h.reqOffset]
  cases hkeep : r.keepOffsets with
  | true =>
    rw [if_pos rfl, if_pos rfl, Int.sub_zero]
    exact Downstream.answer_vectorSelector hforwards rfl
  | false =>
    have htimestamp : vs.timestamp = none := by
      by_contra hsome
      have hpos : 0 < booleanFinder hasTimestamp node :=
        List.length_pos_of_mem (List.mem_filter.mpr ⟨hvs, Option.isSome_iff_ne_none.mpr hsome⟩)
      have hkept := h.keepOffsets.mpr (Or.inl hpos)
      rw [hkeep] at hkept
      cases hkept
    rw [if_neg Bool.false_ne_true, if_neg Bool.false_ne_true]
    refine Downstream.answer_vectorSelector hforwards ?_
    rw [htimestamp, hoffset, lookupTime, lookupTime, Option.getD_none, Option.getD_none,
      Int.sub_zero]

variable {ι : Type*} {groups : List ι} {down : ι → Downstream}
  {answers : ι → Option (InstantVector ℚ)}

/-- What the servers answer to an aggregation, by what they answer to its operand. -/
theorem query_aggregateExpr {expr param : Expr (Response ℚ)} {value : Value ℚ}
    (hexpr : expr.reparse = some expr) (hparam : Literal param value) {t : Int}
    (hanswers : ∀ g ∈ groups, (down g).answer (removeOffset r expr) t = answers g)
    {op : ItemType} {grouping : List String} {without : Bool}
    (agg : InstantVector ℚ → InstantVector ℚ) (hnil : agg [] = [])
    (hagg : ∀ v, aggregation op value grouping without v = some (agg v)) :
    (multiAPI (groups.map fun g => (down g).api)).query
        (removeOffset r (.aggregateExpr op expr param grouping without)) t =
      (allAnswers (groups.map fun g =>
        (answers g).map fun v => (agg v).map (addLabels (down g).labels))).map
          (mergeSeriesSets VectorSample.metric) := by
  have hreparse : (removeOffset r (.aggregateExpr op expr param grouping without)).reparse =
      some (removeOffset r (.aggregateExpr op expr param grouping without)) := by
    refine reparse_removeOffset r ?_
    rw [Expr.reparse, hexpr, hparam.reparse]
    rfl
  have hanswer : ∀ g ∈ groups, (down g).api.query
      (removeOffset r (.aggregateExpr op expr param grouping without)) t =
        (answers g).map fun v => (agg v).map (addLabels (down g).labels) := by
    intro g hg
    rw [Downstream.query_eq _ hreparse, removeOffset_aggregateExpr r hparam,
      Downstream.answer_aggregateExpr hparam ((hagg []).trans (congrArg some hnil)), hanswers g hg]
    cases answers g with
    | none => rfl
    | some v => rw [Option.bind_some, hagg, Option.map_some, Option.map_some]
  simp only [multiAPI, List.map_map, Function.comp_def]
  rw [List.map_congr_left hanswer]

end

end Proxystorage
end Proxeus
