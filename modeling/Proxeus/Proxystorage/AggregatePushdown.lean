import Proxeus.Proxystorage.Operands
import Proxeus.Proxystorage.WorkaroundLabel

/-!
# Proxystorage.AggregatePushdown

The aggregations that `NodeReplacer` splits, over servers with labels: as long as the merge leaves the
partial results as they are, the engine's aggregation of them is the aggregation of the labelled
series. `COUNT` and `COUNT_VALUES` are summed up, `AVG` is the quotient of a sum and a count, and
`TOPK` and `BOTTOMK` may choose differently among equal values.
-/

namespace Proxeus
namespace Proxystorage

open Lib Promclient Promql

section

variable [Libraries] [MergeSeriesSet]

/-- The proxy sends the operand to the servers of the groups, and the engine looks up the results. -/
structure Sends {ι : Type*} (p : ProxyStorage ℚ) (src : Source (Response ℚ) ℚ) (ts : Int)
    (path : List (Expr (Response ℚ))) (groups : List ι) (down : ι → Downstream)
    (e : Expr (Response ℚ)) (answers : ι → Option (InstantVector ℚ)) : Prop where
  fronts : Fronts p (groups.map fun g => (down g).api)
  looksUp : LooksUp src
  path : Clean path
  sent : SentOperand groups down ts e answers

variable {ι : Type*} {p : ProxyStorage ℚ} {src : Source (Response ℚ) ℚ} {ts : Int}
  {path : List (Expr (Response ℚ))} {groups : List ι} {down : ι → Downstream}
  {e param param' : Expr (Response ℚ)} {answers : ι → Option (InstantVector ℚ)}
  {value value' : Value ℚ} (grouping : List String) (without : Bool)

/-- What becomes of an aggregation that is sent as it stands. -/
theorem Sends.becomes (h : Sends p src ts path groups down e answers) (hparam : Literal param value)
    (hparam' : Literal param' value') {op op' : ItemType} {grouping' : List String}
    (agg : InstantVector ℚ → InstantVector ℚ) (hnil : agg [] = [])
    (hagg : ∀ v, aggregation op value grouping without v = some (agg v))
    (houtcome : ∀ r, containsLossyHistogram (request p (instantStmt ts) r true
        (removeOffset r (.aggregateExpr op e param grouping without))) = false →
      (replaceAggregate p (instantStmt ts) r op e param grouping without).outcome =
        .pushed (answered p (instantStmt ts) r
          (removeOffset r (.aggregateExpr op e param grouping without)) op' param' grouping'
          without)) :
    Becomes p src ts path (.aggregateExpr op e param grouping without)
      (((allAnswers (groups.map fun g =>
        (answers g).map fun v => (agg v).map (addLabels (down g).labels))).map
          (mergeSeriesSets VectorSample.metric)).bind (aggregation op' value' grouping' without)) := by
  obtain ⟨r, hprepare, hanswers⟩ := h.sent.accepted h.fronts h.path hparam op grouping without
  have hbecomes : Becomes p src ts path _ _ := becomes_sent h.fronts h.looksUp h.path.histogram
    hparam' hprepare (houtcome r (not_lossy h.fronts _))
  rwa [query_aggregateExpr h.sent.reparse hparam hanswers agg hnil hagg] at hbecomes

theorem Sends.becomes_composable (h : Sends p src ts path groups down e answers)
    (hparam : Literal param value) {op : ItemType} (hop : op ∈ composable) {f : List ℚ → ℚ}
    (hf : ∀ v, aggregation op value grouping without v =
      some (aggregateBy (fun s => groupingLabels grouping without s.metric) f v)) :
    Becomes p src ts path (.aggregateExpr op e param grouping without)
      (((allAnswers (groups.map fun g => (answers g).map fun v =>
        (aggregateBy (fun s => groupingLabels grouping without s.metric) f v).map
          (addLabels (down g).labels))).map (mergeSeriesSets VectorSample.metric)).bind
            (aggregation (outerOp op) value grouping without)) := by
  have houter : (op, outerOp op) ∈ [(.sum, .sum), (.min, .min), (.max, .max), (.topk, .topk),
      (.bottomk, .bottomk), (.group, .group), (.count, .sum)] := by
    simp only [composable, List.mem_cons, List.not_mem_nil, or_false] at hop
    rcases hop with rfl | rfl | rfl | rfl | rfl <;> simp [outerOp]
  exact h.becomes grouping without hparam hparam _ (aggregateBy_nil _ f) hf fun r hlossy =>
    outcome_replaceAggregate hparam h.sent.noData hlossy (Or.inl houter)

theorem Sends.becomes_countValues (h : Sends p src ts path groups down e answers)
    (valueLabel : String) :
    Becomes p src ts path (.aggregateExpr .countValues e (.stringLiteral valueLabel) grouping without)
      (((allAnswers (groups.map fun g => (answers g).map fun v =>
        (aggregateBy (countValuesKey grouping without valueLabel) countOf v).map
          (addLabels (down g).labels))).map (mergeSeriesSets VectorSample.metric)).bind
            (aggregation .sum .noValue (countValuesGrouping grouping without valueLabel) without)) :=
  h.becomes grouping without (.stringLiteral valueLabel) .noExpr _
    (aggregateBy_nil (countValuesKey grouping without valueLabel) countOf) (fun _ => rfl)
    fun _ hlossy => outcome_replaceAggregate_countValues h.sent.noData hlossy

/-- The aggregations whose results are series. -/
def selections : List ItemType := [.topk, .bottomk]

theorem Sends.becomes_selection (h : Sends p src ts path groups down e answers) {op : ItemType}
    (hop : op ∈ selections) (k : ℚ) {pick : InstantVector ℚ → InstantVector ℚ}
    (hpick : ∀ v, aggregation op (.scalar k) grouping without v =
      some (selectBy (fun s => groupingLabels grouping without s.metric) pick v)) :
    Becomes p src ts path (.aggregateExpr op e (.numberLiteral k) grouping without)
      (((allAnswers (groups.map fun g => (answers g).map fun v =>
        (selectBy (fun s => groupingLabels grouping without s.metric) pick v).map
          (addLabels (down g).labels))).map (mergeSeriesSets VectorSample.metric)).bind
            (aggregation op (.scalar k) grouping without)) := by
  have houter : (op, op) ∈ [(.sum, .sum), (.min, .min), (.max, .max), (.topk, .topk),
      (.bottomk, .bottomk), (.group, .group), (.count, .sum)] := by
    simp only [selections, List.mem_cons, List.not_mem_nil, or_false] at hop
    rcases hop with rfl | rfl <;> simp
  exact h.becomes grouping without (.numberLiteral k) (.numberLiteral k) _
    (show selectBy (fun s => groupingLabels grouping without s.metric) pick [] = [] from rfl)
    hpick fun r hlossy => outcome_replaceAggregate (.numberLiteral k) h.sent.noData hlossy
      (Or.inl houter)

variable {parts : ι → InstantVector ℚ}

/-! ## Aggregations that are aggregated again -/

theorem pushes_aggregate (h : Sends p src ts path groups down e fun g => some (parts g))
    (hgroups : groups.Nodup) (hparam : Literal param value) {op : ItemType} (hop : op ∈ composable)
    (hapart : ∀ f, KeptApart groups (fun g => (down g).labels) fun g =>
      aggregateBy (fun s => groupingLabels grouping without s.metric) f (parts g)) :
    ∃ pushed flat,
      Pushes p src ts path (.aggregateExpr op e param grouping without) (some pushed) ∧
      aggregation op value grouping without
        (labelledParts groups (fun g => (down g).labels) parts) = some flat ∧
      pushed.Perm flat := by
  obtain ⟨f, g, hr, hf, hg⟩ := exists_recombines hop
  have hpushes := (h.becomes_composable grouping without hparam hop
    fun v => hf value grouping without v).pushes
  simp only [Option.map_some, allAnswers_map_some, Option.bind_some, hg] at hpushes
  refine ⟨_, _, hpushes, hf _ _ _ _, ?_⟩
  have hcombined := combined_labelledParts hgroups grouping without (fun s => s) (fun _ => rfl)
    (hapart f) hr
  simp only [List.map_id'] at hcombined
  exact hcombined

/-- A sample with its value as a label. -/
def setValue (valueLabel : String) (s : VectorSample ℚ) : VectorSample ℚ :=
  { s with metric := s.metric.set valueLabel (Libraries.formatFloat s.value) }

theorem pushes_countValues (h : Sends p src ts path groups down e fun g => some (parts g))
    (hgroups : groups.Nodup) (valueLabel : String)
    (hapart : KeptApart groups (fun g => (down g).labels) fun g =>
      aggregateBy (countValuesKey grouping without valueLabel) countOf (parts g)) :
    ∃ pushed,
      Pushes p src ts path (.aggregateExpr .countValues e (.stringLiteral valueLabel) grouping
        without) (some pushed) ∧
      pushed.Perm (aggregateBy (fun s =>
          groupingLabels (countValuesGrouping grouping without valueLabel) without s.metric) countOf
        (labelledParts groups (fun g => (down g).labels) fun g =>
          (parts g).map (setValue valueLabel))) := by
  have hpushes := (h.becomes_countValues grouping without valueLabel).pushes
  simp only [Option.map_some, allAnswers_map_some, Option.bind_some] at hpushes
  exact ⟨_, hpushes, combined_labelledParts hgroups _ without (setValue valueLabel)
    (fun _ => rfl) hapart recombines_count⟩

omit [MergeSeriesSet] in
/-- The values are the same labels before and after other labels are added. -/
theorem map_setValue_labelledParts {labels : ι → LabelSet} {valueLabel : String}
    (hlabel : ∀ g ∈ groups, parts g ≠ [] → valueLabel ∉ (labels g).names) :
    (labelledParts groups labels fun g => (parts g).map (setValue valueLabel)) =
      (labelledParts groups labels parts).map (setValue valueLabel) := by
  rw [labelledParts, labelledParts, List.map_flatMap]
  refine List.flatMap_congr fun g hg => ?_
  rw [List.map_map, List.map_map]
  refine List.map_congr_left fun s hs => VectorSample.ext (Labels.ext_get fun name => ?_) rfl
  have hlookup := LabelSet.lookup_eq_none.mpr (hlabel g hg (List.ne_nil_of_mem hs))
  show ((s.metric.set _ _).setAll _).get name = ((s.metric.setAll _).set _ _).get name
  simp only [Labels.get_set, Labels.get_setAll]
  by_cases hname : name = valueLabel
  · rw [if_pos hname, if_pos hname, hname, hlookup, Option.getD_none]
    rfl
  · rw [if_neg hname, if_neg hname]

omit [MergeSeriesSet] in
theorem aggregateBy_countValuesKey (valueLabel : String) (v : InstantVector ℚ) :
    (aggregateBy (fun s =>
        groupingLabels (countValuesGrouping grouping without valueLabel) without s.metric) countOf
      (v.map (setValue valueLabel))).Perm
        (aggregateBy (countValuesKey grouping without valueLabel) countOf v) :=
  ofResults_perm (aggregate_map (setValue valueLabel) v)

/-! ## Selections -/

/-- The same results, up to the choice of a selection from `input` among equal values. -/
def SameResults (op : ItemType) (grouping : List String) (without : Bool)
    (input flat pushed : InstantVector ℚ) : Prop :=
  match op with
  | .topk =>
    EqualUpToTies (fun s => groupingLabels grouping without s.metric) VectorSample.value input flat
      pushed
  | .bottomk =>
    EqualUpToTies (fun s => groupingLabels grouping without s.metric)
      (fun s => OrderDual.toDual s.value) input flat pushed
  | _ => pushed.Perm flat

theorem pushes_selection (h : Sends p src ts path groups down e fun g => some (parts g))
    {op : ItemType} (hop : op ∈ selections) (k : ℚ)
    (hapart : ∀ agg : InstantVector ℚ → InstantVector ℚ, (∀ v, (agg v).Subperm v) →
      KeptApart groups (fun g => (down g).labels) fun g => agg (parts g)) :
    ∃ pushed flat,
      Pushes p src ts path (.aggregateExpr op e (.numberLiteral k) grouping without) (some pushed) ∧
      aggregation op (.scalar k) grouping without
        (labelledParts groups (fun g => (down g).labels) parts) = some flat ∧
      SameResults op grouping without (labelledParts groups (fun g => (down g).labels) parts) flat
        pushed := by
  have hkey : ∀ l (ls : LabelSet),
      groupingLabels grouping without ((groupingLabels grouping without l).setAll ls.pairs) =
        groupingLabels grouping without (l.setAll ls.pairs) :=
    groupingLabels_setAll grouping without
  have hpushes : ∀ pick : InstantVector ℚ → InstantVector ℚ,
      (∀ v, aggregation op (.scalar k) grouping without v =
        some (selectBy (fun s => groupingLabels grouping without s.metric) pick v)) →
      Pushes p src ts path (.aggregateExpr op e (.numberLiteral k) grouping without)
        (some (selectBy (fun s => groupingLabels grouping without s.metric) pick
          (mergeSeriesSets VectorSample.metric (groups.map fun g =>
            (selectBy (fun s => groupingLabels grouping without s.metric) pick (parts g)).map
              (addLabels (down g).labels))))) := by
    intro pick hpick
    have hpushes := (h.becomes_selection grouping without hop k hpick).pushes
    simpa only [Option.map_some, allAnswers_map_some, Option.bind_some, hpick] using hpushes
  simp only [selections, List.mem_cons, List.not_mem_nil, or_false] at hop
  rcases hop with rfl | rfl
  · have hpick := Libraries.topk_isTop ⌊k⌋.toNat
    refine ⟨_, _, hpushes _ (fun _ => rfl), rfl, ?_⟩
    exact equalUpToTies_of_topCounts (topCounts_selectBy (fun x => x) hpick _ _)
      (combined_topCounts (fun x => x) hpick
        (hapart _ (subperm_selectBy (fun x => x) hpick _)) hkey)
  · have hpick := Libraries.bottomk_isTop ⌊k⌋.toNat
    refine ⟨_, _, hpushes _ (fun _ => rfl), rfl, ?_⟩
    exact equalUpToTies_of_topCounts (topCounts_selectBy OrderDual.toDual hpick _ _)
      (combined_topCounts OrderDual.toDual hpick
        (hapart _ (subperm_selectBy OrderDual.toDual hpick _)) hkey)

/-! ## Averages -/

omit [MergeSeriesSet] in
theorem eval_of_toVector {e : Expr (Response ℚ)} {v : InstantVector ℚ}
    (h : (eval src e ts).bind Value.toVector = some v) : eval src e ts = some (.vector v) := by
  obtain ⟨x, hx, hv⟩ := Option.bind_eq_some_iff.mp h
  cases x with
  | vector v' =>
    cases hv
    exact hx
  | _ => cases hv

/-- The quotient of the sum and the count that are sent. -/
theorem walksChildren_mean (h : Sends p src ts path groups down e fun g => some (parts g))
    (hgroups : groups.Nodup) (hparam : Literal param value)
    (hapart : ∀ f, KeptApart groups (fun g => (down g).labels) fun g =>
      aggregateBy (fun s => groupingLabels grouping without s.metric) f (parts g))
    (hname : ∀ s ∈ labelledParts groups (fun g => (down g).labels) parts,
      (groupingLabels grouping without s.metric).get metricNameLabel = "") :
    ∃ tree quotients,
      WalksChildren p (instantStmt ts) path
        (.binaryExpr "/" (.aggregateExpr .sum e param grouping without)
          (.aggregateExpr .count e param grouping without)) tree true ∧
      (eval src tree ts).bind Value.toVector = some quotients ∧
      quotients.Perm (ofResults (aggregate
        (fun s : VectorSample ℚ => groupingLabels grouping without s.metric) VectorSample.value mean
        (labelledParts groups (fun g => (down g).labels) parts))) := by
  obtain ⟨sum, flatSum, ⟨treeSum, hwalkSum, hevalSum⟩, hflatSum, hpermSum⟩ :=
    pushes_aggregate grouping without h hgroups hparam (show .sum ∈ composable by decide) hapart
  obtain ⟨count, flatCount, ⟨treeCount, hwalkCount, hevalCount⟩, hflatCount, hpermCount⟩ :=
    pushes_aggregate grouping without h hgroups hparam (show .count ∈ composable by decide) hapart
  cases hflatSum
  cases hflatCount
  obtain ⟨quotients, hdiv, hperm⟩ := vectorDiv_aggregate hname hpermSum hpermCount
  refine ⟨_, quotients, WalksChildren.binaryExpr hwalkSum hwalkCount "/", ?_, hperm⟩
  rw [eval, eval_of_toVector hevalSum, eval_of_toVector hevalCount]
  show (binaryOperator "/" (.vector sum) (.vector count)).bind Value.toVector = _
  rw [binaryOperator, if_pos rfl, hdiv]
  rfl

theorem pushes_avg (h : Sends p src ts path groups down e fun g => some (parts g))
    (hgroups : groups.Nodup) (hparam : Literal param value) (hsgs : p.sgs.length ≠ 1)
    (hname : metricNameLabel ∉ grouping)
    (hapart : ∀ f, KeptApart groups (fun g => (down g).labels) fun g =>
      aggregateBy (fun s => groupingLabels grouping without s.metric) f (parts g)) :
    ∃ pushed flat,
      Pushes p src ts path (.aggregateExpr .avg e param grouping without) (some pushed) ∧
      aggregation .avg value grouping without
        (labelledParts groups (fun g => (down g).labels) parts) = some flat ∧
      pushed.Perm flat := by
  obtain ⟨r, hprepare, -⟩ := h.sent.accepted h.fronts h.path hparam .avg grouping without
  have hkey : ∀ l, (groupingLabels grouping without l).get metricNameLabel = "" := by
    intro l
    rw [get_groupingLabels]
    cases without <;> simp [hname]
  have hmean : Sends p src ts (.binaryExpr "/" (.aggregateExpr .sum e param grouping without)
      (.aggregateExpr .count e param grouping without) :: path) groups down e
        fun g => some (parts g) := { h with path := h.path.cons rfl rfl }
  obtain ⟨tree, quotients, hwalk, heval, hperm⟩ :=
    walksChildren_mean grouping without hmean hgroups hparam hapart fun s _ => hkey s.metric
  exact ⟨quotients, _, ⟨tree, walks_aggregateExpr hprepare (outcome_replaceAggregate_avg
    h.sent.noData h.sent.reparse hsgs hname) hwalk, heval⟩, rfl, hperm⟩

/-- Copying the metric name of a sample. -/
def copySample (s : VectorSample ℚ) : VectorSample ℚ := { s with metric := copyName s.metric }

/-- The calls of `PreserveLabel` around an average by the metric name. -/
def copyCall : LabelCall := .labelReplace metricNameWorkaroundLabel "$1" metricNameLabel "(.*)"

def copyBackCall : LabelCall := .labelReplace metricNameLabel "$1" metricNameWorkaroundLabel "(.*)"

omit [MergeSeriesSet] in
theorem preserveLabel_eq {e : Expr (Response ℚ)} (he : e.reparse = some e) (srcLabel dstLabel : String) :
    preserveLabel e srcLabel dstLabel =
      (LabelCall.labelReplace dstLabel "$1" srcLabel "(.*)").call e := by
  rw [preserveLabel, cloneExpr, he]
  rfl

/-- The average by the metric name, as it is sent. -/
def namedMean (e param : Expr (Response ℚ)) (grouping : List String) (without : Bool) :
    Expr (Response ℚ) :=
  .binaryExpr "/" (.aggregateExpr .sum (copyCall.call e) param (replacedGrouping grouping) without)
    (.aggregateExpr .count (copyCall.call e) param (replacedGrouping grouping) without)

omit [MergeSeriesSet] in
theorem outcome_replaceAggregate_avg_named {r : Prepared} {s : EvalStmt}
    (hdata : hasData e = false) (he : e.reparse = some e) (hparam : Literal param value)
    (hsgs : p.sgs.length ≠ 1) (hname : metricNameLabel ∈ grouping) :
    (replaceAggregate p s r .avg e param grouping without).outcome =
      .pushed (.aggregateExpr .max (copyBackCall.call (namedMean e param grouping without)) .noExpr
        grouping without) := by
  have hmean : (namedMean e param grouping without).reparse =
      some (namedMean e param grouping without) := by
    have hcall : (copyCall.call e).reparse = some (copyCall.call e) := by
      have hcalls : (copyCall.call e).reparse = e.reparse.map copyCall.call :=
        LabelCall.reparse_callAll [copyCall]
      rw [hcalls, he, Option.map_some]
    rw [namedMean, Expr.reparse, Expr.reparse, Expr.reparse, hcall, hparam.reparse]
    rfl
  have hclone : cloneExpr e = e := by rw [cloneExpr, he, Option.getD_some]
  have hcopy : preserveLabel e metricNameLabel metricNameWorkaroundLabel = copyCall.call e :=
    preserveLabel_eq he _ _
  simp only [replaceAggregate, hdata, hsgs, hname, List.contains_eq_mem, decide_true, if_true,
    if_false, Bool.false_eq_true, hclone, hcopy]
  exact congrArg (fun e => Outcome.pushed (.aggregateExpr .max e .noExpr grouping without))
    (preserveLabel_eq hmean metricNameWorkaroundLabel metricNameLabel)

omit [Libraries] [MergeSeriesSet] in
theorem addLabels_copySample {ls : LabelSet} (hname : metricNameLabel ∉ ls.names)
    (hworkaround : metricNameWorkaroundLabel ∉ ls.names) (s : VectorSample ℚ) :
    addLabels ls (copySample s) = copySample (addLabels ls s) := by
  refine VectorSample.ext (Labels.ext_get fun name => ?_) rfl
  show ((copyName s.metric).setAll ls.pairs).get name = (copyName (s.metric.setAll ls.pairs)).get name
  simp only [copyName, Labels.get_setAll, Labels.get_set]
  by_cases hlabel : name = metricNameWorkaroundLabel
  · rw [if_pos hlabel, if_pos hlabel, hlabel, LabelSet.lookup_eq_none.mpr hworkaround,
      LabelSet.lookup_eq_none.mpr hname, Option.getD_none]
  · rw [if_neg hlabel, if_neg hlabel]

omit [Libraries] [MergeSeriesSet] in
theorem lacks_copySample {ls : LabelSet} (hworkaround : metricNameWorkaroundLabel ∉ ls.names)
    {v : InstantVector ℚ} (h : Lacks ls v) : Lacks ls (v.map copySample) := by
  intro s hs name hname
  obtain ⟨s, hmem, rfl⟩ := List.mem_map.mp hs
  have hne : name ≠ metricNameWorkaroundLabel := fun heq => hworkaround (heq ▸ hname)
  rw [copySample, copyName, Labels.get_set, if_neg hne]
  exact h s hmem name hname

omit [MergeSeriesSet] in
/-- The walk goes down to the sum and the count. -/
theorem walks_copyBackCall {s : EvalStmt} (hmetrics : ∀ name, histogramNamePredicate p name = false)
    (hpath : Clean path) {lhs rhs tree : Expr (Response ℚ)}
    (hfloats : lhs.nodes.any isHistogramOnlyCall = false ∧
      rhs.nodes.any isHistogramOnlyCall = false)
    (haggs : 0 < booleanFinder isAgg lhs ∧ 0 < booleanFinder isAgg rhs)
    (hchildren : WalksChildren p s
      (.binaryExpr "/" lhs rhs :: copyBackCall.call (.binaryExpr "/" lhs rhs) :: path)
      (.binaryExpr "/" lhs rhs) tree true) :
    Walks p s path (copyBackCall.call (.binaryExpr "/" lhs rhs)) (copyBackCall.call tree) true := by
  have hbinary : (Expr.binaryExpr "/" lhs rhs).nodes.any isHistogramOnlyCall = false := by
    rw [Expr.nodes, List.any_cons, List.any_append, hfloats.1, hfloats.2]
    rfl
  have hcall : (copyBackCall.call (Expr.binaryExpr "/" lhs rhs)).nodes.any isHistogramOnlyCall =
      false := by
    rw [LabelCall.call, Expr.nodes, Expr.nodes, List.any_cons, List.any_append, hbinary]
    rfl
  have htwo : 1 < booleanFinder isAgg (Expr.binaryExpr "/" lhs rhs) := by
    have hlen : booleanFinder isAgg (Expr.binaryExpr "/" lhs rhs) =
        booleanFinder isAgg lhs + booleanFinder isAgg rhs := by
      simp [booleanFinder, Expr.nodes, isAgg]
    omega
  have htwo' : 1 < booleanFinder isAgg (copyBackCall.call (Expr.binaryExpr "/" lhs rhs)) := by
    have hsub : (Expr.binaryExpr "/" lhs rhs).nodes.Sublist
        (copyBackCall.call (Expr.binaryExpr "/" lhs rhs)).nodes :=
      (List.sublist_append_left _ _).trans (List.sublist_cons_self _ _)
    exact lt_of_lt_of_le htwo (hsub.filter isAgg).length_le
  have hpath' : Clean (copyBackCall.call (.binaryExpr "/" lhs rhs) :: path) := hpath.cons rfl rfl
  have hargs := Walks.argument
    (Walks.nested ⟨hmetrics, hpath'.histogram, hbinary⟩ trivial rfl htwo hchildren)
    (Walks.literal hmetrics hpath'.histogram (LabelCall.literal_stringArgs copyBackCall.strs))
  exact Walks.nested ⟨hmetrics, hpath.histogram, hcall⟩ trivial rfl htwo'
    (WalksChildren.call hargs copyBackCall.func)

omit [MergeSeriesSet] in
/-- The operand of the sum and the count of an average by the metric name. -/
theorem sentOperand_copyCall (hsent : SentOperand groups down ts e fun g => some (parts g))
    (hnodup : ∀ g ∈ groups, ((parts g).map VectorSample.metric).Nodup)
    (hlacks : ∀ g ∈ groups, ∀ s ∈ parts g, s.metric.get metricNameWorkaroundLabel = "") :
    SentOperand groups down ts (copyCall.call e) fun g => some ((parts g).map copySample) := by
  refine (sentOperand_callAll hsent [copyCall]).congr fun g hg => ?_
  have hrelabel : LabelCall.relabelLabels [copyCall] = copyName :=
    funext fun l => labelReplace_copy _ _ l
  rw [Option.bind_some, LabelCall.relabelAll_eq _ (hnodup g hg), hrelabel, relabelVector_of_nodup]
  · rfl
  · have hcopy : (parts g).map (fun s => copyName s.metric) =
        ((parts g).map VectorSample.metric).map copyName := by
      rw [List.map_map]
      rfl
    rw [hcopy]
    refine List.Nodup.map_on (fun l hl l' hl' heq => ?_) (hnodup g hg)
    obtain ⟨s, hs, rfl⟩ := List.mem_map.mp hl
    obtain ⟨s', hs', rfl⟩ := List.mem_map.mp hl'
    exact copyName_injective (hlacks g hg s hs) (hlacks g hg s' hs') heq

/-- The nodes above the sum and the count of an average by the metric name. -/
def namedPath (e param : Expr (Response ℚ)) (grouping : List String) (without : Bool)
    (path : List (Expr (Response ℚ))) : List (Expr (Response ℚ)) :=
  namedMean e param grouping without :: copyBackCall.call (namedMean e param grouping without) ::
    .aggregateExpr .max (copyBackCall.call (namedMean e param grouping without)) .noExpr grouping
      without :: path

/-- The operand is also sent with the metric name copied. -/
theorem Sends.named (h : Sends p src ts path groups down e answers) (param : Expr (Response ℚ)) :
    Sends p src ts (namedPath e param grouping without path) groups down (copyCall.call e) fun g =>
      (answers g).bind (LabelCall.relabelAll [copyCall]) where
  fronts := h.fronts
  looksUp := h.looksUp
  path := ((h.path.cons rfl rfl).cons rfl rfl).cons rfl rfl
  sent := sentOperand_callAll h.sent [copyCall]

theorem walks_avg_named (h : Sends p src ts path groups down e answers) (hparam : Literal param value)
    (hsgs : p.sgs.length ≠ 1) (hname : metricNameLabel ∈ grouping) {tree : Expr (Response ℚ)}
    (hchildren : WalksChildren p (instantStmt ts) (namedPath e param grouping without path)
      (namedMean e param grouping without) tree true) :
    Walks p (instantStmt ts) path (.aggregateExpr .avg e param grouping without)
      (.aggregateExpr .max (copyBackCall.call tree) .noExpr grouping without) true := by
  obtain ⟨r, hprepare, -⟩ := h.sent.accepted h.fronts h.path hparam .avg grouping without
  have hnamed := h.named grouping without param
  obtain ⟨r', hprepare', -⟩ := hnamed.sent.accepted hnamed.fronts hnamed.path hparam .sum
    (replacedGrouping grouping) without
  have hfloats := (prepare_eq_inr hprepare').floats
  have hfloats' : (Expr.aggregateExpr .count (copyCall.call e) param (replacedGrouping grouping)
      without).nodes.any isHistogramOnlyCall = false := hfloats
  have hcall := walks_copyBackCall h.fronts.metrics (h.path.cons rfl rfl) ⟨hfloats, hfloats'⟩
    ⟨Nat.succ_pos _, Nat.succ_pos _⟩ hchildren
  exact walks_aggregateExpr hprepare (outcome_replaceAggregate_avg_named grouping without
    h.sent.noData h.sent.reparse hparam hsgs hname)
    (WalksChildren.aggregateExpr hcall Walks.noExpr .max grouping without)

theorem pushes_avg_named (h : Sends p src ts path groups down e fun g => some (parts g))
    (hgroups : groups.Nodup) (hparam : Literal param value) (hsgs : p.sgs.length ≠ 1)
    (hname : metricNameLabel ∈ grouping) (hworkaround : metricNameWorkaroundLabel ∉ grouping)
    (hlabels : ∀ g ∈ groups, metricNameLabel ∉ (down g).labels.names ∧
      metricNameWorkaroundLabel ∉ (down g).labels.names)
    (hnodup : ∀ g ∈ groups, ((parts g).map VectorSample.metric).Nodup)
    (hlacks : ∀ g ∈ groups, ∀ s ∈ parts g, s.metric.get metricNameWorkaroundLabel = "")
    (hapart : ∀ f, KeptApart groups (fun g => (down g).labels) fun g =>
      aggregateBy (fun s => groupingLabels (replacedGrouping grouping) without s.metric) f
        ((parts g).map copySample)) :
    ∃ pushed flat,
      Pushes p src ts path (.aggregateExpr .avg e param grouping without) (some pushed) ∧
      aggregation .avg value grouping without
        (labelledParts groups (fun g => (down g).labels) parts) = some flat ∧
      pushed.Perm flat := by
  have hcopied : labelledParts groups (fun g => (down g).labels) (fun g => (parts g).map copySample) =
      (labelledParts groups (fun g => (down g).labels) parts).map copySample := by
    rw [labelledParts, labelledParts, List.map_flatMap]
    refine List.flatMap_congr fun g hg => ?_
    rw [List.map_map, List.map_map]
    exact List.map_congr_left fun s _ => addLabels_copySample (hlabels g hg).1 (hlabels g hg).2 s
  have hlacksLabel : ∀ s ∈ labelledParts groups (fun g => (down g).labels) parts,
      s.metric.get metricNameWorkaroundLabel = "" := by
    intro s hs
    obtain ⟨g, hg, hpart⟩ := List.mem_flatMap.mp hs
    obtain ⟨s, hmem, rfl⟩ := List.mem_map.mp hpart
    rw [addLabels, Labels.get_setAll, LabelSet.lookup_eq_none.mpr (hlabels g hg).2,
      Option.getD_none]
    exact hlacks g hg s hmem
  have hmean : Sends p src ts (namedPath e param grouping without path) groups down
      (copyCall.call e) fun g => some ((parts g).map copySample) :=
    { h.named grouping without param with
      sent := sentOperand_copyCall h.sent hnodup hlacks }
  obtain ⟨tree, quotients, hwalk, heval, hperm⟩ :=
    walksChildren_mean (replacedGrouping grouping) without hmean hgroups hparam hapart
      fun s hs => by
        rw [hcopied, List.mem_map] at hs
        obtain ⟨s, -, rfl⟩ := hs
        exact metricName_workaroundKey hname s.metric
  rw [hcopied] at hperm
  have hquotients := hperm.trans (ofResults_perm (aggregate_map copySample _))
  obtain ⟨copied, hback, hmax⟩ := exists_copiedBack hname hworkaround hlacksLabel hquotients
  refine ⟨_, _, ⟨_, walks_avg_named grouping without h hparam hsgs hname hwalk, ?_⟩, rfl, hmax⟩
  rw [eval, LabelCall.eval_call, heval]
  show ((relabelVector (labelReplace metricNameLabel "$1" metricNameWorkaroundLabel "(.*)")
    quotients).bind _).bind _ = _
  rw [hback]
  rfl

/-! ## The aggregations that are split -/

/-- The aggregations that are split, with their parameters. -/
inductive SplitAggregation : ItemType → Expr (Response ℚ) → Prop where
  | composable {op : ItemType} (hop : op ∈ composable) : SplitAggregation op .noExpr
  | avg : SplitAggregation .avg .noExpr
  | selection {op : ItemType} (hop : op ∈ selections) (k : ℚ) : SplitAggregation op (.numberLiteral k)
  | countValues (valueLabel : String) : SplitAggregation .countValues (.stringLiteral valueLabel)

/-- The merge leaves the partial results of the groups as they are. -/
structure PartialsApart (groups : List ι) (labels : ι → LabelSet) (parts : ι → InstantVector ℚ)
    (grouping : List String) (without : Bool) : Prop where
  aggregated : ∀ f, KeptApart groups labels fun g =>
    aggregateBy (fun s => groupingLabels grouping without s.metric) f (parts g)
  selected : ∀ agg : InstantVector ℚ → InstantVector ℚ, (∀ v, (agg v).Subperm v) →
    KeptApart groups labels fun g => agg (parts g)
  counted : ∀ valueLabel, (∀ g ∈ groups, parts g ≠ [] → valueLabel ∉ (labels g).names) →
    KeptApart groups labels fun g =>
      aggregateBy (countValuesKey grouping without valueLabel) countOf (parts g)
  named : (∀ g ∈ groups, metricNameWorkaroundLabel ∉ (labels g).names) →
    ∀ f, KeptApart groups labels fun g =>
      aggregateBy (fun s => groupingLabels (replacedGrouping grouping) without s.metric) f
        ((parts g).map copySample)

/-- The label that averages by the metric name need for themselves is not in use, and the metric names
are those of the series. -/
structure NameFree (groups : List ι) (labels : ι → LabelSet) (parts : ι → InstantVector ℚ)
    (grouping : List String) : Prop where
  grouping : metricNameWorkaroundLabel ∉ grouping
  labels : ∀ g ∈ groups, metricNameLabel ∉ (labels g).names ∧
    metricNameWorkaroundLabel ∉ (labels g).names
  series : ∀ g ∈ groups, ∀ s ∈ parts g, s.metric.get metricNameWorkaroundLabel = ""

/-- The results of an aggregation that is sent, and of the one over the labelled series. -/
theorem pushes_of_apart (h : Sends p src ts path groups down e fun g => some (parts g))
    (hgroups : groups.Nodup) (hsgs : p.sgs.length ≠ 1)
    (hnodup : ∀ g ∈ groups, ((parts g).map VectorSample.metric).Nodup)
    (hapart : PartialsApart groups (fun g => (down g).labels) parts grouping without)
    {op : ItemType} (hsplit : SplitAggregation op param)
    (hlabel : ∀ valueLabel, param = .stringLiteral valueLabel →
      ∀ g ∈ groups, parts g ≠ [] → valueLabel ∉ (down g).labels.names)
    (hfree : op = .avg → metricNameLabel ∈ grouping →
      NameFree groups (fun g => (down g).labels) parts grouping) :
    ∃ value pushed flat, Literal param value ∧
      Pushes p src ts path (.aggregateExpr op e param grouping without) (some pushed) ∧
      aggregation op value grouping without
        (labelledParts groups (fun g => (down g).labels) parts) = some flat ∧
      SameResults op grouping without (labelledParts groups (fun g => (down g).labels) parts) flat
        pushed := by
  cases hsplit with
  | composable hop =>
    obtain ⟨pushed, flat, hpushes, hflat, hperm⟩ :=
      pushes_aggregate grouping without h hgroups .noExpr hop hapart.aggregated
    refine ⟨.noValue, pushed, flat, .noExpr, hpushes, hflat, ?_⟩
    simp only [composable, List.mem_cons, List.not_mem_nil, or_false] at hop
    rcases hop with rfl | rfl | rfl | rfl | rfl <;> exact hperm
  | avg =>
    by_cases hname : metricNameLabel ∈ grouping
    · have hfree := hfree rfl hname
      obtain ⟨pushed, flat, hresults⟩ := pushes_avg_named grouping without h hgroups .noExpr hsgs hname
        hfree.grouping hfree.labels hnodup hfree.series
        (hapart.named fun g hg => (hfree.labels g hg).2)
      exact ⟨.noValue, pushed, flat, .noExpr, hresults⟩
    · obtain ⟨pushed, flat, hresults⟩ := pushes_avg grouping without h hgroups .noExpr hsgs hname
        hapart.aggregated
      exact ⟨.noValue, pushed, flat, .noExpr, hresults⟩
  | selection hop k =>
    obtain ⟨pushed, flat, hresults⟩ := pushes_selection grouping without h hop k hapart.selected
    exact ⟨.scalar k, pushed, flat, .numberLiteral k, hresults⟩
  | countValues valueLabel =>
    have hnot := hlabel valueLabel rfl
    obtain ⟨pushed, hpushes, hperm⟩ := pushes_countValues grouping without h hgroups valueLabel
      (hapart.counted valueLabel hnot)
    refine ⟨.string valueLabel, pushed, _, .stringLiteral valueLabel, hpushes, rfl, ?_⟩
    rw [map_setValue_labelledParts hnot] at hperm
    exact hperm.trans (aggregateBy_countValuesKey grouping without valueLabel _)

/-! ## Operands that fail -/

/-- The quotient of a sum and a count that fail. -/
theorem walksChildren_mean_fails (h : Sends p src ts path groups down e answers) {g : ι}
    (hg : g ∈ groups) (hnone : answers g = none) (hparam : Literal param value) :
    ∃ tree,
      WalksChildren p (instantStmt ts) path
        (.binaryExpr "/" (.aggregateExpr .sum e param grouping without)
          (.aggregateExpr .count e param grouping without)) tree true ∧
      eval src tree ts = none := by
  have hfails : ∀ f, (allAnswers (groups.map fun g => (answers g).map fun v =>
      (aggregateBy (fun s => groupingLabels grouping without s.metric) f v).map
        (addLabels (down g).labels))) = none := fun f =>
    allAnswers_map_eq_none.mpr ⟨g, hg, by rw [hnone]; rfl⟩
  have hsum := h.becomes_composable grouping without hparam (show .sum ∈ composable by decide)
    fun _ => rfl
  have hcount := h.becomes_composable grouping without hparam (show .count ∈ composable by decide)
    fun _ => rfl
  rw [hfails] at hsum hcount
  obtain ⟨sum, hwalkSum, hevalSum⟩ := hsum
  obtain ⟨count, hwalkCount, -⟩ := hcount
  refine ⟨_, WalksChildren.binaryExpr hwalkSum hwalkCount "/", ?_⟩
  rw [eval, hevalSum]
  rfl

/-- An aggregation fails if a server fails to answer its operand. -/
theorem becomes_none (h : Sends p src ts path groups down e answers) (hsgs : p.sgs.length ≠ 1)
    {g : ι} (hg : g ∈ groups) (hnone : answers g = none) {op : ItemType}
    (hsplit : SplitAggregation op param) :
    Becomes p src ts path (.aggregateExpr op e param grouping without) none := by
  have hfails : ∀ agg : InstantVector ℚ → InstantVector ℚ,
      allAnswers (groups.map fun g => (answers g).map fun v =>
        (agg v).map (addLabels (down g).labels)) = none := fun agg =>
    allAnswers_map_eq_none.mpr ⟨g, hg, by rw [hnone]; rfl⟩
  cases hsplit with
  | composable hop =>
    obtain ⟨f, -, -, hf, -⟩ := exists_recombines hop
    have hbecomes := h.becomes_composable grouping without .noExpr hop fun v => hf _ _ _ v
    rwa [hfails] at hbecomes
  | avg =>
    by_cases hname : metricNameLabel ∈ grouping
    · have hnamed := h.named grouping without .noExpr
      obtain ⟨tree, hwalk, heval⟩ := walksChildren_mean_fails (replacedGrouping grouping) without
        hnamed hg (by rw [hnone]; rfl) .noExpr
      refine ⟨_, walks_avg_named grouping without h .noExpr hsgs hname hwalk, ?_⟩
      rw [eval, LabelCall.eval_call, heval]
      rfl
    · obtain ⟨r, hprepare, -⟩ := h.sent.accepted h.fronts h.path .noExpr .avg grouping without
      have hmean : Sends p src ts (.binaryExpr "/" (.aggregateExpr .sum e .noExpr grouping without)
          (.aggregateExpr .count e .noExpr grouping without) :: path) groups down e answers :=
        { h with path := h.path.cons rfl rfl }
      obtain ⟨tree, hwalk, heval⟩ := walksChildren_mean_fails grouping without hmean hg hnone .noExpr
      exact ⟨tree, walks_aggregateExpr hprepare (outcome_replaceAggregate_avg h.sent.noData
        h.sent.reparse hsgs hname) hwalk, heval⟩
  | selection hop k =>
    simp only [selections, List.mem_cons, List.not_mem_nil, or_false] at hop
    rcases hop with rfl | rfl
    · have hbecomes := h.becomes_selection grouping without (show .topk ∈ selections by decide) k
        fun _ => rfl
      rwa [hfails] at hbecomes
    · have hbecomes := h.becomes_selection grouping without (show .bottomk ∈ selections by decide) k
        fun _ => rfl
      rwa [hfails] at hbecomes
  | countValues valueLabel =>
    have hbecomes := h.becomes_countValues grouping without valueLabel
    rwa [hfails] at hbecomes

end

end Proxystorage
end Proxeus
