import Proxeus.Promclient.MetricRelabelSpec

/-!
# Promclient.MetricRelabelPushdown

An aggregation that is evaluated below the relabelling, and its results put together above it. The
rules draw every label from one label of the series, its `origin`, so leaving labels away before the
relabelling leaves away the labels drawn from them (`foldr_relabelBy_restrict`). The results are those
of aggregating the relabelled series if no label of a group is lost in that way.
-/

namespace Proxeus
namespace Promclient

open Lib Promql

/-! ## Restricting labels -/

section

variable [Regexp] [Strings]

/-- The label that one rule draws a label from, if it does not drop it. -/
def originBy (cfg : MetricRelabelConfig) (name : String) : Option String :=
  match cfg.action with
  | .replace | .lowercase | .uppercase =>
    if name = cfg.targetLabel then some cfg.sourceLabel else some name
  | .labelDrop => if Regexp.matchString cfg.sourceLabel name then none else some name
  | _ => some name

/-- The label that the rules draw a label from. The last rule comes first. -/
def origin : List MetricRelabelConfig → String → Option String
  | [], name => some name
  | cfg :: cfgs, name => (originBy cfg name).bind (origin cfgs)

theorem relabelBy_restrict (cfg : MetricRelabelConfig) (l : Labels) (p : String → Bool) :
    relabelBy cfg (l.restrict p) =
      (relabelBy cfg l).restrict fun name => (originBy cfg name).all p := by
  refine Labels.ext_get fun name => ?_
  rw [Labels.get_restrict, get_relabelBy, get_relabelBy, originBy]
  cases cfg.action with
  | labelDrop =>
    cases Regexp.matchString cfg.sourceLabel name with
    | false => simp
    | true => simp
  | replace =>
    by_cases hname : name = cfg.targetLabel
    · simp [hname]
    · simp [hname]
  | lowercase =>
    by_cases hname : name = cfg.targetLabel
    · cases hp : p cfg.sourceLabel with
      | false => simp [hname, hp, Strings.toLower_empty]
      | true => simp [hname, hp]
    · simp [hname]
  | uppercase =>
    by_cases hname : name = cfg.targetLabel
    · cases hp : p cfg.sourceLabel with
      | false => simp [hname, hp, Strings.toUpper_empty]
      | true => simp [hname, hp]
    · simp [hname]
  | _ => simp

theorem foldr_relabelBy_restrict (cfgs : List MetricRelabelConfig) (l : Labels)
    (p : String → Bool) :
    cfgs.foldr relabelBy (l.restrict p) =
      (cfgs.foldr relabelBy l).restrict fun name => (origin cfgs name).all p := by
  induction cfgs with
  | nil => rfl
  | cons cfg cfgs ih =>
    rw [List.foldr_cons, ih, relabelBy_restrict, List.foldr_cons]
    congr 1
    funext name
    rw [origin]
    cases originBy cfg name with
    | none => rfl
    | some name' => rfl

/-- Whether the grouping keeps a label. -/
def kept (grouping : List String) (without : Bool) (name : String) : Bool :=
  if without then !(metricNameLabel :: grouping).contains name else grouping.contains name

omit [Regexp] [Strings] in
theorem groupingLabels_eq_restrict (grouping : List String) (without : Bool) (metric : Labels) :
    groupingLabels grouping without metric = metric.restrict (kept grouping without) := by
  cases without with
  | false => rfl
  | true => rfl

end

/-! ## Two levels -/

section

/-- Changing the labels of a sample. -/
def mapMetric (relabelLabels : Labels → Labels) (s : VectorSample ℚ) : VectorSample ℚ :=
  { s with metric := relabelLabels s.metric }

variable {f g : List ℚ → ℚ} (relabelLabels : Labels → Labels)

/-- Aggregating, relabelling and aggregating again is one aggregation. -/
theorem aggregateBy_mapMetric_aggregateBy (hr : Recombines f g f) (outer inner : Labels → Labels)
    (v : InstantVector ℚ) :
    (aggregateBy (fun s => outer s.metric) g
        ((aggregateBy (fun s => inner s.metric) f v).map (mapMetric relabelLabels))).Perm
      (ofResults (aggregate (fun s => outer (relabelLabels (inner s.metric))) VectorSample.value f
        v)) := by
  have hmap : (aggregateBy (fun s => inner s.metric) f v).map (mapMetric relabelLabels) =
      ofResults ((aggregate (fun s => inner s.metric) VectorSample.value f v).map fun p =>
        (relabelLabels p.1, p.2)) := by
    rw [aggregateBy, ofResults, ofResults, List.map_map, List.map_map]
    rfl
  rw [hmap]
  refine (aggregateBy_ofResults outer _).trans (ofResults_perm ?_)
  exact (aggregate_map _ _).trans
    (aggregate_aggregate hr (fun l => outer (relabelLabels l))
      (fun s : VectorSample ℚ => inner s.metric) v)

theorem aggregateBy_mapMetric (key : Labels → Labels) (v : InstantVector ℚ) :
    (aggregateBy (fun s => key s.metric) f (v.map (mapMetric relabelLabels))).Perm
      (ofResults (aggregate (fun s => key (relabelLabels s.metric)) VectorSample.value f v)) :=
  ofResults_perm (aggregate_map _ v)

end

section

variable [Regexp] [Strings] {f g : List ℚ → ℚ} {cfgs : List MetricRelabelConfig}

/-- No label of the groups is drawn from one that the aggregation below the relabelling has left
away. -/
def NoneLost (cfgs : List MetricRelabelConfig) (grouping : List String) (without : Bool)
    (v : InstantVector ℚ) : Prop :=
  ∀ s ∈ v, ∀ name, kept grouping without name →
    (cfgs.reverse.foldr relabelBy s.metric).get name ≠ "" →
    (origin cfgs.reverse name).all (kept (rewriteLabels cfgs grouping) without)

theorem relabelled_groupingLabels (cfgs : List MetricRelabelConfig) (grouping : List String)
    (without : Bool) (l : Labels) :
    groupingLabels grouping without (cfgs.reverse.foldr relabelBy
        (groupingLabels (rewriteLabels cfgs grouping) without l)) =
      (groupingLabels grouping without (cfgs.reverse.foldr relabelBy l)).restrict fun name =>
        (origin cfgs.reverse name).all (kept (rewriteLabels cfgs grouping) without) := by
  simp only [groupingLabels_eq_restrict, foldr_relabelBy_restrict]
  refine Labels.ext_get fun name => ?_
  simp only [Labels.get_restrict]
  split
  · rfl
  · split
    · rfl
    · rfl

/-- The two levels give the results of aggregating the relabelled series, exactly if no label is
lost. -/
theorem aggregate_perm_iff_noneLost (grouping : List String) (without : Bool)
    (v : InstantVector ℚ) :
    (ofResults (aggregate (fun s : VectorSample ℚ => groupingLabels grouping without
        (cfgs.reverse.foldr relabelBy
          (groupingLabels (rewriteLabels cfgs grouping) without s.metric)))
        VectorSample.value f v)).Perm
      (ofResults (aggregate (fun s : VectorSample ℚ =>
        groupingLabels grouping without (cfgs.reverse.foldr relabelBy s.metric))
        VectorSample.value f v)) ↔
      NoneLost cfgs grouping without v := by
  constructor
  · intro hperm s hs name hkept hne
    have hkey : groupingLabels grouping without (cfgs.reverse.foldr relabelBy s.metric) ∈
        (ofResults (aggregate (fun s : VectorSample ℚ =>
          groupingLabels grouping without (cfgs.reverse.foldr relabelBy s.metric))
          VectorSample.value f v)).map VectorSample.metric := by
      rw [map_metric_ofResults]
      exact mem_keys_aggregate.mpr ⟨s, hs, rfl⟩
    rw [← (hperm.map VectorSample.metric).mem_iff, map_metric_ofResults] at hkey
    obtain ⟨s', -, heq⟩ := mem_keys_aggregate.mp hkey
    have hget := congrArg (fun l : Labels => l.get name) heq
    simp only [relabelled_groupingLabels, Labels.get_restrict] at hget
    by_contra hlost
    rw [if_neg hlost, groupingLabels_eq_restrict, Labels.get_restrict, if_pos hkept] at hget
    exact hne hget.symm
  · intro h
    refine ofResults_perm (aggregate_congr fun s hs => ⟨?_, rfl⟩)
    rw [relabelled_groupingLabels]
    refine Labels.ext_get fun name => ?_
    rw [Labels.get_restrict, groupingLabels_eq_restrict, Labels.get_restrict]
    by_cases hkept : kept grouping without name = true
    · rw [if_pos hkept]
      by_cases hne : (cfgs.reverse.foldr relabelBy s.metric).get name = ""
      · rw [hne, ite_self]
      · rw [if_pos (h s hs name hkept hne)]
    · rw [if_neg hkept, ite_self]

end

section

variable [Libraries] [Strings] {D : Type} {src : Source D ℚ} {cfgs : List MetricRelabelConfig}
  {relabelCfgs : List RelabelConfig}

/-- The selector can be sent for the relabelled series: its matchers can be undone, what it becomes is
taken by the parser, and the series have the metric name outside of its braces. -/
structure Sendable (cfgs : List MetricRelabelConfig) (vs : VectorSelector D)
    (v : InstantVector ℚ) : Prop where
  reversible : ∀ m ∈ vs.labelMatchers, ReversibleAll cfgs.reverse m
  check : (rewriteSelector cfgs vs).all fun vs' => vs'.text.check
  named : ∀ s ∈ v, selects vs.labelMatchers (cfgs.reverse.foldr relabelBy s.metric) →
    vs.name = "" ∨ s.metric.get metricNameLabel = vs.name

/-- What the server answers for the selector are the series that are selected when they have been
relabelled. -/
theorem selects_rewriteSelector {vs : VectorSelector D} {v : InstantVector ℚ}
    (h : Sendable cfgs vs v) {s : VectorSample ℚ} (hs : s ∈ v) :
    ((rewriteSelector cfgs vs).any fun vs' => selects vs'.text.parseMetricSelector s.metric) =
      selects vs.labelMatchers (cfgs.reverse.foldr relabelBy s.metric) := by
  have hall : UndoesAll (fun l => cfgs.reverse.foldr relabelBy l) vs.labelMatchers
      (rewriteMatchers cfgs vs.labelMatchers) :=
    undoesAll_of_undoes fun m hm => undoes_rewriteMatcherLoop (h.reversible m hm)
  rw [rewriteSelector]
  cases hr : rewriteMatchers cfgs vs.labelMatchers with
  | none =>
    rw [hr] at hall
    exact (hall s.metric).symm
  | some matchers =>
    rw [hr] at hall
    rw [Option.map_some, Option.any_some, selects_text]
    show (selects matchers s.metric && (vs.name = "" || _)) = _
    rw [hall s.metric]
    by_cases hsel : selects vs.labelMatchers (cfgs.reverse.foldr relabelBy s.metric) = true
    · rw [hsel, Bool.true_and, Bool.or_eq_true, decide_eq_true_eq, decide_eq_true_eq]
      exact h.named s hs hsel
    · rw [Bool.not_eq_true] at hsel
      rw [hsel, Bool.false_and]

theorem query_aggregateExpr (hclient : newMetricsRelabelClient cfgs = .ok relabelCfgs)
    {text : SelectorText} {vs : VectorSelector D} (hparse : text.parseExpr = some vs)
    {op : ItemType} {f : List ℚ → ℚ} (grouping : List String) {without : Bool} {t : Int}
    (hop : ∀ grouping v, aggregation op .noValue grouping without v =
      some (aggregateBy (fun s => groupingLabels grouping without s.metric) f v))
    (h : Sendable cfgs vs (src.instant t)) :
    (metricsRelabelClient (backend src) cfgs relabelCfgs).query
        (.aggregateExpr op (.vectorSelector vs) .noExpr grouping without) t =
      some ((aggregateBy
        (fun s => groupingLabels (rewriteLabels cfgs grouping) without s.metric) f
        ((src.instant t).filter fun s =>
          selects vs.labelMatchers (cfgs.reverse.foldr relabelBy s.metric))).map
        (mapMetric fun l => cfgs.reverse.foldr relabelBy l)) := by
  have hsel := fun s (hs : s ∈ src.instant t) => selects_rewriteSelector h hs
  have hrelabel : (fun s : VectorSample ℚ =>
      { s with metric := relabelProcess s.metric relabelCfgs }) =
      mapMetric fun l => cfgs.reverse.foldr relabelBy l := by
    funext s
    rw [relabelProcess_eq hclient]
    rfl
  rw [← List.filter_congr hsel]
  simp only [metricsRelabelClient, Expr.reparse, reparse_of_parseExpr hparse, Option.map_some,
    Option.bind_some, metricsRelabelVisitor, hrelabel]
  cases hr : rewriteSelector cfgs vs with
  | none => simp [Visited.both]
  | some vs' =>
    have hcheck : vs'.text.check = true := by
      have hcheck := h.check
      rwa [hr, Option.all_some] at hcheck
    have hat : vs'.originalOffset = 0 ∧ vs'.timestamp = none := by
      obtain ⟨matchers, -, rfl⟩ := Option.map_eq_some_iff.mp hr
      obtain ⟨-, -, hoffset, htimestamp, -⟩ := labelMatchers_of_parseExpr hparse
      exact ⟨hoffset, htimestamp⟩
    simp only [Visited.both, backend_aggregateExpr, if_pos hcheck, hat.1, hat.2, lookupTime,
      Option.getD_none, Int.sub_zero, hop, Option.map_some, Option.any_some]

/-- Pushing an aggregation down below the relabelling gives the results of aggregating the relabelled
series, exactly if no label of a group is lost. -/
theorem metricsRelabelClient_aggregate_iff
    (hclient : newMetricsRelabelClient cfgs = .ok relabelCfgs) {op : ItemType}
    (hop : op ∈ composable) {text : SelectorText} {vs : VectorSelector D}
    (hparse : text.parseExpr = some vs) (grouping : List String) (without : Bool) (t : Int)
    (h : Sendable cfgs vs (src.instant t)) :
    ∃ pushed flat,
      ((metricsRelabelClient (backend src) cfgs relabelCfgs).query
          (.aggregateExpr op (.vectorSelector vs) .noExpr grouping without) t).bind
        (aggregation (outerOp op) .noValue grouping without) = some pushed ∧
      aggregation op .noValue grouping without
        (((src.instant t).map (mapMetric fun l => relabelProcess l relabelCfgs)).filter fun s =>
          selects vs.labelMatchers s.metric) = some flat ∧
      (pushed.Perm flat ↔ NoneLost cfgs grouping without ((src.instant t).filter fun s =>
        selects vs.labelMatchers (relabelProcess s.metric relabelCfgs))) := by
  obtain ⟨f, g, hr, hf, hg⟩ := exists_recombines hop
  rw [query_aggregateExpr hclient hparse grouping
      (fun grouping v => hf .noValue grouping without v) h, Option.bind_some, hg,
    hf]
  refine ⟨_, _, rfl, rfl, ?_⟩
  simp only [relabelProcess_eq hclient, List.filter_map]
  set selected := (src.instant t).filter fun s =>
    selects vs.labelMatchers (cfgs.reverse.foldr relabelBy s.metric)
  have hpushed := aggregateBy_mapMetric_aggregateBy (fun l => cfgs.reverse.foldr relabelBy l) hr
    (groupingLabels grouping without)
    (groupingLabels (rewriteLabels cfgs grouping) without) selected
  have hflat := aggregateBy_mapMetric (f := f) (fun l => cfgs.reverse.foldr relabelBy l)
    (groupingLabels grouping without) selected
  rw [← aggregate_perm_iff_noneLost]
  exact ⟨fun hperm => hpushed.symm.trans (hperm.trans hflat),
    fun hperm => hpushed.trans (hperm.trans hflat.symm)⟩

omit [Libraries] in
/-- A valid rule draws no label from one without a name. -/
theorem sourceLabel_ne {cfg : MetricRelabelConfig} (hvalid : cfg.validate = .ok ()) :
    cfg.sourceLabel ≠ "" := by
  intro hempty
  rw [MetricRelabelConfig.validate, hempty] at hvalid
  split at hvalid
  · cases hvalid
  · split at hvalid
    · cases hvalid
    · cases ha : cfg.action <;> simp [ha] at hvalid

/-- Rewriting a label finds its origin, if every rule that drops a label drops the one it names. -/
theorem origin_eq_rewriteLabelLoop {cfgs : List MetricRelabelConfig} {label : String}
    (hlabel : label ≠ "") (hvalid : ∀ cfg ∈ cfgs, cfg.validate = .ok ())
    (hdrop : ∀ cfg ∈ cfgs, cfg.action = .labelDrop →
      Regexp.matchString cfg.sourceLabel cfg.sourceLabel) :
    origin cfgs label = none ∨
      (origin cfgs label = some (rewriteLabelLoop cfgs label) ∧ rewriteLabelLoop cfgs label ≠ "") := by
  induction cfgs generalizing label with
  | nil => exact Or.inr ⟨rfl, hlabel⟩
  | cons cfg cfgs ih =>
    have hsource := sourceLabel_ne (hvalid cfg List.mem_cons_self)
    have hstep : originBy cfg label = none ∨
        (originBy cfg label = some (rewriteLabel cfg label) ∧ rewriteLabel cfg label ≠ "") := by
      rw [originBy, rewriteLabel]
      cases ha : cfg.action with
      | labelDrop =>
        have hself := hdrop cfg List.mem_cons_self ha
        by_cases hname : label = cfg.sourceLabel
        · simp [hname, hself]
        · cases hm : Regexp.matchString cfg.sourceLabel label with
          | true => simp
          | false => simp [hname, hlabel]
      | replace =>
        by_cases hname : label = cfg.targetLabel
        · simp [hname, hsource]
        · simp [hname, hlabel]
      | lowercase | uppercase =>
        by_cases hname : label = cfg.targetLabel
        · by_cases heq : cfg.sourceLabel = cfg.targetLabel
          · subst hname
            simp [heq, hlabel]
          · simp [hname, heq, hsource]
        · simp [hname, hlabel]
      | _ => simp [hlabel]
    rcases hstep with hnone | ⟨hsome, hne⟩
    · exact Or.inl (by rw [origin, hnone, Option.bind_none])
    · rw [origin, hsome, Option.bind_some, rewriteLabelLoop]
      exact ih hne (fun c hc => hvalid c (List.mem_cons_of_mem cfg hc))
        fun c hc => hdrop c (List.mem_cons_of_mem cfg hc)

/-- Grouping by labels loses none of them, if every rule that drops a label drops the one it names. -/
theorem noneLost_by {grouping : List String} (hempty : "" ∉ grouping)
    (hvalid : ∀ cfg ∈ cfgs, cfg.validate = .ok ())
    (hdrop : ∀ cfg ∈ cfgs, cfg.action = .labelDrop →
      Regexp.matchString cfg.sourceLabel cfg.sourceLabel) (v : InstantVector ℚ) :
    NoneLost cfgs grouping false v := by
  intro s _ name hkept _
  have hmem : name ∈ grouping := by simpa [kept] using hkept
  have hname : name ≠ "" := fun h => hempty (h ▸ hmem)
  rcases origin_eq_rewriteLabelLoop hname (fun c hc => hvalid c (List.mem_reverse.mp hc))
    (fun c hc => hdrop c (List.mem_reverse.mp hc)) with hnone | ⟨hsome, hne⟩
  · rw [hnone, Option.all_none]
  · rw [hsome, Option.all_some]
    simp only [kept, Bool.false_eq_true, if_false, List.contains_eq_mem, decide_eq_true_eq,
      rewriteLabels, List.mem_filter, List.mem_map]
    exact ⟨⟨name, hmem, rfl⟩, hne⟩

end

section

attribute [local instance] sortingLibraries asciiStrings

/-- `sum by (service) (up)`, where `service` is a copy of `job`. -/
theorem metricsRelabelClient_aggregate_by_service :
    ∃ pushed flat,
      ((metricsRelabelClient (backend (D := Empty)
          ⟨fun _ => [⟨(Labels.empty.set metricNameLabel "up").set "job" "api", 1⟩],
            fun _ _ => [], fun _ _ => none, fun _ => 60⟩)
          [⟨"job", "service", .replace⟩] [⟨.replace, allRegex, "job", "service", "$1"⟩]).query
          (.aggregateExpr .sum (.vectorSelector ⟨"up", [nameMatcher "up"], 0, none, 0, none⟩)
            .noExpr ["service"] false) 0).bind
        (aggregation .sum .noValue ["service"] false) = some pushed ∧
      aggregation .sum .noValue ["service"] false
        [⟨((Labels.empty.set metricNameLabel "up").set "job" "api").set "service" "api", 1⟩] =
        some flat ∧
      pushed.Perm flat := by
  have hclient : newMetricsRelabelClient [⟨"job", "service", .replace⟩] =
      .ok [⟨.replace, allRegex, "job", "service", "$1"⟩] := by decide +kernel
  have hparse : SelectorText.parseExpr ⟨"up", []⟩ =
      some (⟨"up", [nameMatcher "up"], 0, none, 0, none⟩ : VectorSelector Empty) := rfl
  have hsend : Sendable (D := Empty) [⟨"job", "service", .replace⟩]
      ⟨"up", [nameMatcher "up"], 0, none, 0, none⟩
      (Source.instant
        (⟨fun _ => [⟨(Labels.empty.set metricNameLabel "up").set "job" "api", 1⟩],
          fun _ _ => [], fun _ _ => none, fun _ => 60⟩ : Source Empty ℚ) 0) :=
    ⟨fun m _ => ⟨trivial, fun _ _ => trivial⟩, by decide +kernel, by decide +kernel⟩
  obtain ⟨pushed, flat, hpushed, hflat, hiff⟩ := metricsRelabelClient_aggregate_iff hclient
    (show ItemType.sum ∈ composable by decide) hparse ["service"] false 0 hsend
  refine ⟨pushed, flat, hpushed, (congrArg _ ?_).trans hflat, hiff.mpr fun s _ name hkept _ => ?_⟩
  · decide +kernel
  · have hname : name = "service" := by simpa [kept] using hkept
    subst hname
    decide +kernel

/-- `sum without (service) (up)`, where `service` is a copy of `job`: the results lose `job`. -/
theorem metricsRelabelClient_aggregate_without_service :
    ((metricsRelabelClient (backend (D := Empty)
          ⟨fun _ => [⟨(Labels.empty.set metricNameLabel "up").set "job" "api", 1⟩],
            fun _ _ => [], fun _ _ => none, fun _ => 60⟩)
          [⟨"job", "service", .replace⟩] [⟨.replace, allRegex, "job", "service", "$1"⟩]).query
          (.aggregateExpr .sum (.vectorSelector ⟨"up", [nameMatcher "up"], 0, none, 0, none⟩)
            .noExpr ["service"] true) 0).bind
        (aggregation .sum .noValue ["service"] true) = some [⟨Labels.empty, 1⟩] ∧
      aggregation .sum .noValue ["service"] true
        [⟨((Labels.empty.set metricNameLabel "up").set "job" "api").set "service" "api", 1⟩] =
        some [⟨Labels.empty.set "job" "api", 1⟩] := by
  decide +kernel

end

end Promclient
end Proxeus
