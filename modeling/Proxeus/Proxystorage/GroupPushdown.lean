import Proxeus.Proxystorage.AggregatePushdown

/-!
# Proxystorage.GroupPushdown

Correctness of the aggregations that `NodeReplacer` splits over server groups.

`walk_aggregate_eq_flat`: where any two groups have different values for a label of both, and no
series has a label of its group, the tree that is left of an aggregation over a selector has in the
engine the results that the aggregation has over the labelled series of all groups.
-/

namespace Proxeus
namespace Proxystorage

open Lib Promclient Promql

/-! ## Server groups -/

/-- The server of a group. The series it has are distinct, and have none of the group's labels. -/
structure ServerGroup extends Downstream where
  nodup : ∀ t, ((source.instant t).map VectorSample.metric).Nodup
  native : ∀ t, Lacks labels (source.instant t)

/-- The data of the engine are the labelled series of the groups. -/
structure Sees (src : Source (Response ℚ) ℚ) (groups : List ServerGroup) : Prop where
  instant : ∀ t, src.instant t = labelledParts groups (fun g => g.labels) fun g => g.source.instant t
  looksUp : LooksUp src

/-- The label that averages by the metric name need for themselves is not in use, and the metric names
are those of the series. -/
structure FreeWorkaroundLabel [Regexp] (groups : List ServerGroup) (grouping : List String)
    (vs : VectorSelector (Response ℚ)) (time : Int) : Prop where
  grouping : metricNameWorkaroundLabel ∉ grouping
  labels : ∀ g ∈ groups, metricNameLabel ∉ g.labels.names ∧ metricNameWorkaroundLabel ∉ g.labels.names
  series : ∀ g ∈ groups, ∀ s ∈ g.selected vs time, s.metric.get metricNameWorkaroundLabel = ""

section

variable [Regexp] {groups : List ServerGroup} {vs : VectorSelector (Response ℚ)} {time : Int}

theorem ServerGroup.nodup_selected (g : ServerGroup) :
    ((g.selected vs time).map VectorSample.metric).Nodup :=
  (g.nodup time).sublist (List.filter_sublist.map _)

theorem ServerGroup.lacks_selected (g : ServerGroup) : Lacks g.labels (g.selected vs time) :=
  (g.native time).mono fun _ hs => (List.mem_filter.mp hs).1

/-- The selected series of the engine's data are the labelled ones that the groups select. -/
theorem filter_labelledParts :
    (labelledParts groups (fun g => g.labels) fun g => g.source.instant time).filter
        (fun s => selects vs.labelMatchers s.metric) =
      labelledParts groups (fun g => g.labels) fun g => g.selected vs time := by
  rw [labelledParts, labelledParts, List.filter_flatMap]
  exact List.flatMap_congr fun g _ => List.filter_map

end

/-! ## Splitting is correct -/

section

variable [Libraries] [MergeSeriesSet] {groups : List ServerGroup} {p : ProxyStorage ℚ}
  {src : Source (Response ℚ) ℚ} {ts : Int} {vs : VectorSelector (Response ℚ)}

theorem sends_selector (hfronts : Fronts p (groups.map fun g => g.api)) (hsees : Sees src groups)
    (hparsed : vs.reparse = some vs)
    (hforwards : ∀ g ∈ groups, g.Forwards vs (lookupTime vs.timestamp vs.originalOffset ts)) :
    Sends p src ts [] groups ServerGroup.toDownstream (.vectorSelector vs) fun g =>
      some (g.selected vs (lookupTime vs.timestamp vs.originalOffset ts)) where
  fronts := hfronts
  looksUp := hsees.looksUp
  path := Clean.nil
  sent := sentOperand_selector hparsed hforwards

omit [MergeSeriesSet] in
/-- The aggregation over the engine's own data. -/
theorem eval_aggregateExpr_selector (hsees : Sees src groups) (hparsed : vs.reparse = some vs)
    {param : Expr (Response ℚ)} {value : Value ℚ} (hparam : Literal param value) (op : ItemType)
    (grouping : List String) (without : Bool) :
    eval src (.aggregateExpr op (.vectorSelector vs) param grouping without) ts =
      (aggregation op value grouping without (labelledParts groups (fun g => g.labels) fun g =>
        g.selected vs (lookupTime vs.timestamp vs.originalOffset ts))).map .vector := by
  have hreparse : (Expr.vectorSelector vs).reparse = some (.vectorSelector vs) := by
    rw [Expr.reparse, hparsed, Option.map_some]
  have hdata := fresh_vectorSelector.mp (fresh_of_reparse hreparse)
  rw [eval, eval, evalVectorSelector, hdata, hparam.eval, hsees.instant, filter_labelledParts]
  rfl

omit [Libraries] in
theorem keptApart_selected [Regexp] (hdist : groups.Pairwise fun g h => Distinguished g.labels h.labels)
    {time : Int} (agg : InstantVector ℚ → InstantVector ℚ) (hagg : ∀ v, (agg v).Subperm v) :
    KeptApart groups (fun g => g.labels) fun g => agg (g.selected vs time) := by
  refine keptApart hdist (fun g _ => ?_) fun g _ => g.lacks_selected.mono (hagg _).subset
  obtain ⟨l, hperm, hsub⟩ := hagg (g.selected vs time)
  exact (hperm.map VectorSample.metric).nodup_iff.mp (g.nodup_selected.sublist (hsub.map _))

omit [Libraries] in
theorem keptApart_aggregateBy
    (hdist : groups.Pairwise fun g h => Distinguished g.labels h.labels)
    {parts : ServerGroup → InstantVector ℚ} (hlacks : ∀ g ∈ groups, Lacks g.labels (parts g))
    (grouping : List String) (without : Bool) (f : List ℚ → ℚ) :
    KeptApart groups (fun g => g.labels) fun g =>
      aggregateBy (fun s => groupingLabels grouping without s.metric) f (parts g) := by
  refine keptApart hdist (fun g _ => nodup_aggregateBy _ _ _) fun g hg => ?_
  exact lacks_aggregateBy fun s hs name hname =>
    get_groupingLabels_eq_empty (hlacks g hg s hs name hname)

theorem partialsApart_selected
    (hdist : groups.Pairwise fun g h => Distinguished g.labels h.labels) {time : Int}
    (grouping : List String) (without : Bool) :
    PartialsApart groups (fun g => g.labels) (fun g => g.selected vs time) grouping without where
  aggregated := keptApart_aggregateBy hdist (fun g _ => g.lacks_selected) grouping without
  selected := keptApart_selected hdist
  counted valueLabel hnot := by
    refine keptApart hdist (fun g _ => nodup_aggregateBy _ _ _) fun g hg => ?_
    refine lacks_aggregateBy fun s hs name hname => get_groupingLabels_eq_empty ?_
    have hne : name ≠ valueLabel := fun heq => hnot g hg (List.ne_nil_of_mem hs) (heq ▸ hname)
    rw [Labels.get_set, if_neg hne]
    exact g.lacks_selected s hs name hname
  named hnot f := keptApart_aggregateBy hdist
    (fun g hg => lacks_copySample (hnot g hg) g.lacks_selected) (replacedGrouping grouping) without f

/-- The results of the aggregation that is sent, and of the one over the labelled series. -/
theorem pushes_split (hfronts : Fronts p (groups.map fun g => g.api))
    (hone : p.sgs.length ≠ 1) (hsees : Sees src groups)
    (hdist : groups.Pairwise fun g h => Distinguished g.labels h.labels)
    (hparsed : vs.reparse = some vs) {time : Int}
    (htime : time = lookupTime vs.timestamp vs.originalOffset ts)
    (hforwards : ∀ g ∈ groups, g.Forwards vs time)
    {op : ItemType} {param : Expr (Response ℚ)} (hsplit : SplitAggregation op param)
    (grouping : List String) (without : Bool)
    (hlabel : ∀ valueLabel, param = .stringLiteral valueLabel →
      ∀ g ∈ groups, valueLabel ∉ g.labels.names)
    (hfree : op = .avg → metricNameLabel ∈ grouping → FreeWorkaroundLabel groups grouping vs time) :
    ∃ value pushed flat, Literal param value ∧
      Pushes p src ts [] (.aggregateExpr op (.vectorSelector vs) param grouping without)
        (some pushed) ∧
      aggregation op value grouping without (labelledParts groups (fun g => g.labels) fun g =>
        g.selected vs time) = some flat ∧
      SameResults op grouping without (labelledParts groups (fun g => g.labels) fun g =>
        g.selected vs time) flat pushed := by
  subst htime
  have hlacks : ∀ g ∈ groups, Lacks g.labels
      (g.selected vs (lookupTime vs.timestamp vs.originalOffset ts)) := fun g _ => g.lacks_selected
  refine pushes_of_apart grouping without (sends_selector hfronts hsees hparsed hforwards)
    (nodup_of_distinguished hdist) hone (fun g _ => g.nodup_selected)
    (partialsApart_selected hdist grouping without) hsplit
    (fun valueLabel heq g hg _ => hlabel valueLabel heq g hg) fun havg hname => ?_
  have hfree := hfree havg hname
  exact ⟨hfree.grouping, hfree.labels, hfree.series⟩

theorem walk_aggregate_eq_flat (hfronts : Fronts p (groups.map fun g => g.api))
    (hsgs : p.sgs.length = groups.length) (htwo : 2 ≤ groups.length) (hsees : Sees src groups)
    (hdist : groups.Pairwise fun g h => Distinguished g.labels h.labels)
    (hparsed : vs.reparse = some vs) {time : Int}
    (htime : time = lookupTime vs.timestamp vs.originalOffset ts)
    (hforwards : ∀ g ∈ groups, g.Forwards vs time)
    {op : ItemType} {param : Expr (Response ℚ)} (hsplit : SplitAggregation op param)
    (grouping : List String) (without : Bool)
    (hlabel : ∀ valueLabel, param = .stringLiteral valueLabel →
      ∀ g ∈ groups, valueLabel ∉ g.labels.names)
    (hfree : op = .avg → metricNameLabel ∈ grouping → FreeWorkaroundLabel groups grouping vs time) :
    ∃ tree pushed flat,
      (∃ depth, ∀ fuel, depth ≤ fuel →
        walk p fuel (instantStmt ts) [] (.aggregateExpr op (.vectorSelector vs) param grouping
          without) = .ok (tree, true)) ∧
      eval src tree ts = some (.vector pushed) ∧
      eval src (.aggregateExpr op (.vectorSelector vs) param grouping without) ts =
        some (.vector flat) ∧
      SameResults op grouping without
        ((src.instant time).filter fun s => selects vs.labelMatchers s.metric) flat pushed := by
  obtain ⟨value, pushed, flat, hparam, ⟨tree, hwalk, heval⟩, hflat, hsame⟩ :=
    pushes_split hfronts (by omega) hsees hdist hparsed htime hforwards hsplit grouping without hlabel
      hfree
  refine ⟨tree, pushed, flat, hwalk, eval_of_toVector heval, ?_, ?_⟩
  · rw [eval_aggregateExpr_selector hsees hparsed hparam, ← htime, hflat, Option.map_some]
  · rw [hsees.instant, filter_labelledParts]
    exact hsame

end

/-! ## A proxy over two groups -/

section

variable [MergeSeriesSet]

/-- A proxy over servers, each the only one of a group. -/
def proxyOver (apis : List (QueryAPI (Response ℚ))) : ProxyStorage ℚ where
  sgs := apis.map fun _ => ⟨0, false, false, 0, fun _ => false⟩
  crossGroupExact := false
  client :=
    { query := fun _ e t => instantResponse t ((multiAPI apis).query e t)
      queryRange := fun _ _ _ _ _ => ⟨[], true⟩ }
  noStepSubqueryIntervalFn := fun _ => 60000

theorem fronts_proxyOver (apis : List (QueryAPI (Response ℚ))) : Fronts (proxyOver apis) apis where
  notExact := rfl
  metrics name := by simp [histogramNamePredicate, proxyOver]
  query _ _ := rfl

end

/-- A server that has the same series at all times. -/
def serverWith (labels : LabelSet) (series : InstantVector ℚ) : Downstream where
  labels := labels
  source := ⟨fun _ => series, fun _ _ => [], fun _ _ => none, fun _ => 60000⟩

/-- The data of the groups, for an engine that looks back for 5 minutes. -/
def seenBy (groups : List ServerGroup) : Source (Response ℚ) ℚ where
  instant t := labelledParts groups (fun g => g.labels) fun g => g.source.instant t
  window _ _ := []
  fetched := Response.lookup 300000
  noStepSubqueryInterval := fun _ => 60000

theorem sees_seenBy (groups : List ServerGroup) : Sees (seenBy groups) groups where
  instant _ := rfl
  looksUp := ⟨300000, by decide, rfl⟩

section

attribute [local instance] sortingLibraries mergeAcrossSets

def dcLabels (dc : String) : LabelSet := (Labels.empty.set "dc" dc).toLabelSet

/-- A group with one series. -/
def dcGroup (dc : String) (s : VectorSample ℚ) (hnative : Lacks (dcLabels dc) [s]) :
    ServerGroup where
  toDownstream := serverWith (dcLabels dc) [s]
  nodup _ := List.nodup_singleton _
  native _ := hnative

def up : Labels := Labels.empty.set metricNameLabel "up"

def upSelector : VectorSelector (Response ℚ) := ⟨"up", [nameMatcher "up"], 0, none, 0, none⟩

/-- `up{job="a"}` in one group and `up{job="b"}` in the other. -/
def twoJobs : List ServerGroup :=
  [dcGroup "eu" ⟨up.set "job" "a", 1⟩ (by decide +kernel),
    dcGroup "us" ⟨up.set "job" "b", 3⟩ (by decide +kernel)]

theorem walk_aggregate_eq_flat_by_name :
    ∃ tree pushed flat,
      (∃ depth, ∀ fuel, depth ≤ fuel →
        walk (proxyOver (twoJobs.map fun g => g.api)) fuel (instantStmt 0) []
          (.aggregateExpr .avg (.vectorSelector upSelector) .noExpr [metricNameLabel] false) =
            .ok (tree, true)) ∧
      eval (seenBy twoJobs) tree 0 = some (.vector pushed) ∧
      eval (seenBy twoJobs)
        (.aggregateExpr .avg (.vectorSelector upSelector) .noExpr [metricNameLabel] false) 0 =
          some (.vector flat) ∧
      SameResults .avg [metricNameLabel] false
        (((seenBy twoJobs).instant 0).filter fun s => selects upSelector.labelMatchers s.metric) flat
          pushed := by
  have hforwards : ∀ g ∈ twoJobs, g.Forwards upSelector 0 := by
    intro g hg
    refine ⟨?_, ?_, ?_⟩ <;> revert g <;> decide +kernel
  have hfree : FreeWorkaroundLabel twoJobs [metricNameLabel] upSelector 0 :=
    ⟨by decide +kernel, by decide +kernel, by decide +kernel⟩
  have hdist : twoJobs.Pairwise fun g h => Distinguished g.labels h.labels :=
    List.pairwise_pair.mpr ⟨"dc", "eu", "us", by decide +kernel, by decide +kernel, by decide⟩
  exact walk_aggregate_eq_flat (fronts_proxyOver _) rfl (by decide) (sees_seenBy twoJobs) hdist rfl rfl
    hforwards .avg [metricNameLabel] false (by rintro _ ⟨⟩) fun _ _ => hfree

/-- `up{__name="x"}` in one group. -/
def workaroundUsed : List ServerGroup :=
  [dcGroup "eu" ⟨up.set metricNameWorkaroundLabel "x", 1⟩ (by decide +kernel),
    dcGroup "us" ⟨up, 3⟩ (by decide +kernel)]

/-- An average without the metric name loses the label that it uses for itself. -/
theorem walk_avg_workaround_label :
    ∃ tree,
      walk (proxyOver (workaroundUsed.map fun g => g.api)) 20 (instantStmt 0) []
          (.aggregateExpr .avg (.vectorSelector upSelector) .noExpr [metricNameLabel] true) =
            .ok (tree, true) ∧
      (eval (seenBy workaroundUsed) tree 0).bind Value.toVector =
        some [⟨Labels.empty.set "dc" "eu", 1⟩, ⟨Labels.empty.set "dc" "us", 3⟩] ∧
      (eval (seenBy workaroundUsed)
        (.aggregateExpr .avg (.vectorSelector upSelector) .noExpr [metricNameLabel] true) 0).bind
          Value.toVector =
        some [⟨(Labels.empty.set "dc" "eu").set metricNameWorkaroundLabel "x", 1⟩,
          ⟨Labels.empty.set "dc" "us", 3⟩] := by
  refine ⟨_, rfl, ?_, ?_⟩
  · decide +kernel
  · decide +kernel

end

end Proxystorage
end Proxeus
