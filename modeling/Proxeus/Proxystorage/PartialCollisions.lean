import Proxeus.Promclient.MetricRelabelPushdown
import Proxeus.Proxystorage.ApplyConfigSpec
import Proxeus.Proxystorage.GroupPushdown

/-!
# Proxystorage.PartialCollisions

The partial results of two server groups may come out with the same labels. The groups are told apart
by their configured label sets as a whole, but what a partial result carries is the configured labels
together with the native ones that the aggregation leaves. `Collides` says of two groups and a series
of each whether some grouping makes them collide, and `partials_apart_iff` that this is all there is.
-/

namespace Proxeus
namespace Proxystorage

open Lib Promclient Promql

/-- A server group and what its backend evaluates the operand of an aggregation to. -/
structure NativeGroup where
  config : Servergroup.Config
  series : InstantVector ℚ

/-- The labels that one of the groups has natively where the other has them configured. -/
def Collides (ls ls' : LabelSet) (l l' : Labels) : Prop :=
  (∀ name value value', ls.lookup name = some value → ls'.lookup name = some value' →
      value = value') ∧
    (∀ name value, ls.lookup name = some value → value ≠ "" → ls'.lookup name = none →
      l'.get name = value) ∧
    ∀ name value, ls'.lookup name = some value → value ≠ "" → ls.lookup name = none →
      l.get name = value

/-! ## Groupings -/

/-- What is left of the labels of two series after a grouping by `p` and the labels of their groups. -/
theorem collides_of_restrict {ls ls' : LabelSet} {l l' : Labels} {p : String → Bool}
    (h : (l.restrict p).setAll ls.pairs = (l'.restrict p).setAll ls'.pairs) :
    Collides ls ls' l l' := by
  have hget : ∀ name, (ls.lookup name).getD (if p name then l.get name else "") =
      (ls'.lookup name).getD (if p name then l'.get name else "") := by
    intro name
    rw [← Labels.get_restrict, ← Labels.get_restrict, ← Labels.get_setAll, ← Labels.get_setAll, h]
  refine ⟨fun name value value' hv hv' => ?_, fun name value hv hne hnone => ?_,
    fun name value hv hne hnone => ?_⟩
  · have hname := hget name
    rwa [hv, hv', Option.getD_some, Option.getD_some] at hname
  · have hname := hget name
    rw [hv, hnone, Option.getD_some, Option.getD_none] at hname
    split at hname
    · exact hname.symm
    · exact absurd hname hne
  · have hname := hget name
    rw [hv, hnone, Option.getD_some, Option.getD_none] at hname
    split at hname
    · exact hname
    · exact absurd hname.symm hne

/-- The names that have to be left for two groups to collide. -/
def collidingNames (ls ls' : LabelSet) : List String :=
  (ls.names ++ ls'.names).filter fun name =>
    match ls.lookup name, ls'.lookup name with
    | some value, none => value ≠ ""
    | none, some value => value ≠ ""
    | _, _ => false

/-- Such a grouping makes the groups collide. It may also leave labels that come out the same. -/
theorem restrict_of_collides {ls ls' : LabelSet} {l l' : Labels} (h : Collides ls ls' l l')
    {p : String → Bool} (hp : ∀ name, p name = true → name ∈ collidingNames ls ls' ∨
      (l.setAll ls.pairs).get name = (l'.setAll ls'.pairs).get name)
    (hleft : ∀ name ∈ collidingNames ls ls', p name = true) :
    (l.restrict p).setAll ls.pairs = (l'.restrict p).setAll ls'.pairs := by
  refine Labels.ext_get fun name => ?_
  have hpname := hp name
  have hleftname := hleft name
  simp only [collidingNames, List.mem_filter, List.mem_append, LabelSet.mem_names_iff,
    Labels.get_setAll] at hpname hleftname
  rw [Labels.get_setAll, Labels.get_setAll, Labels.get_restrict, Labels.get_restrict]
  cases hv : ls.lookup name with
  | some value =>
    cases hv' : ls'.lookup name with
    | some value' => exact h.1 name value value' hv hv'
    | none =>
      simp only [hv, hv', Option.getD_some, Option.getD_none] at hpname hleftname ⊢
      by_cases hvalue : value = ""
      · subst hvalue
        split
        · rename_i hkept
          simpa using hpname hkept
        · rfl
      · rw [if_pos (hleftname (by simp [hvalue]))]
        exact (h.2.1 name value hv hvalue hv').symm
  | none =>
    cases hv' : ls'.lookup name with
    | some value' =>
      simp only [hv, hv', Option.getD_some, Option.getD_none] at hpname hleftname ⊢
      by_cases hvalue : value' = ""
      · subst hvalue
        split
        · rename_i hkept
          simpa using hpname hkept
        · rfl
      · rw [if_pos (hleftname (by simp [hvalue]))]
        exact h.2.2 name value' hv' hvalue hv
    | none =>
      simp only [hv, hv', Option.getD_none] at hpname ⊢
      split
      · rename_i hkept
        simpa using hpname hkept
      · rfl

/-! ## Partial results -/

section

variable [Libraries]

/-- The aggregations that are sent to the groups, with the values of their parameters. -/
inductive PushedAggregation : ItemType → Value ℚ → Prop where
  | composable {op : ItemType} (hop : op ∈ composable) : PushedAggregation op .noValue
  | selection {op : ItemType} (hop : op ∈ selections) (k : ℚ) : PushedAggregation op (.scalar k)
  | countValues (valueLabel : String) : PushedAggregation .countValues (.string valueLabel)

/-- What the `AddLabelClient` of a group returns for an aggregation. -/
def partialResult (op : ItemType) (param : Value ℚ) (grouping : List String) (without : Bool)
    (g : NativeGroup) : Option (InstantVector ℚ) :=
  (aggregation op param grouping without g.series).map (List.map (addLabels g.config.labels))

/-- The labels of a series with its value as one of them, as `count_values` groups it. -/
def valued (valueLabel : String) (s : VectorSample ℚ) : Labels :=
  s.metric.set valueLabel (Libraries.formatFloat s.value)

/-- The labels that an aggregation groups. -/
def grouped (param : Value ℚ) (s : VectorSample ℚ) : Labels :=
  match param with
  | .string valueLabel => valued valueLabel s
  | _ => s.metric

/-- The names that an aggregation leaves. -/
def leftNames (param : Value ℚ) (grouping : List String) (without : Bool) : String → Bool :=
  match param with
  | .string valueLabel => kept (countValuesGrouping grouping without valueLabel) without
  | .scalar _ => fun _ => true
  | _ => kept grouping without

omit [Libraries] in
theorem exists_of_mem_aggregateBy {key : VectorSample ℚ → Labels} {f : List ℚ → ℚ}
    {v : InstantVector ℚ} {l : Labels} :
    (∃ x ∈ aggregateBy key f v, x.metric = l) ↔ ∃ s ∈ v, key s = l := by
  have hkeys : l ∈ (aggregateBy key f v).map VectorSample.metric ↔ ∃ s ∈ v, key s = l := by
    rw [aggregateBy, map_metric_ofResults, mem_keys_aggregate]
  rw [← hkeys, List.mem_map]

theorem metric_of_mem_aggregation {op : ItemType} {param : Value ℚ}
    (hpushed : PushedAggregation op param) {grouping : List String} {without : Bool}
    {v pushed : InstantVector ℚ} (h : aggregation op param grouping without v = some pushed)
    {x : VectorSample ℚ} (hx : x ∈ pushed) :
    ∃ s ∈ v, x.metric = (grouped param s).restrict (leftNames param grouping without) := by
  cases hpushed with
  | composable hop =>
    obtain ⟨f, g, -, hagg, -⟩ := exists_recombines hop
    rw [hagg] at h
    cases h
    obtain ⟨s, hs, hkey⟩ := exists_of_mem_aggregateBy.mp ⟨x, hx, rfl⟩
    exact ⟨s, hs, hkey.symm.trans (groupingLabels_eq_restrict grouping without s.metric)⟩
  | selection hop k =>
    have hall : ∀ l : Labels, l.restrict (fun _ => true) = l := fun l =>
      Labels.ext_get fun name => by rw [Labels.get_restrict, if_pos rfl]
    have hmem : x ∈ v := by
      simp only [selections, List.mem_cons, List.not_mem_nil, or_false] at hop
      rcases hop with rfl | rfl
      · cases h
        exact mem_of_mem_selectBy (fun x => x) (Libraries.topk_isTop ⌊k⌋.toNat) x hx
      · cases h
        exact mem_of_mem_selectBy OrderDual.toDual (Libraries.bottomk_isTop ⌊k⌋.toNat) x hx
    exact ⟨x, hmem, (hall x.metric).symm⟩
  | countValues valueLabel =>
    cases h
    obtain ⟨s, hs, hkey⟩ := exists_of_mem_aggregateBy.mp ⟨x, hx, rfl⟩
    exact ⟨s, hs, hkey.symm.trans (groupingLabels_eq_restrict _ without _)⟩

/-- For no aggregation do the groups return partial results with the same labels. -/
def PairApart (g h : NativeGroup) : Prop :=
  ∀ op param grouping without, PushedAggregation op param →
    ∀ v v', partialResult op param grouping without g = some v →
      partialResult op param grouping without h = some v' →
      ∀ x ∈ v, ∀ y ∈ v', x.metric ≠ y.metric

/-- No two groups return partial results with the same labels. -/
def Apart (groups : List NativeGroup) : Prop :=
  groups.Pairwise PairApart

/-- The default merge returns every partial result as it is. -/
def Unmerged [MergeSeriesSet] (groups : List NativeGroup) : Prop :=
  ∀ op param grouping without, PushedAggregation op param →
    ∀ parts : NativeGroup → InstantVector ℚ,
      (∀ g ∈ groups, partialResult op param grouping without g = some (parts g)) →
      (mergeSeriesSets VectorSample.metric (groups.map parts)).Perm (groups.flatMap parts)

/-- The groups collide for no series of each, also with the value of the series as a label. -/
def NeverCollide (groups : List NativeGroup) : Prop :=
  groups.Pairwise fun g h => ∀ s ∈ g.series, ∀ s' ∈ h.series,
    ¬ Collides g.config.labels h.config.labels s.metric s'.metric ∧
      ∀ valueLabel, Collides g.config.labels h.config.labels (valued valueLabel s)
          (valued valueLabel s') →
        ((valued valueLabel s).setAll g.config.labels.pairs).get valueLabel ≠
          ((valued valueLabel s').setAll h.config.labels.pairs).get valueLabel

omit [Libraries] in
theorem kept_by (grouping : List String) (name : String) :
    kept grouping false name = true ↔ name ∈ grouping := by
  simp [kept]

variable {g h : NativeGroup}

omit [Libraries] in
/-- The labels of a series are those of one of the partial results. -/
theorem exists_of_mem_series (key : VectorSample ℚ → Labels) (f : List ℚ → ℚ) (ls : LabelSet)
    {v : InstantVector ℚ} {s : VectorSample ℚ} (hs : s ∈ v) :
    ∃ x ∈ (aggregateBy key f v).map (addLabels ls), x.metric = (key s).setAll ls.pairs := by
  obtain ⟨x, hx, hkey⟩ := exists_of_mem_aggregateBy.mpr ⟨s, hs, rfl⟩
  refine ⟨addLabels ls x, List.mem_map_of_mem hx, ?_⟩
  rw [addLabels, hkey]

theorem not_collides (hapart : PairApart g h) {s s' : VectorSample ℚ} (hs : s ∈ g.series)
    (hs' : s' ∈ h.series) : ¬ Collides g.config.labels h.config.labels s.metric s'.metric := by
  intro hcollides
  let grouping := collidingNames g.config.labels h.config.labels
  obtain ⟨x, hx, hxkey⟩ := exists_of_mem_series
    (fun s => groupingLabels grouping false s.metric) List.sum g.config.labels hs
  obtain ⟨y, hy, hykey⟩ := exists_of_mem_series
    (fun s => groupingLabels grouping false s.metric) List.sum h.config.labels hs'
  refine hapart .sum .noValue grouping false (.composable (by decide)) _ _ rfl rfl x hx y hy ?_
  rw [hxkey, hykey, groupingLabels_eq_restrict, groupingLabels_eq_restrict]
  refine restrict_of_collides hcollides (fun name hname => ?_) fun name hname => ?_
  · exact Or.inl ((kept_by grouping name).mp hname)
  · exact (kept_by grouping name).mpr hname

theorem not_collides_valued (hapart : PairApart g h) {s s' : VectorSample ℚ} (hs : s ∈ g.series)
    (hs' : s' ∈ h.series) (valueLabel : String)
    (hcollides : Collides g.config.labels h.config.labels (valued valueLabel s)
      (valued valueLabel s')) :
    ((valued valueLabel s).setAll g.config.labels.pairs).get valueLabel ≠
      ((valued valueLabel s').setAll h.config.labels.pairs).get valueLabel := by
  intro heq
  let grouping := collidingNames g.config.labels h.config.labels
  obtain ⟨x, hx, hxkey⟩ := exists_of_mem_series (countValuesKey grouping false valueLabel) countOf
    g.config.labels hs
  obtain ⟨y, hy, hykey⟩ := exists_of_mem_series (countValuesKey grouping false valueLabel) countOf
    h.config.labels hs'
  refine hapart .countValues (.string valueLabel) grouping false (.countValues valueLabel) _ _ rfl
    rfl x hx y hy ?_
  rw [hxkey, hykey, countValuesKey, countValuesKey, groupingLabels_eq_restrict,
    groupingLabels_eq_restrict]
  refine restrict_of_collides hcollides (fun name hname => ?_) fun name hname => ?_
  · rw [kept_by, countValuesGrouping, if_neg Bool.false_ne_true, List.mem_append,
      List.mem_singleton] at hname
    rcases hname with hname | rfl
    · exact Or.inl hname
    · exact Or.inr heq
  · rw [kept_by, countValuesGrouping, if_neg Bool.false_ne_true]
    exact List.mem_append_left _ hname

/-- Nothing else makes two partial results have the same labels. -/
theorem grouped_ne {s s' : VectorSample ℚ}
    (hmetric : ¬ Collides g.config.labels h.config.labels s.metric s'.metric)
    (hvalued : ∀ valueLabel, Collides g.config.labels h.config.labels (valued valueLabel s)
        (valued valueLabel s') →
      ((valued valueLabel s).setAll g.config.labels.pairs).get valueLabel ≠
        ((valued valueLabel s').setAll h.config.labels.pairs).get valueLabel)
    (param : Value ℚ) (grouping : List String) (without : Bool) :
    ((grouped param s).restrict (leftNames param grouping without)).setAll g.config.labels.pairs ≠
      ((grouped param s').restrict (leftNames param grouping without)).setAll
        h.config.labels.pairs := by
  intro heq
  cases param with
  | string valueLabel =>
    simp only [grouped, leftNames] at heq
    cases hleft : kept (countValuesGrouping grouping without valueLabel) without valueLabel with
    | true =>
      refine hvalued valueLabel (collides_of_restrict heq) ?_
      have hget := congrArg (fun l => Labels.get l valueLabel) heq
      simpa only [Labels.get_setAll, Labels.get_restrict, hleft, if_true] using hget
    | false =>
      have hset : ∀ s : VectorSample ℚ,
          (valued valueLabel s).restrict (kept (countValuesGrouping grouping without valueLabel)
            without) =
          s.metric.restrict (kept (countValuesGrouping grouping without valueLabel) without) := by
        intro s
        refine Labels.ext_get fun name => ?_
        rw [Labels.get_restrict, Labels.get_restrict, valued, Labels.get_set]
        by_cases hname : name = valueLabel
        · rw [hname, hleft]
          rfl
        · rw [if_neg hname]
      rw [hset, hset] at heq
      exact hmetric (collides_of_restrict heq)
  | _ => exact hmetric (collides_of_restrict heq)

theorem apart_iff_neverCollide (groups : List NativeGroup) :
    Apart groups ↔ NeverCollide groups := by
  refine List.Pairwise.iff fun {g h} => ⟨fun hapart s hs s' hs' => ?_, fun hnever => ?_⟩
  · exact ⟨not_collides hapart hs hs', fun valueLabel => not_collides_valued hapart hs hs' valueLabel⟩
  · intro op param grouping without hpushed v v' hv hv' x hx y hy
    obtain ⟨w, hw, rfl⟩ := Option.map_eq_some_iff.mp hv
    obtain ⟨w', hw', rfl⟩ := Option.map_eq_some_iff.mp hv'
    obtain ⟨x₀, hx₀, rfl⟩ := List.mem_map.mp hx
    obtain ⟨y₀, hy₀, rfl⟩ := List.mem_map.mp hy
    obtain ⟨s, hs, hxs⟩ := metric_of_mem_aggregation hpushed hw hx₀
    obtain ⟨s', hs', hys⟩ := metric_of_mem_aggregation hpushed hw' hy₀
    obtain ⟨hmetric, hvalued⟩ := hnever s hs s' hs'
    rw [addLabels, addLabels, hxs, hys]
    exact grouped_ne hmetric hvalued param grouping without

/-- **Partial results of two groups.** They have different labels for every aggregation, and none of
them is lost in the merge, exactly if the groups never collide. -/
theorem partials_apart_iff [MergeSeriesSet] (hmerges : MergesAcross) (groups : List NativeGroup) :
    Apart groups ∧ Unmerged groups ↔ NeverCollide groups := by
  rw [← apart_iff_neverCollide]
  refine and_iff_left_of_imp fun hapart => ?_
  intro op param grouping without hpushed parts hparts
  rw [List.flatMap_def]
  refine mergeSeriesSets_perm_of_pairwise hmerges ?_
  rw [List.pairwise_map]
  refine hapart.imp_of_mem fun {g h} hg hh hne => ?_
  exact hne op param grouping without hpushed _ _ (hparts g hg) (hparts h hh)

end

section

attribute [local instance] sortingLibraries mergeAcrossSets

def nativeGroup (labels : LabelSet) (series : InstantVector ℚ) : NativeGroup :=
  ⟨⟨0, "", labels⟩, series⟩

/-- `up{job="a"}` in `{dc="eu"}` and `up{job="b"}` in `{dc="us"}`. -/
def nativeJobs : List NativeGroup :=
  [nativeGroup (dcLabels "eu") [⟨up.set "job" "a", 1⟩],
    nativeGroup (dcLabels "us") [⟨up.set "job" "b", 3⟩]]

theorem partials_apart_dc : Apart nativeJobs ∧ Unmerged nativeJobs := by
  refine (partials_apart_iff mergesAcross_mergeAcrossSets nativeJobs).mpr ?_
  refine List.pairwise_pair.mpr fun s _ s' _ => ?_
  have hdc : ∀ l l' : Labels, ¬ Collides (dcLabels "eu") (dcLabels "us") l l' := fun l l' h =>
    absurd (h.1 "dc" "eu" "us" (by decide +kernel) (by decide +kernel)) (by decide)
  exact ⟨hdc _ _, fun valueLabel h => absurd h (hdc _ _)⟩

/-- `{a="1"}` has a series with `b="2"` and `{b="2"}` one with `a="1"`. -/
def crossed : List NativeGroup :=
  [nativeGroup (Labels.empty.set "a" "1").toLabelSet [⟨up.set "b" "2", 1⟩],
    nativeGroup (Labels.empty.set "b" "2").toLabelSet [⟨up.set "a" "1", 3⟩]]

/-- Both groups return a partial result for `{a="1",b="2"}`, of which the merge keeps one. -/
theorem partials_crossed :
    @Proxyconfig.validateUniqueServerGroupLabels ApplyConfig.plainPackage
        (crossed.map NativeGroup.config) = .ok () ∧
      crossed.map (partialResult .sum .noValue ["a", "b"] false) =
        [some [⟨(Labels.empty.set "a" "1").set "b" "2", 1⟩],
          some [⟨(Labels.empty.set "a" "1").set "b" "2", 3⟩]] ∧
      (mergeSeriesSets VectorSample.metric
        [[⟨(Labels.empty.set "a" "1").set "b" "2", (1 : ℚ)⟩],
          [⟨(Labels.empty.set "a" "1").set "b" "2", 3⟩]]).length = 1 := by
  decide +kernel

end

end Proxystorage
end Proxeus
