import Proxeus.Proxystorage.GroupPushdown

/-!
# Proxystorage.TargetAverages

Averages over the targets of the only server group, which `NodeReplacer` sends as they stand. Every
target averages its own series, and the engine averages what the merge leaves of the averages.
`Balanced` says of the labels of the series when this is the average of the merged series, whatever the
values are; `pushes_avg_single_iff` that it is not otherwise.
-/

namespace Proxeus
namespace Proxystorage

open Lib Promclient Promql

/-! ## The series and the averages of the targets -/

section

variable {ι : Type*} (labels : ι → LabelSet) (held : ι → List Labels) (targets : List ι)
  (grouping : List String) (without : Bool)

/-- The labels of a series or an average of a target, with the labels of the target. -/
def labelledAs (x : ι × Labels) : Labels := x.2.setAll (labels x.1).pairs

/-- The labels of the result that a series or an average of a target goes into. -/
def resultOf (x : ι × Labels) : Labels := groupingLabels grouping without (labelledAs labels x)

/-- The average of the target that a series goes into. -/
def averageOf (x : ι × Labels) : ι × Labels := (x.1, groupingLabels grouping without x.2)

def seriesSets : List (List (ι × Labels)) := targets.map fun g => (held g).map fun l => (g, l)

/-- The averages that the targets return, in the order of their first series. -/
def averageSets : List (List (ι × Labels)) :=
  targets.map fun g =>
    ((group (groupingLabels grouping without) (fun _ => ()) (fun _ _ => ()) (held g)).map
      Prod.fst).map fun l => (g, l)

/-- The series that go into an average. -/
def averaged (q : ι × Labels) : List (ι × Labels) :=
  ((held q.1).filter fun l => groupingLabels grouping without l = q.2).map fun l => (q.1, l)

/-- The series with values. -/
def valuedSeries (values : ι × Labels → ℚ) (g : ι) : InstantVector ℚ :=
  (held g).map fun l => ⟨l, values (g, l)⟩

variable [MergeSeriesSet]

def keptSeries : List (ι × Labels) := mergeSeriesSets (labelledAs labels) (seriesSets held targets)

def keptAverages : List (ι × Labels) :=
  mergeSeriesSets (labelledAs labels) (averageSets held targets grouping without)

/-- The merge keeps a series exactly if it keeps the average that the series goes into, and the kept
averages of one result are of equally many series. -/
structure Balanced : Prop where
  kept : ∀ g ∈ targets, ∀ l ∈ held g, (g, l) ∈ keptSeries labels held targets ↔
    averageOf grouping without (g, l) ∈ keptAverages labels held targets grouping without
  sizes : ∀ q ∈ keptAverages labels held targets grouping without,
    ∀ q' ∈ keptAverages labels held targets grouping without,
      resultOf labels grouping without q = resultOf labels grouping without q' →
        (averaged held grouping without q).length = (averaged held grouping without q').length

variable {labels held targets grouping without}

omit [MergeSeriesSet] in
theorem mem_seriesSets {x : ι × Labels} :
    x ∈ (seriesSets held targets).flatten ↔ x.1 ∈ targets ∧ x.2 ∈ held x.1 := by
  rw [seriesSets, ← List.flatMap_def, List.mem_flatMap]
  constructor
  · rintro ⟨g, hg, hx⟩
    obtain ⟨l, hl, rfl⟩ := List.mem_map.mp hx
    exact ⟨hg, hl⟩
  · rintro ⟨hg, hl⟩
    exact ⟨x.1, hg, List.mem_map_of_mem hl⟩

omit [MergeSeriesSet] in
theorem mem_averageSets {q : ι × Labels} :
    q ∈ (averageSets held targets grouping without).flatten ↔
      q.1 ∈ targets ∧ ∃ l ∈ held q.1, groupingLabels grouping without l = q.2 := by
  rw [averageSets, ← List.flatMap_def, List.mem_flatMap]
  constructor
  · rintro ⟨g, hg, hx⟩
    obtain ⟨l, hl, rfl⟩ := List.mem_map.mp hx
    exact ⟨hg, mem_keys_group.mp hl⟩
  · rintro ⟨hg, hl⟩
    exact ⟨q.1, hg, List.mem_map_of_mem (mem_keys_group.mpr hl)⟩

omit [MergeSeriesSet] in
theorem mem_averaged {q x : ι × Labels} :
    x ∈ averaged held grouping without q ↔ x.2 ∈ held x.1 ∧ averageOf grouping without x = q := by
  rw [averaged, List.mem_map]
  constructor
  · rintro ⟨l, hl, rfl⟩
    rw [List.mem_filter, decide_eq_true_eq] at hl
    exact ⟨hl.1, Prod.ext rfl hl.2⟩
  · rintro ⟨hl, rfl⟩
    exact ⟨x.2, List.mem_filter.mpr ⟨hl, decide_eq_true rfl⟩, rfl⟩

omit [MergeSeriesSet] in
theorem resultOf_averageOf (x : ι × Labels) :
    resultOf labels grouping without (averageOf grouping without x) =
      resultOf labels grouping without x :=
  groupingLabels_setAll grouping without x.2 (labels x.1)

omit [MergeSeriesSet] in
/-- The elements of the targets are distinct if those of each are. -/
theorem nodup_sets (htargets : targets.Nodup) {part : ι → List Labels}
    (h : ∀ g ∈ targets, (part g).Nodup) :
    (targets.map fun g => (part g).map fun l => (g, l)).flatten.Nodup := by
  rw [← List.flatMap_def, List.nodup_flatMap]
  refine ⟨fun g hg => (h g hg).map fun l l' heq => (Prod.mk.inj heq).2, htargets.imp ?_⟩
  intro g g' hne x hx hx'
  obtain ⟨l, -, rfl⟩ := List.mem_map.mp hx
  obtain ⟨l', -, heq⟩ := List.mem_map.mp hx'
  exact hne (Prod.mk.inj heq).1.symm

theorem nodup_keptSeries (htargets : targets.Nodup) (hheld : ∀ g ∈ targets, (held g).Nodup) :
    (keptSeries labels held targets).Nodup :=
  nodup_mergeSeriesSets _ (nodup_sets htargets hheld)

theorem nodup_keptAverages (htargets : targets.Nodup) :
    (keptAverages labels held targets grouping without).Nodup :=
  nodup_mergeSeriesSets _ (nodup_sets htargets fun g _ => nodup_group (held g))

theorem nodup_flatMap_averaged (htargets : targets.Nodup) (hheld : ∀ g ∈ targets, (held g).Nodup) :
    ((keptAverages labels held targets grouping without).flatMap
      (averaged held grouping without)).Nodup := by
  rw [List.nodup_flatMap]
  refine ⟨fun q hq => ?_, (nodup_keptAverages htargets).imp fun {q q'} hne x hx hx' => ?_⟩
  · have hmem := mem_averageSets.mp (mem_of_mem_mergeSeriesSets hq)
    exact ((hheld q.1 hmem.1).filter _).map fun l l' heq => (Prod.mk.inj heq).2
  · exact hne ((mem_averaged.mp hx).2.symm.trans (mem_averaged.mp hx').2)

/-- The kept averages and the kept series have the same results. -/
theorem results_iff (l : Labels) :
    (∃ q ∈ keptAverages labels held targets grouping without,
        resultOf labels grouping without q = l) ↔
      ∃ x ∈ keptSeries labels held targets, resultOf labels grouping without x = l := by
  constructor
  · rintro ⟨q, hq, rfl⟩
    obtain ⟨htarget, l, hl, hkey⟩ := mem_averageSets.mp (mem_of_mem_mergeSeriesSets hq)
    have hseries : (q.1, l) ∈ (seriesSets held targets).flatten := mem_seriesSets.mpr ⟨htarget, hl⟩
    obtain ⟨y, hy, hlabels⟩ := exists_mem_mergeSeriesSets (labelledAs labels) hseries
    have haverage : averageOf grouping without (q.1, l) = q := Prod.ext rfl hkey
    refine ⟨y, hy, ?_⟩
    rw [resultOf, hlabels, ← haverage, resultOf_averageOf]
    rfl
  · rintro ⟨x, hx, rfl⟩
    have hseries := mem_seriesSets.mp (mem_of_mem_mergeSeriesSets hx)
    have haverage : averageOf grouping without x ∈
        (averageSets held targets grouping without).flatten :=
      mem_averageSets.mpr ⟨hseries.1, x.2, hseries.2, rfl⟩
    obtain ⟨q, hq, hlabels⟩ := exists_mem_mergeSeriesSets (labelledAs labels) haverage
    refine ⟨q, hq, ?_⟩
    rw [resultOf, hlabels, ← resultOf_averageOf]
    rfl

theorem balanced_iff :
    Balanced labels held targets grouping without ↔
      (∀ x, x ∈ keptSeries labels held targets ↔
        ∃ q ∈ keptAverages labels held targets grouping without,
          x ∈ averaged held grouping without q) ∧
        ∀ q ∈ keptAverages labels held targets grouping without,
          ∀ q' ∈ keptAverages labels held targets grouping without,
            resultOf labels grouping without q = resultOf labels grouping without q' →
              (averaged held grouping without q).length =
                (averaged held grouping without q').length := by
  have hex : ∀ x : ι × Labels, (∃ q ∈ keptAverages labels held targets grouping without,
      x ∈ averaged held grouping without q) ↔ x.2 ∈ held x.1 ∧
        averageOf grouping without x ∈ keptAverages labels held targets grouping without := by
    intro x
    simp only [mem_averaged]
    constructor
    · rintro ⟨-, hq, hx, rfl⟩
      exact ⟨hx, hq⟩
    · rintro ⟨hx, hq⟩
      exact ⟨_, hq, hx, rfl⟩
  simp only [hex]
  constructor
  · rintro ⟨hkept, hsizes⟩
    refine ⟨fun x => ⟨fun hx => ?_, fun hx => ?_⟩, hsizes⟩
    · have hmem := mem_seriesSets.mp (mem_of_mem_mergeSeriesSets hx)
      exact ⟨hmem.2, (hkept x.1 hmem.1 x.2 hmem.2).mp hx⟩
    · have hmem := mem_averageSets.mp (mem_of_mem_mergeSeriesSets hx.2)
      exact (hkept x.1 hmem.1 x.2 hx.1).mpr hx.2
  · rintro ⟨hkept, hsizes⟩
    exact ⟨fun g _ l hl => (hkept (g, l)).trans (and_iff_right hl), hsizes⟩

/-! ## Averaging -/

variable (values : ι × Labels → ℚ)

/-- What the merge leaves of the labelled series. -/
theorem mergeSeriesSets_valuedSeries :
    mergeSeriesSets VectorSample.metric
        (targets.map fun g => (valuedSeries held values g).map (addLabels (labels g))) =
      (keptSeries labels held targets).map fun x => ⟨labelledAs labels x, values x⟩ := by
  rw [keptSeries]
  show _ = List.map _ (mergeSeriesSets (VectorSample.metric ∘ fun x : ι × Labels =>
    (⟨labelledAs labels x, values x⟩ : VectorSample ℚ)) _)
  rw [← mergeSeriesSets_map, seriesSets, List.map_map]
  refine congrArg _ (List.map_congr_left fun g _ => ?_)
  rw [valuedSeries, List.map_map, Function.comp_apply, List.map_map]
  rfl

omit [MergeSeriesSet] in
/-- The averages of a target. -/
theorem aggregateBy_valuedSeries (g : ι) :
    aggregateBy (fun s => groupingLabels grouping without s.metric) mean (valuedSeries held values g) =
      ((group (groupingLabels grouping without) (fun _ => ()) (fun _ _ => ()) (held g)).map
        Prod.fst).map fun l => ⟨l, mean ((averaged held grouping without (g, l)).map values)⟩ := by
  have haveraged : ∀ l, (averaged held grouping without (g, l)).map values =
      ((held g).filter fun l' => groupingLabels grouping without l' = l).map fun l' =>
        values (g, l') := by
    intro l
    rw [averaged, List.map_map]
    rfl
  simp only [haveraged]
  rw [aggregateBy, valuedSeries, aggregate_map_eq, aggregate_eq_map, ofResults, List.map_map]
  rfl

/-- What it leaves of the labelled averages. -/
theorem mergeSeriesSets_averages :
    mergeSeriesSets VectorSample.metric (targets.map fun g =>
        (aggregateBy (fun s => groupingLabels grouping without s.metric) mean
          (valuedSeries held values g)).map (addLabels (labels g))) =
      (keptAverages labels held targets grouping without).map fun q =>
        ⟨labelledAs labels q, mean ((averaged held grouping without q).map values)⟩ := by
  rw [keptAverages]
  show _ = List.map _ (mergeSeriesSets (VectorSample.metric ∘ fun q : ι × Labels =>
    (⟨labelledAs labels q, mean ((averaged held grouping without q).map values)⟩ :
      VectorSample ℚ)) _)
  rw [← mergeSeriesSets_map, averageSets, List.map_map]
  refine congrArg _ (List.map_congr_left fun g _ => ?_)
  rw [aggregateBy_valuedSeries]
  simp only [Function.comp_apply, List.map_map]
  rfl

omit [MergeSeriesSet] in
theorem ofResults_perm_iff {results results' : List (Labels × ℚ)} :
    (ofResults results).Perm (ofResults results') ↔ results.Perm results' := by
  refine List.map_perm_map_iff fun p q heq => ?_
  exact Prod.ext (congrArg VectorSample.metric heq) (congrArg VectorSample.value heq)

/-- The average of the averages is the average of the series, for all values. -/
theorem averages_iff (htargets : targets.Nodup) (hheld : ∀ g ∈ targets, (held g).Nodup) :
    (∀ values : ι × Labels → ℚ,
      (aggregateBy (fun s => groupingLabels grouping without s.metric) mean
        (mergeSeriesSets VectorSample.metric (targets.map fun g =>
          (aggregateBy (fun s => groupingLabels grouping without s.metric) mean
            (valuedSeries held values g)).map (addLabels (labels g))))).Perm
        (aggregateBy (fun s => groupingLabels grouping without s.metric) mean
          (mergeSeriesSets VectorSample.metric (targets.map fun g =>
            (valuedSeries held values g).map (addLabels (labels g)))))) ↔
      Balanced labels held targets grouping without := by
  classical
  have hne : ∀ q ∈ keptAverages labels held targets grouping without,
      averaged held grouping without q ≠ [] := by
    intro q hq
    obtain ⟨-, l, hl, hkey⟩ := mem_averageSets.mp (mem_of_mem_mergeSeriesSets hq)
    have hmem : (q.1, l) ∈ averaged held grouping without q :=
      mem_averaged.mpr ⟨hl, Prod.ext rfl hkey⟩
    exact List.ne_nil_of_mem hmem
  have hresult : ∀ q ∈ keptAverages labels held targets grouping without,
      ∀ x ∈ averaged held grouping without q,
        resultOf labels grouping without x = resultOf labels grouping without q := by
    intro q _ x hx
    rw [← (mem_averaged.mp hx).2, resultOf_averageOf]
  rw [balanced_iff, ← aggregate_means_iff (K := ℚ) hne (nodup_flatMap_averaged htargets hheld)
    (nodup_keptSeries htargets hheld) hresult results_iff]
  refine forall_congr' fun values => ?_
  rw [mergeSeriesSets_averages, mergeSeriesSets_valuedSeries, aggregateBy, aggregateBy,
    ofResults_perm_iff, aggregate_map_eq, aggregate_map_eq]
  rfl

end

/-! ## The only server group -/

section

variable [Libraries] [MergeSeriesSet]

omit [MergeSeriesSet] in
/-- The walk and the engine are functions. -/
theorem Pushes.unique {p : ProxyStorage ℚ} {src : Source (Response ℚ) ℚ} {ts : Int}
    {path : List (Expr (Response ℚ))} {e : Expr (Response ℚ)} {v v' : Option (InstantVector ℚ)}
    (h : Pushes p src ts path e v) (h' : Pushes p src ts path e v') : v = v' := by
  obtain ⟨tree, ⟨depth, hdepth⟩, rfl⟩ := h
  obtain ⟨tree', ⟨depth', hdepth'⟩, rfl⟩ := h'
  have hwalk := hdepth (max depth depth') (le_max_left _ _)
  rw [hdepth' (max depth depth') (le_max_right _ _), Except.ok.injEq, Prod.mk.injEq] at hwalk
  rw [hwalk.1]

variable {ι : Type*} {targets : List ι} {ts : Int} {path : List (Expr (Response ℚ))}
  {e : Expr (Response ℚ)} (grouping : List String) (without : Bool)

/-- With one server group, an average is sent as it stands. -/
theorem pushes_avg_single {p : ProxyStorage ℚ} {src : Source (Response ℚ) ℚ} {down : ι → Downstream}
    {parts : ι → InstantVector ℚ}
    (h : Sends p src ts path targets down e fun g => some (parts g)) (hone : p.sgs.length = 1) :
    Pushes p src ts path (.aggregateExpr .avg e .noExpr grouping without)
      (some (aggregateBy (fun s => groupingLabels grouping without s.metric) mean
        (mergeSeriesSets VectorSample.metric (targets.map fun g =>
          (aggregateBy (fun s => groupingLabels grouping without s.metric) mean (parts g)).map
            (addLabels (down g).labels))))) := by
  have hpushes := (h.becomes grouping without .noExpr .noExpr _
    (aggregateBy_nil (fun s => groupingLabels grouping without s.metric) mean) (fun _ => rfl)
    fun r hlossy => outcome_replaceAggregate .noExpr h.sent.noData hlossy
      (Or.inr ⟨rfl, rfl, hone⟩)).pushes
  simp only [Option.map_some, allAnswers_map_some, Option.bind_some] at hpushes
  exact hpushes

variable {labels : ι → LabelSet} {held : ι → List Labels}
  {p : (ι × Labels → ℚ) → ProxyStorage ℚ} {src : (ι × Labels → ℚ) → Source (Response ℚ) ℚ}
  {down : (ι × Labels → ℚ) → ι → Downstream}

/-- **Averages over the targets of one server group.** The average that is sent as it stands has the
results of the average over the merged labelled series of all targets, whatever the values are, exactly
if the series are balanced. -/
theorem pushes_avg_single_iff
    (hsends : ∀ values, Sends (p values) (src values) ts path targets (down values) e fun g =>
      some (valuedSeries held values g))
    (hlabels : ∀ values g, (down values g).labels = labels g)
    (hone : ∀ values, (p values).sgs.length = 1) (htargets : targets.Nodup)
    (hheld : ∀ g ∈ targets, (held g).Nodup) :
    (∀ values, ∃ pushed flat,
      Pushes (p values) (src values) ts path (.aggregateExpr .avg e .noExpr grouping without)
        (some pushed) ∧
      aggregation .avg .noValue grouping without (mergeSeriesSets VectorSample.metric
        (targets.map fun g => (valuedSeries held values g).map (addLabels (labels g)))) = some flat ∧
      pushed.Perm flat) ↔
    Balanced labels held targets grouping without := by
  rw [← averages_iff htargets hheld]
  refine forall_congr' fun values => ?_
  have hpushes : Pushes (p values) (src values) ts path _ (some _) :=
    pushes_avg_single grouping without (hsends values) (hone values)
  simp only [hlabels] at hpushes
  constructor
  · rintro ⟨pushed, flat, hpushed, hflat, hperm⟩
    cases Option.some.inj (hpushed.unique hpushes)
    cases hflat
    exact hperm
  · intro hperm
    exact ⟨_, _, hpushes, rfl, hperm⟩

end

/-! ## A proxy over two targets -/

section

variable [MergeSeriesSet]

/-- A proxy with one server group. -/
def singleGroup (targets : List (QueryAPI (Response ℚ))) : ProxyStorage ℚ where
  sgs := [⟨0, false, false, 0, fun _ => false⟩]
  crossGroupExact := false
  client :=
    { query := fun _ e t => instantResponse t ((multiAPI [multiAPI targets]).query e t)
      queryRange := fun _ _ _ _ _ => ⟨[], true⟩ }
  noStepSubqueryIntervalFn := fun _ => 60000

/-- The merge over the groups leaves the answer of the only one as it is. -/
theorem fronts_singleGroup (targets : List (QueryAPI (Response ℚ))) :
    Fronts (singleGroup targets) targets where
  notExact := rfl
  metrics name := by simp [histogramNamePredicate, singleGroup]
  query e t := by
    show instantResponse t ((allAnswers [(multiAPI targets).query e t]).map _) = _
    cases (multiAPI targets).query e t with
    | none => rfl
    | some v => rfl

end

section

attribute [local instance] sortingLibraries mergeAcrossSets

def instanceLabels (g : String) : LabelSet := (Labels.empty.set "instance" g).toLabelSet

def instanceServer (held : String → List Labels) (values : String × Labels → ℚ) (g : String) :
    Downstream :=
  serverWith (instanceLabels g) (valuedSeries held values g)

/-- The selector is sent to the servers, which select all of their series. -/
theorem sentOperand_upSelector {labels : String → LabelSet} {targets : List String}
    {held : String → List Labels}
    (hcheck : ∀ g ∈ targets, (filterSelector (labels g) upSelector).all fun vs => vs.text.check)
    (hup : ∀ g ∈ targets, ∀ l ∈ held g, l.get metricNameLabel = "up" ∧
      selects upSelector.labelMatchers (l.setAll (labels g).pairs))
    (values : String × Labels → ℚ) :
    SentOperand targets (fun g => serverWith (labels g) (valuedSeries held values g)) 0
      (.vectorSelector upSelector) fun g => some (valuedSeries held values g) := by
  have hselected : ∀ g ∈ targets, (serverWith (labels g) (valuedSeries held values g)).selected
      upSelector 0 = valuedSeries held values g := by
    intro g hg
    refine List.filter_eq_self.mpr fun s hs => ?_
    obtain ⟨l, hl, rfl⟩ := List.mem_map.mp hs
    exact (hup g hg l hl).2
  have hname : ∀ g ∈ targets, ∀ s ∈ (serverWith (labels g) (valuedSeries held values g)).selected
      upSelector 0, s.metric.get metricNameLabel = "up" := by
    intro g hg s hs
    rw [hselected g hg] at hs
    obtain ⟨l, hl, rfl⟩ := List.mem_map.mp hs
    exact (hup g hg l hl).1
  have hforwards : ∀ g ∈ targets, (serverWith (labels g) (valuedSeries held values g)).Forwards
      upSelector 0 := by
    intro g hg
    refine ⟨hcheck g hg, fun _ s hs => ?_, fun s hs => Or.inr (hname g hg s hs)⟩
    rw [hname g hg s hs]
    decide
  exact (sentOperand_selector rfl hforwards).congr fun g hg => congrArg some (hselected g hg)

theorem sends_upSelector {targets : List String} {held : String → List Labels}
    (hcheck : ∀ g ∈ targets, (filterSelector (instanceLabels g) upSelector).all fun vs =>
      vs.text.check)
    (hup : ∀ g ∈ targets, ∀ l ∈ held g, l.get metricNameLabel = "up" ∧
      selects upSelector.labelMatchers (l.setAll (instanceLabels g).pairs))
    (values : String × Labels → ℚ) :
    Sends (singleGroup (targets.map fun g => (instanceServer held values g).api)) (seenBy []) 0 []
      targets (instanceServer held values) (.vectorSelector upSelector) fun g =>
        some (valuedSeries held values g) where
  fronts := fronts_singleGroup _
  looksUp := ⟨300000, by decide, rfl⟩
  path := Clean.nil
  sent := sentOperand_upSelector hcheck hup values

def oneJob : String → List Labels
  | "a" => [up.set "job" "a"]
  | _ => [up.set "job" "b"]

theorem balanced_oneJob : Balanced instanceLabels oneJob ["a", "b"] [] false where
  kept := by decide +kernel
  sizes := by decide +kernel

def oneAndThree (x : String × Labels) : ℚ := if x.1 = "a" then 1 else 3

/-- With one series on each target, the average of the averages is the average of the series. -/
theorem pushes_avg_single_one_job :
    ∃ pushed flat,
      Pushes (singleGroup (["a", "b"].map fun g => (instanceServer oneJob oneAndThree g).api))
        (seenBy []) 0 [] (.aggregateExpr .avg (.vectorSelector upSelector) .noExpr [] false)
        (some pushed) ∧
      aggregation .avg .noValue [] false (mergeSeriesSets VectorSample.metric
        (["a", "b"].map fun g =>
          (valuedSeries oneJob oneAndThree g).map (addLabels (instanceLabels g)))) = some flat ∧
      pushed.Perm flat := by
  have htargets : (["a", "b"] : List String).Nodup := by decide
  have hsends : ∀ values, Sends
      (singleGroup (["a", "b"].map fun g => (instanceServer oneJob values g).api)) (seenBy []) 0 []
      ["a", "b"] (instanceServer oneJob values) (.vectorSelector upSelector) fun g =>
        some (valuedSeries oneJob values g) :=
    sends_upSelector (by decide +kernel) (by decide +kernel)
  exact (pushes_avg_single_iff [] false hsends (fun _ _ => rfl) (fun _ => rfl) htargets
    (by decide +kernel)).mpr balanced_oneJob oneAndThree

def twoOfThree : String → List Labels
  | "a" => [up.set "job" "a"]
  | _ => [up.set "job" "b", up.set "job" "c"]

/-- The value of the only series of a target, and two others. -/
def weights (x : String × Labels) : ℚ :=
  if x.2 = up.set "job" "a" then 1 else if x.2 = up.set "job" "b" then 3 else 5

/-- One series on one target and two on the other: the average of the averages is `5/2`, and the average
of the series `3`. -/
theorem pushes_avg_single_two_targets :
    ∃ tree,
      walk (singleGroup (["a", "b"].map fun g => (instanceServer twoOfThree weights g).api)) 20
          (instantStmt 0) [] (.aggregateExpr .avg (.vectorSelector upSelector) .noExpr [] false) =
            .ok (tree, true) ∧
      (eval (seenBy []) tree 0).bind Value.toVector = some [⟨Labels.empty, 5 / 2⟩] ∧
      aggregation .avg .noValue [] false (mergeSeriesSets VectorSample.metric
        (["a", "b"].map fun g =>
          (valuedSeries twoOfThree weights g).map (addLabels (instanceLabels g)))) =
        some [⟨Labels.empty, 3⟩] := by
  refine ⟨_, rfl, ?_, ?_⟩
  · decide +kernel
  · decide +kernel

end

end Proxystorage
end Proxeus
