import Proxeus.Lib.KWayMerge
import Proxeus.Promclient.MergeSeriesSet
import Proxeus.Promclient.MetricRelabelSpec

/-!
# Promclient.MergeSeriesSets

`MergeSeriesSets` of `merge_seriesset.go`, over the k-way merge of the storage layer: the sets are
sorted, and of each only the head is looked at. A series that a set lists twice, as it may after
its labels have been rewritten, is merged with the other sets once, and stays in the result twice
(`mergeSeriesSets_distinct_iff`).
-/

namespace Proxeus

open Lib

/-- The labels as `labels.Compare` orders them: by name and value, label by label. -/
def Labels.key (l : Labels) : List (String ×ₗ String) := l.pairs.map fun p => toLex (p.name, p.value)

theorem Labels.key_injective : Function.Injective Labels.key := by
  intro l l' h
  refine Labels.ext_pairs ((List.map_injective_iff.mpr fun p p' hp => ?_) h)
  obtain ⟨_, _⟩ := p
  obtain ⟨_, _⟩ := p'
  cases hp
  rfl

namespace Promclient

open Promhttputil

/-- The order in which series are merged. -/
def seriesKey (s : Series) : List (String ×ₗ String) := s.labels.key

/-! ## The merge -/

/-- `mergeSeriesSet.At`: the series of a group, `none` being a nil series. -/
def seriesAt (mergeFunc : List Series → Option Series) : List Series → Option Series
  | [s] => some s
  | group => mergeFunc group

/-- What `storage.NewMergeSeriesSet` does with sets that have no error. -/
def IsMergeSeriesSet
    (newMergeSeriesSet : List SeriesSet → (List Series → Option Series) → SeriesSet) : Prop :=
  ∀ sets mergeFunc, (∀ set ∈ sets, set.err = none) →
    ∃ groups, MergeRun seriesKey (sets.map SeriesSet.series) groups ∧
      (newMergeSeriesSet sets mergeFunc).series = groups.filterMap fun g => seriesAt mergeFunc g.2

/-- What `sort.Slice` by the labels does, which leaves the order of equal labels open. -/
def IsSortSlice (sortSlice : List Series → List Series) : Prop :=
  ∀ l, (sortSlice l).Perm l ∧ (sortSlice l).Pairwise fun s s' => seriesKey s ≤ seriesKey s'

section

variable (sortSlice : List Series → List Series)
  (newMergeSeriesSet : List SeriesSet → (List Series → Option Series) → SeriesSet)

def sortedSeriesSetBy (ss : SeriesSet) : SeriesSet := { ss with series := sortSlice ss.series }

/-- `MergeSeriesSets` -/
def mergeSeriesSetsBy [Prometheus] (antiAffinity : Int) (dynamic preferMax : Bool)
    (sets : List SeriesSet) : SeriesSet :=
  match sets with
  | [] => ⟨[], ∅, none⟩
  | [set] => set
  | sets =>
    newMergeSeriesSet (sets.map (sortedSeriesSetBy sortSlice))
      (mergeAntiAffinity antiAffinity dynamic preferMax)

end

/-- A merge series set that takes equal heads in the order of the sets. -/
def newMergeSeriesSet (sets : List SeriesSet) (mergeFunc : List Series → Option Series) :
    SeriesSet :=
  match sets.findSome? SeriesSet.err with
  | some err => ⟨[], ∅, some err⟩
  | none =>
    ⟨(kWayMerge seriesKey (sets.map SeriesSet.series)).filterMap fun g => seriesAt mergeFunc g.2,
      sets.foldr (fun set warnings => set.warnings ∪ warnings) ∅, none⟩

theorem isMergeSeriesSet_newMergeSeriesSet : IsMergeSeriesSet newMergeSeriesSet := by
  intro sets mergeFunc herr
  refine ⟨_, mergeRun_kWayMerge _, ?_⟩
  rw [newMergeSeriesSet, List.findSome?_eq_none_iff.mpr herr]

theorem isSortSlice_sortBy : IsSortSlice (sortBy seriesKey) := fun l =>
  ⟨sortBy_perm _ l, sortBy_pairwise _ l⟩

/-! ## What is merged -/

section

variable [Prometheus]

/-- Streams with the same labels are merged into one with these labels. -/
theorem metric_mergeSampleStream (antiAffinity : Int) (dynamic preferMax : Bool)
    {a b : SampleStream} (h : b.metric = a.metric) :
    ∃ m, mergeSampleStream antiAffinity dynamic a b preferMax = .ok m ∧ m.metric = a.metric := by
  rw [mergeSampleStream, h, if_neg (not_not.mpr rfl)]
  split
  · exact ⟨_, rfl, rfl⟩
  · split
    · exact ⟨_, rfl, rfl⟩
    · split
      · exact ⟨_, rfl, rfl⟩
      · by_cases hlen : a.values.length < b.values.length
        · rw [if_pos hlen]
          exact ⟨_, rfl, h⟩
        · rw [if_neg hlen]
          exact ⟨_, rfl, rfl⟩

theorem mergeLoop_of_labels (antiAffinity : Int) (dynamic preferMax : Bool) {l : Labels}
    {merged : SampleStream} (hmerged : merged.metric = l) {group : List Series}
    (h : ∀ s ∈ group, s.labels = l) :
    ∃ m, mergeLoop antiAffinity dynamic preferMax merged group = some m := by
  induction group generalizing merged with
  | nil => exact ⟨merged, rfl⟩
  | cons s group ih =>
    have hsame : (seriesToSampleStream s).metric = merged.metric :=
      (h s List.mem_cons_self).trans hmerged.symm
    obtain ⟨m, hmerge, hm⟩ := metric_mergeSampleStream antiAffinity dynamic preferMax hsame
    obtain ⟨out, hout⟩ := ih (hm.trans hmerged) fun s' hs' => h s' (List.mem_cons_of_mem s hs')
    exact ⟨out, by rw [mergeLoop, hmerge]; exact hout⟩

theorem labels_seriesAt (antiAffinity : Int) (dynamic preferMax : Bool) {l : Labels}
    {group : List Series} (hne : group ≠ []) (h : ∀ s ∈ group, s.labels = l) :
    ∃ s, seriesAt (mergeAntiAffinity antiAffinity dynamic preferMax) group = some s ∧
      s.labels = l := by
  cases group with
  | nil => exact absurd rfl hne
  | cons s group =>
    have hs := h s List.mem_cons_self
    cases group with
    | nil => exact ⟨s, rfl, hs⟩
    | cons s' group =>
      obtain ⟨m, hm⟩ := mergeLoop_of_labels antiAffinity dynamic preferMax
        (show (seriesToSampleStream s).metric = l from hs)
        (fun x (hx : x ∈ s' :: group) => h x (List.mem_cons_of_mem s hx))
      refine ⟨sampleStreamToSeries m s.labels, ?_, hs⟩
      rw [seriesAt, mergeAntiAffinity, hm, Option.map_some]
      intro s h
      cases h

/-- The series of a merge have the keys of its groups. -/
theorem map_key_groups (antiAffinity : Int) (dynamic preferMax : Bool) {sets : List (List Series)}
    {groups : List (List (String ×ₗ String) × List Series)}
    (h : MergeRun seriesKey sets groups) :
    (groups.filterMap fun g =>
      seriesAt (mergeAntiAffinity antiAffinity dynamic preferMax) g.2).map seriesKey =
      groups.map Prod.fst := by
  have hgroup : ∀ g ∈ groups, ∃ s,
      seriesAt (mergeAntiAffinity antiAffinity dynamic preferMax) g.2 = some s ∧
        seriesKey s = g.1 := by
    intro g hg
    obtain ⟨hne, hkeys⟩ := h.mem_group g hg
    obtain ⟨s, hs⟩ := List.exists_mem_of_ne_nil _ hne
    obtain ⟨out, hout, hlabels⟩ := labels_seriesAt antiAffinity dynamic preferMax hne
      fun s' hs' => Labels.key_injective ((hkeys s' hs').trans (hkeys s hs).symm)
    exact ⟨out, hout, (congrArg Labels.key hlabels).trans (hkeys s hs)⟩
  clear h
  induction groups with
  | nil => rfl
  | cons g groups ih =>
    obtain ⟨s, hs, hkey⟩ := hgroup g List.mem_cons_self
    rw [List.filterMap_cons, hs, List.map_cons, List.map_cons, hkey,
      ih fun g' hg' => hgroup g' (List.mem_cons_of_mem g hg')]

/-! ## Distinct label sets -/

variable {sortSlice : List Series → List Series}
  {newMergeSeriesSet : List SeriesSet → (List Series → Option Series) → SeriesSet}

/-- Distinct label sets in increasing order, exactly those of the sets. -/
def DistinctUnion (sets : List SeriesSet) (merged : SeriesSet) : Prop :=
  Ascending seriesKey merged.series ∧
    ∀ l, l ∈ merged.series.map Series.labels ↔ ∃ set ∈ sets, l ∈ set.series.map Series.labels

omit [Prometheus] in
theorem mem_labels_iff_key {series : List Series} {l : Labels} :
    l ∈ series.map Series.labels ↔ l.key ∈ series.map seriesKey := by
  rw [show seriesKey = Labels.key ∘ Series.labels from rfl, ← List.map_map,
    List.mem_map_of_injective Labels.key_injective]

omit [Prometheus] in
theorem nodup_labels_iff_key {series : List Series} :
    (series.map Series.labels).Nodup ↔ (series.map seriesKey).Nodup := by
  rw [show seriesKey = Labels.key ∘ Series.labels from rfl, ← List.map_map,
    List.nodup_map_iff Labels.key_injective]

/-- Two sets or more: what is merged has the union of the label sets, and is in order as far as no
label set is repeated. -/
theorem merged_distinct_iff (hsort : IsSortSlice sortSlice)
    (hmerge : IsMergeSeriesSet newMergeSeriesSet) (antiAffinity : Int) (dynamic preferMax : Bool)
    {sets : List SeriesSet} (herr : ∀ set ∈ sets, set.err = none) :
    DistinctUnion sets (newMergeSeriesSet (sets.map (sortedSeriesSetBy sortSlice))
        (mergeAntiAffinity antiAffinity dynamic preferMax)) ↔
      ∀ set ∈ sets, (set.series.map Series.labels).Nodup := by
  have herr' : ∀ set ∈ sets.map (sortedSeriesSetBy sortSlice), set.err = none := by
    intro set' hset'
    obtain ⟨set, hset, rfl⟩ := List.mem_map.mp hset'
    exact herr set hset
  obtain ⟨groups, hrun, hseries⟩ := hmerge _ (mergeAntiAffinity antiAffinity dynamic preferMax) herr'
  have hkeys := map_key_groups antiAffinity dynamic preferMax hrun
  rw [← hseries] at hkeys
  have hsets : ((sets.map (sortedSeriesSetBy sortSlice)).map SeriesSet.series) =
      sets.map fun set => sortSlice set.series := List.map_map
  rw [hsets] at hrun
  have hsorted : ∀ set ∈ sets.map (fun set => sortSlice set.series),
      set.Pairwise fun s s' => seriesKey s ≤ seriesKey s' := by
    intro set' hset'
    obtain ⟨set, -, rfl⟩ := List.mem_map.mp hset'
    exact (hsort set.series).2
  have hperm : ∀ set : SeriesSet,
      ((sortSlice set.series).map seriesKey).Perm (set.series.map seriesKey) :=
    fun set => (hsort set.series).1.map seriesKey
  have hunion : ∀ l, l ∈ (newMergeSeriesSet (sets.map (sortedSeriesSetBy sortSlice))
      (mergeAntiAffinity antiAffinity dynamic preferMax)).series.map Series.labels ↔
        ∃ set ∈ sets, l ∈ set.series.map Series.labels := by
    intro l
    rw [mem_labels_iff_key, hkeys, hrun.mem_keys_iff]
    constructor
    · rintro ⟨set', hset', hl⟩
      obtain ⟨set, hset, rfl⟩ := List.mem_map.mp hset'
      exact ⟨set, hset, mem_labels_iff_key.mpr ((hperm set).mem_iff.mp hl)⟩
    · rintro ⟨set, hset, hl⟩
      exact ⟨_, List.mem_map_of_mem hset, (hperm set).mem_iff.mpr (mem_labels_iff_key.mp hl)⟩
  have hnodup : (groups.map Prod.fst).Nodup ↔ ∀ set ∈ sets, (set.series.map Series.labels).Nodup := by
    rw [hrun.nodup_keys_iff_of_sorted hsorted, List.forall_mem_map]
    refine forall₂_congr fun set _ => ?_
    rw [(hperm set).nodup_iff, nodup_labels_iff_key]
  rw [DistinctUnion, and_iff_left hunion, ← hnodup, ← hkeys]
  constructor
  · exact Ascending.nodup_keys
  · intro h
    have hle := hrun.pairwise_keys hsorted
    rw [← hkeys] at hle
    exact List.pairwise_map.mp (List.Pairwise.imp₂ (fun _ _ h hne => lt_of_le_of_ne h hne) hle h)

/-- The merge lists every label set once and in order, if no set lists one twice; a single set is
passed on as it is. -/
theorem mergeSeriesSets_distinct_iff (hsort : IsSortSlice sortSlice)
    (hmerge : IsMergeSeriesSet newMergeSeriesSet) (antiAffinity : Int) (dynamic preferMax : Bool)
    {sets : List SeriesSet} (herr : ∀ set ∈ sets, set.err = none) :
    DistinctUnion sets
        (mergeSeriesSetsBy sortSlice newMergeSeriesSet antiAffinity dynamic preferMax sets) ↔
      (∀ set ∈ sets, (set.series.map Series.labels).Nodup) ∧
        ∀ set, sets = [set] → Ascending seriesKey set.series := by
  match sets, herr with
  | [], _ => simp [mergeSeriesSetsBy, DistinctUnion]
  | [set], _ =>
    simp only [mergeSeriesSetsBy, DistinctUnion, List.mem_singleton, exists_eq_left, implies_true,
      and_true, forall_eq, List.cons.injEq, forall_eq']
    exact ⟨fun h => ⟨nodup_labels_iff_key.mpr h.nodup_keys, h⟩, fun h => h.2⟩
  | set :: set' :: sets, herr =>
    have hmerged := merged_distinct_iff hsort hmerge antiAffinity dynamic preferMax herr
    rw [mergeSeriesSetsBy, hmerged]
    · simp
    · exact fun h => nomatch h
    · exact fun _ h => nomatch h

end

section

open Promql

attribute [local instance] literalRegexp asciiStrings prometheusWithoutBuckets

/-- `MapLabelsSeriesSet` with the labels of `relabelLabels`, of rules that keep every series. -/
def relabelSeriesSet (cfgs : List RelabelConfig) (ss : SeriesSet) : SeriesSet :=
  { ss with series := ss.series.map fun s => { s with labels := relabelProcess s.labels cfgs } }

/-- The metric `up` of the given replicas. -/
def replicaSet (replicas : List String) : SeriesSet :=
  ⟨replicas.map fun replica =>
    ⟨(Labels.empty.set metricNameLabel "up").set "replica" replica, []⟩, ∅, none⟩

/-- Two targets with a replica each, the later one first. -/
theorem mergeSeriesSets_distinct_replicas :
    DistinctUnion [replicaSet ["b"], replicaSet ["a"]]
      (mergeSeriesSetsBy (sortBy seriesKey) newMergeSeriesSet 0 false false
        [replicaSet ["b"], replicaSet ["a"]]) :=
  (mergeSeriesSets_distinct_iff isSortSlice_sortBy isMergeSeriesSet_newMergeSeriesSet 0 false false
    (by decide)).mpr ⟨by decide +kernel, fun _ h => nomatch h⟩

/-- One of two targets has two replicas, whose label is dropped: `up` is listed twice. And a target
alone is passed on in the order it has. -/
theorem mergeSeriesSets_dropped_replicas :
    let sets := [relabelSeriesSet [⟨.labelDrop, "replica", "", "", ""⟩] (replicaSet ["a", "b"]),
      replicaSet ["c"]]
    let merge := mergeSeriesSetsBy (sortBy seriesKey) newMergeSeriesSet 0 false false
    (¬ DistinctUnion sets (merge sets)) ∧
      ¬ DistinctUnion [replicaSet ["b", "a"]] (merge [replicaSet ["b", "a"]]) := by
  intro sets merge
  refine ⟨fun h => ?_, fun h => ?_⟩
  · have hnot : ¬ Ascending seriesKey (merge sets).series := by decide +kernel
    exact hnot h.1
  · have hnot : ¬ Ascending seriesKey (merge [replicaSet ["b", "a"]]).series := by decide +kernel
    exact hnot h.1

end

end Promclient
end Proxeus
