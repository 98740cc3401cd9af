import Proxeus.Proxystorage.Downstream

/-!
# Proxystorage.Partials

Partial results of several server groups, and what is made of their union. Each group aggregates the
series it has and adds its labels to the results. Where the labels keep the groups apart, the merged
partial results are one aggregation by the finer key "group and native labels" (`aggregate_tagged`), and
aggregating that again is aggregating the labelled series of all groups (`combined_perm`); a selection
from the groups' selections is one from all series (`combined_topCounts`).
-/

namespace Proxeus
namespace Proxystorage

open Lib Promclient Promql

/-- Two label sets with different values for a label of both. -/
def Distinguished (ls ls' : LabelSet) : Prop :=
  ∃ name value value', ls.lookup name = some value ∧ ls'.lookup name = some value' ∧ value ≠ value'

theorem setAll_ne {ls ls' : LabelSet} (h : Distinguished ls ls') (l l' : Labels) :
    l.setAll ls.pairs ≠ l'.setAll ls'.pairs := by
  obtain ⟨name, value, value', hvalue, hvalue', hne⟩ := h
  intro heq
  apply hne
  rw [← l.get_setAll_of_lookup hvalue, heq, l'.get_setAll_of_lookup hvalue']

/-- The series have none of the labels. -/
def Lacks (ls : LabelSet) (v : InstantVector ℚ) : Prop :=
  ∀ s ∈ v, ∀ name ∈ ls.names, s.metric.get name = ""

instance (ls : LabelSet) (v : InstantVector ℚ) : Decidable (Lacks ls v) :=
  inferInstanceAs (Decidable (∀ s ∈ v, ∀ name ∈ ls.names, s.metric.get name = ""))

theorem Lacks.mono {ls : LabelSet} {v v' : InstantVector ℚ} (h : Lacks ls v) (hsub : v' ⊆ v) :
    Lacks ls v' := fun s hs => h s (hsub hs)

theorem get_groupingLabels_eq_empty {grouping : List String} {without : Bool} {metric : Labels}
    {name : String} (h : metric.get name = "") :
    (groupingLabels grouping without metric).get name = "" := by
  rw [get_groupingLabels, h, ite_self]

theorem nodup_map_addLabels {ls : LabelSet} {v : InstantVector ℚ} (hlacks : Lacks ls v)
    (hnodup : (v.map VectorSample.metric).Nodup) :
    ((v.map (addLabels ls)).map VectorSample.metric).Nodup := by
  have hlabels : (v.map (addLabels ls)).map VectorSample.metric =
      (v.map VectorSample.metric).map fun l => l.setAll ls.pairs := by
    rw [List.map_map, List.map_map]
    rfl
  rw [hlabels]
  refine List.Nodup.map_on (fun l hl l' hl' heq => ?_) hnodup
  obtain ⟨s, hs, rfl⟩ := List.mem_map.mp hl
  obtain ⟨s', hs', rfl⟩ := List.mem_map.mp hl'
  exact Labels.setAll_injective (hlacks s hs) (hlacks s' hs') heq

/-! ## The union of the groups -/

section

variable {ι : Type*} (groups : List ι) (labels : ι → LabelSet) (parts : ι → InstantVector ℚ)

/-- The parts of the groups with the labels of each. -/
def labelledParts : InstantVector ℚ :=
  groups.flatMap fun g => (parts g).map (addLabels (labels g))

/-- The series of the groups, with the group each belongs to. -/
def tagged : List (ι × VectorSample ℚ) :=
  groups.flatMap fun g => (parts g).map fun s => (g, s)

variable {groups labels parts}

theorem flatMap_map_eq_map_tagged (act : ι → VectorSample ℚ → VectorSample ℚ) :
    (groups.flatMap fun g => (parts g).map (act g)) =
      (tagged groups parts).map fun x => act x.1 x.2 := by
  rw [tagged, List.map_flatMap]
  refine List.flatMap_congr fun g _ => ?_
  rw [List.map_map]
  rfl

variable (hdist : groups.Pairwise fun g h => Distinguished (labels g) (labels h))

include hdist in
theorem nodup_of_distinguished : groups.Nodup := by
  refine List.Pairwise.imp ?_ hdist
  rintro g h hne rfl
  exact setAll_ne hne .empty .empty rfl

include hdist in
theorem nodup_labelledParts (hnodup : ∀ g ∈ groups, ((parts g).map VectorSample.metric).Nodup)
    (hlacks : ∀ g ∈ groups, Lacks (labels g) (parts g)) :
    ((labelledParts groups labels parts).map VectorSample.metric).Nodup := by
  rw [labelledParts, List.map_flatMap, List.nodup_flatMap]
  refine ⟨fun g hg => nodup_map_addLabels (hlacks g hg) (hnodup g hg), hdist.imp ?_⟩
  intro g h hne l hl hl'
  simp only [List.map_map, List.mem_map] at hl hl'
  obtain ⟨s, -, rfl⟩ := hl
  obtain ⟨s', -, heq⟩ := hl'
  exact setAll_ne hne _ _ heq.symm

variable [MergeSeriesSet]

/-- The merge of the labelled parts leaves them as they are. -/
def KeptApart (groups : List ι) (labels : ι → LabelSet) (parts : ι → InstantVector ℚ) : Prop :=
  (mergeSeriesSets VectorSample.metric
    (groups.map fun g => (parts g).map (addLabels (labels g)))).Perm
      (labelledParts groups labels parts)

include hdist in
theorem keptApart (hnodup : ∀ g ∈ groups, ((parts g).map VectorSample.metric).Nodup)
    (hlacks : ∀ g ∈ groups, Lacks (labels g) (parts g)) : KeptApart groups labels parts := by
  rw [KeptApart, labelledParts, List.flatMap_def]
  refine mergeSeriesSets_perm ?_
  rw [← List.flatMap_def]
  exact nodup_labelledParts hdist hnodup hlacks

end

/-! ## Aggregations -/

section

variable {ι : Type*} {groups : List ι} {labels : ι → LabelSet} {parts : ι → InstantVector ℚ}
  {key : VectorSample ℚ → Labels} {f g : List ℚ → ℚ}

theorem map_addLabels_ofResults (ls : LabelSet) (results : List (Labels × ℚ)) :
    (ofResults results).map (addLabels ls) =
      ofResults (results.map fun p => (p.1.setAll ls.pairs, p.2)) := by
  rw [ofResults, ofResults, List.map_map, List.map_map]
  rfl

/-- The labels of the partial result that a series goes into. -/
def partialKey (labels : ι → LabelSet) (key : VectorSample ℚ → Labels)
    (x : ι × VectorSample ℚ) : Labels :=
  (key x.2).setAll (labels x.1).pairs

theorem lacks_aggregateBy {ls : LabelSet} {v : InstantVector ℚ}
    (hkey : ∀ s ∈ v, ∀ name ∈ ls.names, (key s).get name = "") :
    Lacks ls (aggregateBy key f v) := by
  intro s hs name hname
  obtain ⟨⟨x, hx, hk⟩, -⟩ := mem_ofResults_aggregate.mp hs
  rw [← hk]
  exact hkey x hx name hname

/-- The results of the groups are one aggregation by the group and the labels. -/
theorem aggregate_tagged [DecidableEq ι] (hgroups : groups.Nodup) :
    (groups.flatMap fun g =>
      (aggregate key VectorSample.value f (parts g)).map fun p => ((g, p.1), p.2)).Perm
        (aggregate (fun x : ι × VectorSample ℚ => (x.1, key x.2)) (fun x => x.2.value) f
          (tagged groups parts)) := by
  have hpart : ∀ g ∈ groups,
      ((aggregate key VectorSample.value f (parts g)).map fun p => ((g, p.1), p.2)).Perm
        (aggregate (fun x : ι × VectorSample ℚ => (x.1, key x.2)) (fun x => x.2.value) f
          ((parts g).map fun s => (g, s))) := by
    intro g _
    have hcomp : (aggregate ((fun l : Labels => (g, l)) ∘ key) VectorSample.value f
        (parts g)).Perm
          ((aggregate key VectorSample.value f (parts g)).map fun p => ((g, p.1), p.2)) :=
      aggregate_comp_key (fun l : Labels => (g, l)) fun _ _ _ _ heq => (Prod.mk.inj heq).2
    have hmap : (aggregate (fun x : ι × VectorSample ℚ => (x.1, key x.2)) (fun x => x.2.value) f
        ((parts g).map fun s => (g, s))).Perm
          (aggregate ((fun l : Labels => (g, l)) ∘ key) VectorSample.value f (parts g)) :=
      aggregate_map (fun s => (g, s)) (parts g)
    exact hcomp.symm.trans hmap.symm
  have hflat : (groups.flatMap fun g => aggregate
      (fun x : ι × VectorSample ℚ => (x.1, key x.2)) (fun x => x.2.value) f
        ((parts g).map fun s => (g, s))).Perm
          (aggregate (fun x : ι × VectorSample ℚ => (x.1, key x.2)) (fun x => x.2.value) f
            (tagged groups parts)) := by
    refine aggregate_flatMap groups _ (List.Pairwise.imp ?_ hgroups)
    intro g h hne x hx y hy heq
    obtain ⟨s, -, rfl⟩ := List.mem_map.mp hx
    obtain ⟨s', -, rfl⟩ := List.mem_map.mp hy
    exact hne (Prod.mk.inj heq).1
  exact (List.Perm.flatMap_left groups hpart).trans hflat

/-- Aggregating the partial results again is aggregating the series, by what becomes of the labels
of the partial results. -/
theorem combined_perm {merged : InstantVector ℚ} (hgroups : groups.Nodup)
    (hmerged : merged.Perm (labelledParts groups labels fun g => aggregateBy key f (parts g)))
    {h : List ℚ → ℚ} (hr : Recombines f g h) (outer : Labels → Labels) :
    (aggregateBy (fun s => outer s.metric) g merged).Perm
      (ofResults (aggregate (fun x => outer (partialKey labels key x)) (fun x => x.2.value) h
        (tagged groups parts))) := by
  classical
  let results := aggregate (fun x : ι × VectorSample ℚ => (x.1, key x.2)) (fun x => x.2.value) f
    (tagged groups parts)
  have hresults : (labelledParts groups labels fun g => aggregateBy key f (parts g)).Perm
      (ofResults (results.map fun p => (p.1.2.setAll (labels p.1.1).pairs, p.2))) := by
    refine List.Perm.trans (List.Perm.of_eq ?_)
      (ofResults_perm ((aggregate_tagged hgroups).map _))
    rw [labelledParts, List.map_flatMap, ofResults, List.map_flatMap]
    refine List.flatMap_congr fun g _ => ?_
    rw [aggregateBy, map_addLabels_ofResults, ofResults, List.map_map, List.map_map,
      List.map_map]
    rfl
  refine (aggregateBy_perm _ hr.free (hmerged.trans hresults)).trans ?_
  refine (aggregateBy_ofResults outer _).trans (ofResults_perm ?_)
  refine (aggregate_map _ results).trans ?_
  exact aggregate_aggregate hr (fun q : ι × Labels => outer (q.2.setAll (labels q.1).pairs))
    (fun x : ι × VectorSample ℚ => (x.1, key x.2)) (tagged groups parts)

theorem aggregateBy_map_tagged (act : ι → VectorSample ℚ → VectorSample ℚ)
    (hact : ∀ g s, (act g s).value = s.value) (key : VectorSample ℚ → Labels) :
    (aggregateBy key f (groups.flatMap fun g => (parts g).map (act g))).Perm
      (ofResults (aggregate (fun x => key (act x.1 x.2)) (fun x => x.2.value) f
        (tagged groups parts))) := by
  have hval : (VectorSample.value ∘ fun x : ι × VectorSample ℚ => act x.1 x.2) =
      fun x => x.2.value := funext fun x => hact x.1 x.2
  rw [flatMap_map_eq_map_tagged, ← hval]
  exact ofResults_perm (aggregate_map _ _)

/-- Aggregating results by some labels again is aggregating the labelled series by them. -/
theorem combined_labelledParts {merged : InstantVector ℚ} (hgroups : groups.Nodup)
    (grouping : List String) (without : Bool) (act : VectorSample ℚ → VectorSample ℚ)
    (hact : ∀ s, (act s).value = s.value)
    (hmerged : merged.Perm (labelledParts groups labels fun g =>
      aggregateBy (fun s => groupingLabels grouping without (act s).metric) f (parts g)))
    {h : List ℚ → ℚ} (hr : Recombines f g h) :
    (aggregateBy (fun s => groupingLabels grouping without s.metric) g merged).Perm
      (aggregateBy (fun s => groupingLabels grouping without s.metric) h
        (labelledParts groups labels fun g => (parts g).map act)) := by
  refine (combined_perm hgroups hmerged hr (groupingLabels grouping without)).trans ?_
  simp only [partialKey, groupingLabels_setAll]
  have htagged : (aggregateBy (fun s => groupingLabels grouping without s.metric) h
      (groups.flatMap fun g => (parts g).map fun s => addLabels (labels g) (act s))).Perm
        (ofResults (aggregate (fun x => groupingLabels grouping without
          ((act x.2).metric.setAll (labels x.1).pairs)) (fun x => x.2.value) h
            (tagged groups parts))) :=
    aggregateBy_map_tagged (fun g s => addLabels (labels g) (act s)) (fun _ s => hact s) _
  rw [labelledParts]
  simp only [List.map_map]
  exact htagged.symm

end

/-! ## Selections -/

section

variable {ω : Type*} [LinearOrder ω] (rank : ℚ → ω) {k : Nat}
  {pick : InstantVector ℚ → InstantVector ℚ}
  (hpick : ∀ l, IsTop (fun s : VectorSample ℚ => rank s.value) k l (pick l))

include hpick in
theorem mem_of_mem_pick {v : InstantVector ℚ} : ∀ s ∈ pick v, s ∈ v := by
  intro s hs
  obtain ⟨-, rest, hperm, -⟩ := hpick v
  exact hperm.mem_iff.mp (List.mem_append_left rest hs)

include hpick in
theorem mem_of_mem_selectBy {key : VectorSample ℚ → Labels} {v : InstantVector ℚ} :
    ∀ s ∈ selectBy key pick v, s ∈ v := by
  intro s hs
  rw [selectBy_eq_flatMap, List.mem_flatMap] at hs
  obtain ⟨j, -, hs⟩ := hs
  exact (List.mem_filter.mp (mem_of_mem_pick rank hpick s hs)).1

include hpick in
theorem subperm_selectBy (key : VectorSample ℚ → Labels) (v : InstantVector ℚ) :
    (selectBy key pick v).Subperm v := by
  have hsub : ∀ j : Labels, ((selectBy key pick v).filter fun s => key s = j).Subperm
      (v.filter fun s => key s = j) := by
    intro j
    rw [filter_selectBy (hpick []).nil_of_nil fun _ => mem_of_mem_pick rank hpick]
    exact (hpick _).topCounts.subperm
  exact subperm_of_filter hsub

include hpick in
theorem topCounts_selectBy (key : VectorSample ℚ → Labels) (v : InstantVector ℚ) (j : Labels) :
    TopCounts (fun s : VectorSample ℚ => rank s.value) k (v.filter fun s => key s = j)
      ((selectBy key pick v).filter fun s => key s = j) := by
  rw [filter_selectBy (hpick []).nil_of_nil fun _ => mem_of_mem_pick rank hpick]
  exact (hpick _).topCounts

variable {ι : Type*} {groups : List ι} {labels : ι → LabelSet} {parts : ι → InstantVector ℚ}
  [MergeSeriesSet] {key : Labels → Labels}

include hpick in
/-- A selection from the groups' selections is a selection from all series. -/
theorem combined_topCounts
    (hapart : KeptApart groups labels fun g => selectBy (fun s => key s.metric) pick (parts g))
    (hkey : ∀ l (ls : LabelSet), key ((key l).setAll ls.pairs) = key (l.setAll ls.pairs))
    (j : Labels) :
    TopCounts (fun s : VectorSample ℚ => rank s.value) k
      ((labelledParts groups labels parts).filter fun s => key s.metric = j)
      ((selectBy (fun s => key s.metric) pick (mergeSeriesSets VectorSample.metric
        (groups.map fun g =>
          (selectBy (fun s => key s.metric) pick (parts g)).map (addLabels (labels g))))).filter
        fun s => key s.metric = j) := by
  have hcovers : Covers (fun s : VectorSample ℚ => rank s.value) k
      ((labelledParts groups labels parts).filter fun s => key s.metric = j)
      ((labelledParts groups labels fun g => selectBy (fun s => key s.metric) pick
        (parts g)).filter fun s => key s.metric = j) := by
    rw [labelledParts, labelledParts, List.filter_flatMap, List.filter_flatMap]
    refine Covers.flatMap fun g _ => ?_
    have hpart : Covers (fun s : VectorSample ℚ => rank s.value) k
        ((parts g).filter fun s => key ((key s.metric).setAll (labels g).pairs) = j)
        ((selectBy (fun s => key s.metric) pick (parts g)).filter fun s =>
          key ((key s.metric).setAll (labels g).pairs) = j) :=
      covers_selectBy hpick (fun l : Labels => key (l.setAll (labels g).pairs)) j
    simp only [hkey] at hpart
    rw [List.filter_map, List.filter_map]
    exact hpart.map (addLabels (labels g)) fun _ => rfl
  exact (hcovers.perm (List.Perm.refl _) (hapart.symm.filter _)).topCounts
    (topCounts_selectBy rank hpick _ _ j)

end

end Proxystorage
end Proxeus
