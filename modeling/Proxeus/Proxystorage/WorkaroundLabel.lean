import Proxeus.Promclient.MetricRelabelPushdown
import Proxeus.Proxystorage.Partials

/-!
# Proxystorage.WorkaroundLabel

The metric name in `__name`. A division takes the metric name from its results, so an average by the
metric name copies it to another label before, and back after the division. Where no series has that
label the results are those of grouping by the metric name (`groupingLabels_copyBack`).
-/

namespace Proxeus
namespace Proxystorage

open Lib Promclient Promql

/-- `label_replace` that copies a label. -/
theorem labelReplace_copy [Libraries] (dst src : String) (l : Labels) :
    labelReplace dst "$1" src "(.*)" l = l.set dst (l.get src) := by
  rw [labelReplace, Regexp.expand_all]

/-- The grouping that `replaceAggregate` replaces the one of an average by. -/
def replacedGrouping (grouping : List String) : List String :=
  grouping.map fun g => if g = metricNameLabel then metricNameWorkaroundLabel else g

def copyName (l : Labels) : Labels := l.set metricNameWorkaroundLabel (l.get metricNameLabel)

def copyBack (l : Labels) : Labels := l.set metricNameLabel (l.get metricNameWorkaroundLabel)

theorem copyName_injective {l l' : Labels} (h : l.get metricNameWorkaroundLabel = "")
    (h' : l'.get metricNameWorkaroundLabel = "") (heq : copyName l = copyName l') : l = l' := by
  refine Labels.ext_get fun name => ?_
  by_cases hname : name = metricNameWorkaroundLabel
  · rw [hname, h, h']
  · have hget := congrArg (fun l => Labels.get l name) heq
    simpa only [copyName, Labels.get_set, if_neg hname] using hget

section

variable {grouping : List String} {without : Bool}

theorem workaroundLabel_ne : metricNameWorkaroundLabel ≠ metricNameLabel := by decide

theorem mem_replacedGrouping (hname : metricNameLabel ∈ grouping) {name : String} :
    name ∈ replacedGrouping grouping ↔
      name = metricNameWorkaroundLabel ∨ (name ∈ grouping ∧ name ≠ metricNameLabel) := by
  rw [replacedGrouping, List.mem_map]
  constructor
  · rintro ⟨g, hg, rfl⟩
    by_cases h : g = metricNameLabel
    · rw [if_pos h]
      exact Or.inl rfl
    · rw [if_neg h]
      exact Or.inr ⟨hg, h⟩
  · rintro (rfl | ⟨hmem, hne⟩)
    · exact ⟨metricNameLabel, hname, if_pos rfl⟩
    · exact ⟨name, hmem, if_neg hne⟩

theorem kept_metricNameLabel (hname : metricNameLabel ∈ grouping) :
    kept grouping without metricNameLabel = !without := by
  cases without <;> simp [kept, hname]

theorem kept_replacedGrouping (hname : metricNameLabel ∈ grouping) {name : String}
    (hne : name ≠ metricNameWorkaroundLabel) :
    kept (replacedGrouping grouping) without name =
      (name ≠ metricNameLabel && kept grouping without name) := by
  rw [Bool.eq_iff_iff]
  cases without with
  | false => simp [kept, mem_replacedGrouping hname, hne, and_comm]
  | true =>
    by_cases hmetric : name = metricNameLabel
    · simp [kept, hmetric]
    · simp [kept, mem_replacedGrouping hname, hne, hmetric]

theorem kept_workaroundLabel (hname : metricNameLabel ∈ grouping) :
    kept (replacedGrouping grouping) without metricNameWorkaroundLabel = !without := by
  have hmem := (mem_replacedGrouping hname).mpr (Or.inl rfl)
  cases without <;> simp [kept, hmem]

/-- The labels that the sum and the count have. -/
def workaroundKey (grouping : List String) (without : Bool) (l : Labels) : Labels :=
  groupingLabels (replacedGrouping grouping) without (copyName l)

theorem get_workaroundKey (hname : metricNameLabel ∈ grouping) (l : Labels) (name : String) :
    (workaroundKey grouping without l).get name =
      if name = metricNameWorkaroundLabel then if without then "" else l.get metricNameLabel
      else if name = metricNameLabel then ""
      else if kept grouping without name then l.get name else "" := by
  rw [workaroundKey, groupingLabels_eq_restrict, Labels.get_restrict, copyName, Labels.get_set]
  by_cases hworkaround : name = metricNameWorkaroundLabel
  · rw [if_pos hworkaround, if_pos hworkaround, hworkaround, kept_workaroundLabel hname]
    cases without <;> rfl
  · rw [kept_replacedGrouping hname hworkaround, if_neg hworkaround, if_neg hworkaround]
    by_cases hmetric : name = metricNameLabel
    · simp [hmetric]
    · simp [hmetric]

theorem metricName_workaroundKey (hname : metricNameLabel ∈ grouping) (l : Labels) :
    (workaroundKey grouping without l).get metricNameLabel = "" := by
  rw [get_workaroundKey hname, if_neg workaroundLabel_ne.symm, if_pos rfl]

/-- Copied back, the labels are those of grouping by the metric name. -/
theorem groupingLabels_copyBack (hname : metricNameLabel ∈ grouping)
    (hworkaround : metricNameWorkaroundLabel ∉ grouping) {l : Labels}
    (hlacks : l.get metricNameWorkaroundLabel = "") :
    groupingLabels grouping without (copyBack (workaroundKey grouping without l)) =
      groupingLabels grouping without l := by
  refine Labels.ext_get fun name => ?_
  simp only [groupingLabels_eq_restrict, Labels.get_restrict, copyBack, Labels.get_set,
    get_workaroundKey hname]
  by_cases hmetric : name = metricNameLabel
  · subst hmetric
    cases without with
    | false => simp
    | true => simp [kept]
  · by_cases hlabel : name = metricNameWorkaroundLabel
    · subst hlabel
      cases without with
      | false => simp [kept, hworkaround]
      | true => simp [hmetric, hlacks]
    · by_cases hkept : kept grouping without name = true
      · simp [hmetric, hlabel, hkept]
      · simp [hkept]

/-- The labels of the sum and the count are determined by those of the average. -/
theorem workaroundKey_groupingLabels (hname : metricNameLabel ∈ grouping) (l : Labels) :
    workaroundKey grouping without (groupingLabels grouping without l) =
      workaroundKey grouping without l := by
  refine Labels.ext_get fun name => ?_
  simp only [get_workaroundKey hname, groupingLabels_eq_restrict, Labels.get_restrict,
    kept_metricNameLabel hname]
  by_cases hkept : kept grouping without name = true
  · cases without <;> simp [hkept]
  · cases without <;> simp [hkept]

end

/-! ## The quotients -/

section

variable {grouping : List String} {without : Bool} {v : InstantVector ℚ}
  {f : List ℚ → ℚ} {quotients : InstantVector ℚ}

/-- The quotients, by the labels of the average. -/
theorem exists_copiedBack [Libraries] (hname : metricNameLabel ∈ grouping)
    (hworkaround : metricNameWorkaroundLabel ∉ grouping)
    (hlacks : ∀ s ∈ v, s.metric.get metricNameWorkaroundLabel = "")
    (hquotients : quotients.Perm (ofResults (aggregate
      (fun s : VectorSample ℚ => workaroundKey grouping without s.metric) VectorSample.value f v))) :
    ∃ copied,
      relabelVector (labelReplace metricNameLabel "$1" metricNameWorkaroundLabel "(.*)")
        quotients = some copied ∧
      (aggregateBy (fun s => groupingLabels grouping without s.metric) maxOf copied).Perm
        (aggregateBy (fun s => groupingLabels grouping without s.metric) f v) := by
  let back (l : Labels) : Labels := groupingLabels grouping without (copyBack l)
  have hback : ∀ s ∈ v, back (workaroundKey grouping without s.metric) =
      groupingLabels grouping without s.metric :=
    fun s hs => groupingLabels_copyBack hname hworkaround (hlacks s hs)
  have hinj : ∀ s ∈ v, ∀ s' ∈ v, back (workaroundKey grouping without s.metric) =
      back (workaroundKey grouping without s'.metric) →
        workaroundKey grouping without s.metric = workaroundKey grouping without s'.metric := by
    intro s hs s' hs' heq
    rw [hback s hs, hback s' hs'] at heq
    rw [← workaroundKey_groupingLabels hname, heq, workaroundKey_groupingLabels hname]
  have hcomp : (aggregate (fun s : VectorSample ℚ => back (workaroundKey grouping without s.metric))
      VectorSample.value f v).Perm
        ((aggregate (fun s : VectorSample ℚ => workaroundKey grouping without s.metric)
          VectorSample.value f v).map fun p => (back p.1, p.2)) := aggregate_comp_key back hinj
  have hkeys : (quotients.map fun s => back s.metric).Perm
      ((aggregate (fun s : VectorSample ℚ => back (workaroundKey grouping without s.metric))
        VectorSample.value f v).map Prod.fst) := by
    refine (hquotients.map _).trans (List.Perm.trans ?_ (hcomp.map Prod.fst).symm)
    rw [ofResults, List.map_map, List.map_map]
    rfl
  have hnodup : (quotients.map fun s => back s.metric).Nodup :=
    hkeys.nodup_iff.mpr (nodup_aggregate v)
  have hcopy : relabelVector (labelReplace metricNameLabel "$1" metricNameWorkaroundLabel "(.*)")
      quotients = some (quotients.map fun s => ⟨copyBack s.metric, s.value⟩) := by
    have heq : labelReplace metricNameLabel "$1" metricNameWorkaroundLabel "(.*)" = copyBack :=
      funext fun l => labelReplace_copy _ _ l
    rw [heq, relabelVector_of_nodup (List.Nodup.of_map (groupingLabels grouping without) ?_)]
    rw [List.map_map]
    exact hnodup
  refine ⟨_, hcopy, ?_⟩
  have hsingle : ∀ x : ℚ, maxOf [x] = x := fun x => rfl
  have hmax : (aggregateBy (fun s => groupingLabels grouping without s.metric) maxOf
      (quotients.map fun s => ⟨copyBack s.metric, s.value⟩)).Perm
        (ofResults (quotients.map fun s => (back s.metric, s.value))) := by
    refine ofResults_perm ((aggregate_of_nodup ?_).trans ?_)
    · rw [List.map_map]
      exact hnodup
    · rw [List.map_map]
      simp only [hsingle]
      exact List.Perm.refl _
  refine hmax.trans (ofResults_perm ?_)
  refine (hquotients.map fun s => (back s.metric, s.value)).trans ?_
  rw [ofResults, List.map_map]
  refine hcomp.symm.trans (aggregate_congr fun s hs => ⟨hback s hs, rfl⟩)

end

end Proxystorage
end Proxeus
