import Proxeus.Promql.Engine

/-!
# Promql.EngineSpec

Laws of the engine's operators. The aggregations that are put together again from partial results are
instances of `Recombines`; a division of two aggregations with the same grouping is one aggregation
(`vectorDiv_aggregate`).
-/

namespace Proxeus
namespace Promql

open Lib

/-! ## Vectors of results -/

theorem map_metric_ofResults (results : List (Labels × ℚ)) :
    (ofResults results).map VectorSample.metric = results.map Prod.fst := by
  rw [ofResults, List.map_map]
  rfl

theorem nodup_aggregateBy (key : VectorSample ℚ → Labels) (f : List ℚ → ℚ) (v : InstantVector ℚ) :
    ((aggregateBy key f v).map VectorSample.metric).Nodup := by
  rw [aggregateBy, map_metric_ofResults]
  exact nodup_aggregate v

theorem ofResults_perm {results results' : List (Labels × ℚ)} (h : results.Perm results') :
    (ofResults results).Perm (ofResults results') := h.map _

/-- Aggregating results by what becomes of their labels. -/
theorem aggregateBy_ofResults (outer : Labels → Labels) {g : List ℚ → ℚ}
    (results : List (Labels × ℚ)) :
    (aggregateBy (fun s => outer s.metric) g (ofResults results)).Perm
      (ofResults (aggregate (fun p : Labels × ℚ => outer p.1) Prod.snd g results)) :=
  ofResults_perm (aggregate_map _ results)

theorem aggregateBy_perm (key : VectorSample ℚ → Labels) {f : List ℚ → ℚ} (hf : OrderFree f)
    {v v' : InstantVector ℚ} (h : v.Perm v') : (aggregateBy key f v).Perm (aggregateBy key f v') :=
  ofResults_perm (aggregate_perm hf h)

@[simp] theorem aggregateBy_nil (key : VectorSample ℚ → Labels) (f : List ℚ → ℚ) :
    aggregateBy key f [] = [] := rfl

/-! ## Recombining -/

theorem orderFree_sum : OrderFree (List.sum : List ℚ → ℚ) := fun _ _ h => h.sum_eq

theorem recombines_sum : Recombines (List.sum : List ℚ → ℚ) List.sum List.sum where
  free := orderFree_sum
  recombine parts _ _ l hl := by rw [← hl.sum_eq, List.sum_flatten]

theorem sum_map_countOf (parts : List (List ℚ)) :
    (parts.map countOf).sum = parts.flatten.length := by
  induction parts with
  | nil => simp
  | cons p parts ih =>
    rw [List.map_cons, List.sum_cons, ih, List.flatten_cons, List.length_append, countOf,
      Nat.cast_add]

theorem recombines_count : Recombines countOf List.sum countOf where
  free := orderFree_sum
  recombine parts _ _ l hl := by rw [sum_map_countOf, hl.length_eq, countOf]

theorem recombines_group :
    Recombines (fun _ : List ℚ => (1 : ℚ)) (fun _ : List ℚ => (1 : ℚ)) fun _ : List ℚ => (1 : ℚ) where
  free _ _ _ := rfl
  recombine _ _ _ _ _ := rfl

/-- Choosing the value that stands in the relation to all. -/
theorem recombines_of_extreme {r : ℚ → ℚ → Prop} {f : List ℚ → ℚ}
    (hf : ∀ l, l ≠ [] → ∀ m, f l = m ↔ m ∈ l ∧ ∀ x ∈ l, r m x) : Recombines f f f where
  free l l' hl := by
    by_cases hnil : l = []
    · subst hnil
      rw [hl.nil_eq]
    · have hnil' : l' ≠ [] := fun h => hnil (h ▸ hl).eq_nil
      obtain ⟨hmem, hall⟩ := (hf l' hnil' _).mp rfl
      exact (hf l hnil _).mpr ⟨hl.mem_iff.mpr hmem, fun x hx => hall x (hl.mem_iff.mp hx)⟩
  recombine parts hparts hne l hl := by
    obtain ⟨p, hp⟩ := List.exists_mem_of_ne_nil parts hparts
    obtain ⟨x, hx⟩ := List.exists_mem_of_ne_nil p (hne p hp)
    have hin : ∀ p ∈ parts, ∀ x ∈ p, x ∈ l := fun p hp x hx =>
      hl.mem_iff.mp (List.mem_flatten.mpr ⟨p, hp, hx⟩)
    obtain ⟨hmem, hall⟩ := (hf l (List.ne_nil_of_mem (hin p hp x hx)) _).mp rfl
    refine (hf _ (List.ne_nil_of_mem (List.mem_map_of_mem hp)) _).mpr ⟨?_, fun y hy => ?_⟩
    · obtain ⟨q, hq, hmq⟩ := List.mem_flatten.mp (hl.mem_iff.mpr hmem)
      have hfq : f q = f l := (hf q (hne q hq) _).mpr ⟨hmq, fun z hz => hall z (hin q hq z hz)⟩
      exact List.mem_map.mpr ⟨q, hq, hfq⟩
    · obtain ⟨q, hq, rfl⟩ := List.mem_map.mp hy
      exact hall _ (hin q hq _ ((hf q (hne q hq) _).mp rfl).1)

theorem minOf_eq_iff (l : List ℚ) (h : l ≠ []) (m : ℚ) :
    minOf l = m ↔ m ∈ l ∧ ∀ x ∈ l, m ≤ x := by
  rw [minOf, ← List.min?_eq_some_iff]
  obtain ⟨x, hx⟩ := Option.isSome_iff_exists.mp (List.isSome_min?_of_ne_nil h)
  rw [hx]
  simp

theorem maxOf_eq_iff (l : List ℚ) (h : l ≠ []) (m : ℚ) :
    maxOf l = m ↔ m ∈ l ∧ ∀ x ∈ l, x ≤ m := by
  rw [maxOf, ← List.max?_eq_some_iff]
  obtain ⟨x, hx⟩ := Option.isSome_iff_exists.mp (List.isSome_max?_of_ne_nil h)
  rw [hx]
  simp

theorem recombines_min : Recombines minOf minOf minOf := recombines_of_extreme minOf_eq_iff

theorem recombines_max : Recombines maxOf maxOf maxOf := recombines_of_extreme maxOf_eq_iff

/-- The operators whose results are put together by aggregating once more. -/
def composable : List ItemType := [.sum, .min, .max, .group, .count]

/-- The operator that puts the results together. -/
def outerOp : ItemType → ItemType
  | .count => .sum
  | op => op

theorem exists_recombines [Libraries] {op : ItemType} (h : op ∈ composable) :
    ∃ f g : List ℚ → ℚ, Recombines f g f ∧
      (∀ param grouping without v, aggregation op param grouping without v =
        some (aggregateBy (fun s => groupingLabels grouping without s.metric) f v)) ∧
      ∀ param grouping without v, aggregation (outerOp op) param grouping without v =
        some (aggregateBy (fun s => groupingLabels grouping without s.metric) g v) := by
  simp only [composable, List.mem_cons, List.not_mem_nil, or_false] at h
  rcases h with rfl | rfl | rfl | rfl | rfl
  · exact ⟨_, _, recombines_sum, fun _ _ _ _ => rfl, fun _ _ _ _ => rfl⟩
  · exact ⟨_, _, recombines_min, fun _ _ _ _ => rfl, fun _ _ _ _ => rfl⟩
  · exact ⟨_, _, recombines_max, fun _ _ _ _ => rfl, fun _ _ _ _ => rfl⟩
  · exact ⟨_, _, recombines_group, fun _ _ _ _ => rfl, fun _ _ _ _ => rfl⟩
  · exact ⟨_, _, recombines_count, fun _ _ _ _ => rfl, fun _ _ _ _ => rfl⟩

/-! ## Division and label functions -/

theorem mem_ofResults {results : List (Labels × ℚ)} {s : VectorSample ℚ} :
    s ∈ ofResults results ↔ (s.metric, s.value) ∈ results := by
  simp [ofResults, VectorSample.ext_iff]

theorem perm_of_nodup_metric {v v' : InstantVector ℚ} (h : (v.map VectorSample.metric).Nodup)
    (h' : (v'.map VectorSample.metric).Nodup) (hm : ∀ s, s ∈ v ↔ s ∈ v') : v.Perm v' :=
  (List.perm_ext_iff_of_nodup h.of_map h'.of_map).mpr hm

theorem matchSignature_eq {s : VectorSample ℚ} (h : s.metric.get metricNameLabel = "") :
    matchSignature s = s.metric := by
  refine Labels.ext_get fun name => ?_
  rw [matchSignature, Labels.get_del]
  split
  · rename_i hname
    rw [List.mem_singleton.mp hname, h]
  · rfl

section

variable {α : Type*} {key : α → Labels} {val : α → ℚ} {f g : List ℚ → ℚ} {items : List α}

theorem mem_ofResults_aggregate {s : VectorSample ℚ} :
    s ∈ ofResults (aggregate key val f items) ↔
      (∃ x ∈ items, key x = s.metric) ∧
        s.value = f ((items.filter fun x => key x = s.metric).map val) := by
  rw [mem_ofResults, mem_aggregate]

theorem nodup_of_perm_ofResults {v : InstantVector ℚ}
    (h : v.Perm (ofResults (aggregate key val f items))) : (v.map VectorSample.metric).Nodup := by
  rw [(h.map _).nodup_iff, map_metric_ofResults]
  exact nodup_aggregate items

theorem signatures_of_perm (hname : ∀ x ∈ items, (key x).get metricNameLabel = "")
    {v : InstantVector ℚ} (h : v.Perm (ofResults (aggregate key val f items))) :
    ∀ s ∈ v, matchSignature s = s.metric := by
  intro s hs
  obtain ⟨⟨x, hx, hkey⟩, -⟩ := mem_ofResults_aggregate.mp (h.mem_iff.mp hs)
  exact matchSignature_eq (hkey ▸ hname x hx)

/-- What a result is divided by: the one of the same labels. -/
theorem find_of_perm (hname : ∀ x ∈ items, (key x).get metricNameLabel = "")
    {v : InstantVector ℚ} (h : v.Perm (ofResults (aggregate key val g items))) {l : Labels}
    (hl : ∃ x ∈ items, key x = l) :
    ∃ r, v.find? (fun r => matchSignature r = l) = some r ∧
      r.value = g ((items.filter fun x => key x = l).map val) := by
  have hsig := signatures_of_perm hname h
  cases hf : v.find? fun r => matchSignature r = l with
  | none =>
    have hmem : (⟨l, g ((items.filter fun x => key x = l).map val)⟩ : VectorSample ℚ) ∈ v :=
      h.mem_iff.mpr (mem_ofResults_aggregate.mpr ⟨hl, rfl⟩)
    exact absurd (decide_eq_true (hsig _ hmem)) (List.find?_eq_none.mp hf _ hmem)
  | some r =>
    have hmem := List.mem_of_find?_eq_some hf
    have hfound : matchSignature r = l := by simpa using List.find?_some hf
    have hmetric : r.metric = l := (hsig r hmem).symm.trans hfound
    have hval := (mem_ofResults_aggregate.mp (h.mem_iff.mp hmem)).2
    rw [hmetric] at hval
    exact ⟨r, rfl, hval⟩

/-- Dividing the results of two aggregations with the same labels. -/
theorem vectorDiv_aggregate (hname : ∀ x ∈ items, (key x).get metricNameLabel = "")
    {lhs rhs : InstantVector ℚ} (hl : lhs.Perm (ofResults (aggregate key val f items)))
    (hr : rhs.Perm (ofResults (aggregate key val g items))) :
    ∃ out, vectorDiv lhs rhs = some out ∧
      out.Perm (ofResults (aggregate key val (fun vals => f vals / g vals) items)) := by
  rw [vectorDiv]
  by_cases hnil : lhs = [] ∨ rhs = []
  · have hitems : items = [] := by
      refine List.eq_nil_iff_forall_not_mem.mpr fun x hx => ?_
      have hmem : ∀ {f : List ℚ → ℚ} {v : InstantVector ℚ},
          v.Perm (ofResults (aggregate key val f items)) → v ≠ [] := by
        rintro f v h rfl
        have hsome : (⟨key x, f ((items.filter fun y => key y = key x).map val)⟩ : VectorSample ℚ) ∈
            ofResults (aggregate key val f items) :=
          mem_ofResults_aggregate.mpr ⟨⟨x, hx, rfl⟩, rfl⟩
        exact List.not_mem_nil (h.mem_iff.mpr hsome)
      exact hnil.elim (hmem hl) (hmem hr)
    subst hitems
    exact ⟨[], if_pos hnil, List.Perm.refl _⟩
  · have hsigl := signatures_of_perm hname hl
    have hsigr := signatures_of_perm hname hr
    have hnodupl : (lhs.map matchSignature).Nodup := by
      rw [List.map_congr_left hsigl]
      exact nodup_of_perm_ofResults hl
    have hnodupr : (rhs.map matchSignature).Nodup := by
      rw [List.map_congr_left hsigr]
      exact nodup_of_perm_ofResults hr
    have hmatched := hnodupl.sublist ((List.filter_sublist (p := fun l =>
      decide (matchSignature l ∈ rhs.map matchSignature))).map matchSignature)
    let quotient (l : VectorSample ℚ) : VectorSample ℚ :=
      ⟨l.metric, l.value / g ((items.filter fun x => key x = l.metric).map val)⟩
    have hquotient : ∀ l ∈ lhs, ((rhs.find? fun r => matchSignature r = matchSignature l).map
        fun r => (⟨matchSignature l, l.value / r.value⟩ : VectorSample ℚ)) = some (quotient l) := by
      intro l hmem
      obtain ⟨r, hfind, hval⟩ :=
        find_of_perm hname hr (mem_ofResults_aggregate.mp (hl.mem_iff.mp hmem)).1
      rw [hsigl l hmem, hfind, Option.map_some, hval]
    rw [if_neg hnil, if_neg (not_not.mpr hnodupr), if_neg (not_not.mpr hmatched),
      List.filterMap_congr hquotient, List.filterMap_eq_map']
    refine ⟨_, rfl, perm_of_nodup_metric ?_ ?_ fun s => ?_⟩
    · rw [List.map_map]
      exact nodup_of_perm_ofResults hl
    · exact nodup_of_perm_ofResults (List.Perm.refl _)
    · simp only [List.mem_map, hl.mem_iff, mem_ofResults_aggregate]
      constructor
      · rintro ⟨l, ⟨hex, hval⟩, rfl⟩
        exact ⟨hex, congrArg (· / _) hval⟩
      · rintro ⟨hex, hval⟩
        exact ⟨⟨s.metric, f ((items.filter fun x => key x = s.metric).map val)⟩, ⟨hex, rfl⟩,
          VectorSample.ext rfl hval.symm⟩

end

theorem relabelVector_of_nodup {f : Labels → Labels} {v : InstantVector ℚ}
    (h : (v.map fun s => f s.metric).Nodup) :
    relabelVector f v = some (v.map fun s => { s with metric := f s.metric }) := by
  rw [relabelVector, if_pos]
  rw [List.map_map]
  exact h

/-! ## A concrete instance -/

/-- Regular expressions without operators, and the two that match every string and every string but
the empty one. -/
abbrev literalRegexp : Regexp where
  matchString re s :=
    if re = ".+" then s ≠ "" else if re = ".*" then true else s = re
  expand re template s :=
    if re = "(.*)" then some (if template = "$1" then s else template)
    else if s = re then some template else none
  matchString_any _ := rfl
  expand_all _ := rfl

/-- Chooses by sorting; the functions and aggregations that the proxy does not deal in are left
out. -/
abbrev sortingLibraries : Libraries where
  toRegexp := literalRegexp
  formatFloat f := toString f
  topk k v := (sortBy (fun s => OrderDual.toDual s.value) v).take k
  bottomk k v := (sortBy (fun s => OrderDual.toDual (OrderDual.toDual s.value)) v).take k
  topk_isTop k v := isTop_take_sortBy VectorSample.value k v
  bottomk_isTop k v := isTop_take_sortBy (fun s => OrderDual.toDual s.value) k v
  rest :=
    { atModifierUnsafe := fun _ => false
      call := fun _ _ _ => none
      aggregation := fun _ _ _ _ _ => none
      binary := fun _ _ _ => none
      unary := fun _ _ => none
      call_safe := fun _ _ _ _ _ => rfl }

end Promql
end Proxeus
