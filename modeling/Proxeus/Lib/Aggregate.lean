import Proxeus.Lib.Grouping

/-!
# Lib.Aggregate

Aggregating the values of a list by a key. `mem_aggregate` says what an aggregation holds, whatever
the order of the list; from it come the laws of evaluating in two levels: the aggregations of parts
that share no key are the aggregation of the whole (`aggregate_flatMap`), and aggregating the
results again by a coarser key is one aggregation (`aggregate_aggregate`) for functions that
recombine.
-/

namespace Proxeus
namespace Lib

theorem perm_of_nodup_keys {κ β : Type*} {l l' : List (κ × β)} (h : (l.map Prod.fst).Nodup)
    (h' : (l'.map Prod.fst).Nodup) (hm : ∀ k b, (k, b) ∈ l ↔ (k, b) ∈ l') : l.Perm l' :=
  (List.perm_ext_iff_of_nodup h.of_map h'.of_map).mpr fun p => hm p.1 p.2

section

variable {α ι κ β γ : Type*} [DecidableEq ι] [DecidableEq κ]

/-- The result of `f` over the values of every key. -/
def aggregate (key : α → κ) (val : α → β) (f : List β → γ) (items : List α) : List (κ × γ) :=
  (group key (fun x => [val x]) (fun vals x => vals ++ [val x]) items).map fun p => (p.1, f p.2)

variable {key : α → κ} {val : α → β} {f : List β → γ}

theorem foldSlot_vals (val : α → β) (items : List α) :
    foldSlot (fun x => [val x]) (fun vals x => vals ++ [val x]) items =
      if items = [] then none else some (items.map val) := by
  induction items using List.reverseRecOn with
  | nil => rfl
  | append_singleton items x ih =>
    rw [foldSlot_concat, ih, if_neg (List.append_ne_nil_of_right_ne_nil _ (List.cons_ne_nil _ _))]
    by_cases hnil : items = []
    · simp [hnil]
    · simp [hnil]

theorem nodup_aggregate (items : List α) : ((aggregate key val f items).map Prod.fst).Nodup := by
  rw [aggregate, List.map_map]
  exact nodup_group items

theorem mem_aggregate {items : List α} {k : κ} {c : γ} :
    (k, c) ∈ aggregate key val f items ↔
      (∃ x ∈ items, key x = k) ∧ c = f ((items.filter fun x => key x = k).map val) := by
  simp only [aggregate, List.mem_map, Prod.mk.injEq, Prod.exists]
  constructor
  · rintro ⟨k', vals, hmem, rfl, rfl⟩
    refine ⟨mem_keys_group.mp (List.mem_map_of_mem (f := Prod.fst) hmem), ?_⟩
    have hslot := mem_group.mp hmem
    rw [foldSlot_vals] at hslot
    split at hslot
    · cases hslot
    · cases hslot
      rfl
  · rintro ⟨hkey, rfl⟩
    obtain ⟨x, hx, hk⟩ := hkey
    refine ⟨k, _, mem_group.mpr ?_, rfl, rfl⟩
    have hne : items.filter (fun x => key x = k) ≠ [] :=
      List.ne_nil_of_mem (List.mem_filter.mpr ⟨hx, decide_eq_true hk⟩)
    rw [foldSlot_vals, if_neg hne]

theorem mem_keys_aggregate {items : List α} {k : κ} :
    k ∈ (aggregate key val f items).map Prod.fst ↔ ∃ x ∈ items, key x = k := by
  rw [aggregate, List.map_map]
  exact mem_keys_group

/-- Two aggregations with the same results. -/
theorem aggregate_perm_iff {α' β' : Type*} {key' : α' → κ} {val' : α' → β'} {f' : List β' → γ}
    {items : List α} {items' : List α'} :
    (aggregate key val f items).Perm (aggregate key' val' f' items') ↔
      (∀ k, (∃ x ∈ items, key x = k) ↔ ∃ x ∈ items', key' x = k) ∧
        ∀ k, (∃ x ∈ items, key x = k) →
          f ((items.filter fun x => key x = k).map val) =
            f' ((items'.filter fun x => key' x = k).map val') := by
  constructor
  · intro h
    have hkeys : ∀ k, (∃ x ∈ items, key x = k) ↔ ∃ x ∈ items', key' x = k := fun k => by
      have hmem := (h.map Prod.fst).mem_iff (a := k)
      rwa [mem_keys_aggregate, mem_keys_aggregate] at hmem
    refine ⟨hkeys, fun k hk => ?_⟩
    exact (mem_aggregate.mp (h.mem_iff.mp (mem_aggregate.mpr ⟨hk, rfl⟩))).2
  · rintro ⟨hkeys, hvals⟩
    refine perm_of_nodup_keys (nodup_aggregate _) (nodup_aggregate _) fun k c => ?_
    rw [mem_aggregate, mem_aggregate, ← hkeys k]
    exact and_congr_right fun hk => by rw [hvals k hk]

/-- The function does not see the order of the values. -/
def OrderFree (f : List β → γ) : Prop := ∀ l l' : List β, l.Perm l' → f l = f l'

theorem aggregate_perm (hf : OrderFree f) {items items' : List α} (h : items.Perm items') :
    (aggregate key val f items).Perm (aggregate key val f items') := by
  refine perm_of_nodup_keys (nodup_aggregate _) (nodup_aggregate _) fun k c => ?_
  rw [mem_aggregate, mem_aggregate, hf _ _ ((h.filter _).map val)]
  simp only [h.mem_iff]

theorem aggregate_congr {key' : α → κ} {val' : α → β} {items : List α}
    (h : ∀ x ∈ items, key x = key' x ∧ val x = val' x) :
    (aggregate key val f items).Perm (aggregate key' val' f items) := by
  refine perm_of_nodup_keys (nodup_aggregate _) (nodup_aggregate _) fun k c => ?_
  have hfilter : items.filter (fun x => key x = k) = items.filter fun x => key' x = k :=
    List.filter_congr fun x hx => by rw [(h x hx).1]
  have hval : (items.filter fun x => key' x = k).map val =
      (items.filter fun x => key' x = k).map val' :=
    List.map_congr_left fun x hx => (h x (List.mem_filter.mp hx).1).2
  rw [mem_aggregate, mem_aggregate, hfilter, hval]
  refine and_congr_left fun _ => ?_
  exact exists_congr fun x => and_congr_right fun hx => by rw [(h x hx).1]

theorem aggregate_map_eq {α' : Type*} (e : α' → α) (items : List α') :
    aggregate key val f (items.map e) = aggregate (key ∘ e) (val ∘ e) f items := by
  rw [aggregate, aggregate, group_map]
  rfl

theorem aggregate_map {α' : Type*} (e : α' → α) (items : List α') :
    (aggregate key val f (items.map e)).Perm (aggregate (key ∘ e) (val ∘ e) f items) :=
  List.Perm.of_eq (aggregate_map_eq e items)

/-- The results, by the keys alone. -/
theorem aggregate_eq_map (items : List α) :
    aggregate key val f items =
      ((group key (fun _ => ()) (fun _ _ => ()) items).map Prod.fst).map fun k =>
        (k, f ((items.filter fun x => key x = k).map val)) := by
  rw [map_fst_group (fun x => [val x]) (fun vals x => vals ++ [val x]), List.map_map, aggregate]
  refine List.map_congr_left fun p hp => Prod.ext rfl ?_
  have hmem : (p.1, f p.2) ∈ aggregate key val f items := List.mem_map.mpr ⟨p, hp, rfl⟩
  exact (mem_aggregate.mp hmem).2

/-- Renaming the keys apart after the aggregation or before it. -/
theorem aggregate_comp_key (φ : ι → κ) {key : α → ι} {items : List α}
    (hφ : ∀ x ∈ items, ∀ y ∈ items, φ (key x) = φ (key y) → key x = key y) :
    (aggregate (φ ∘ key) val f items).Perm
      ((aggregate key val f items).map fun p => (φ p.1, p.2)) := by
  have hinj : ∀ j ∈ (aggregate key val f items).map Prod.fst,
      ∀ j' ∈ (aggregate key val f items).map Prod.fst, φ j = φ j' → j = j' := by
    intro j hj j' hj' heq
    obtain ⟨x, hx, rfl⟩ := mem_keys_aggregate.mp hj
    obtain ⟨y, hy, rfl⟩ := mem_keys_aggregate.mp hj'
    exact hφ x hx y hy heq
  have hfst : ((aggregate key val f items).map fun p => (φ p.1, p.2)).map Prod.fst =
      ((aggregate key val f items).map Prod.fst).map φ := by
    rw [List.map_map, List.map_map]
    rfl
  refine perm_of_nodup_keys (nodup_aggregate _) ?_ fun k c => ?_
  · rw [hfst]
    exact List.Nodup.map_on hinj (nodup_aggregate _)
  · have hfilter : ∀ x ∈ items, items.filter (fun y => φ (key y) = φ (key x)) =
        items.filter fun y => key y = key x := fun x hx =>
      List.filter_congr fun y hy => decide_eq_decide.mpr ⟨hφ y hy x hx, congrArg φ⟩
    simp only [mem_aggregate, List.mem_map, Prod.mk.injEq, Prod.exists, Function.comp_apply]
    constructor
    · rintro ⟨⟨x, hx, rfl⟩, rfl⟩
      exact ⟨key x, _, ⟨⟨x, hx, rfl⟩, rfl⟩, rfl, by rw [hfilter x hx]⟩
    · rintro ⟨j, c', ⟨⟨x, hx, rfl⟩, rfl⟩, rfl, rfl⟩
      exact ⟨⟨x, hx, rfl⟩, by rw [hfilter x hx]⟩

theorem filter_key_of_nodup {key : α → κ} {items : List α} (h : (items.map key).Nodup) {x : α}
    (hx : x ∈ items) : items.filter (fun y => key y = key x) = [x] := by
  induction items with
  | nil => cases hx
  | cons y items ih =>
    rw [List.map_cons, List.nodup_cons] at h
    rcases List.mem_cons.mp hx with rfl | hx
    · have hrest : items.filter (fun y => key y = key x) = [] :=
        List.filter_eq_nil_iff.mpr fun y hy heq =>
          h.1 (of_decide_eq_true heq ▸ List.mem_map_of_mem hy)
      rw [List.filter_cons, if_pos (decide_eq_true rfl), hrest]
    · have hne : key y ≠ key x := fun heq => h.1 (heq ▸ List.mem_map_of_mem hx)
      rw [List.filter_cons, if_neg (by simpa using hne), ih h.2 hx]

/-- Where no key occurs twice, every element is a result. -/
theorem aggregate_of_nodup {items : List α} (h : (items.map key).Nodup) :
    (aggregate key val f items).Perm (items.map fun x => (key x, f [val x])) := by
  refine perm_of_nodup_keys (nodup_aggregate _) ?_ fun k c => ?_
  · rw [List.map_map]
    exact h
  · simp only [mem_aggregate, List.mem_map, Prod.mk.injEq]
    constructor
    · rintro ⟨⟨x, hx, rfl⟩, rfl⟩
      exact ⟨x, hx, rfl, by rw [filter_key_of_nodup h hx, List.map_singleton]⟩
    · rintro ⟨x, hx, rfl, rfl⟩
      exact ⟨⟨x, hx, rfl⟩, by rw [filter_key_of_nodup h hx, List.map_singleton]⟩

/-! ## Two levels -/

theorem aggregate_append {xs ys : List α} (h : ∀ x ∈ xs, ∀ y ∈ ys, key x ≠ key y) :
    (aggregate key val f (xs ++ ys)).Perm (aggregate key val f xs ++ aggregate key val f ys) := by
  refine perm_of_nodup_keys (nodup_aggregate _) ?_ fun k c => ?_
  · rw [List.map_append, List.nodup_append]
    refine ⟨nodup_aggregate _, nodup_aggregate _, fun k hk k' hk' => ?_⟩
    obtain ⟨x, hx, rfl⟩ := mem_keys_aggregate.mp hk
    obtain ⟨y, hy, rfl⟩ := mem_keys_aggregate.mp hk'
    exact h x hx y hy
  · rw [List.mem_append, mem_aggregate, mem_aggregate, mem_aggregate, List.filter_append]
    have hx : ∀ x ∈ xs, key x = k → ys.filter (fun y => key y = k) = [] := fun x hx hk => by
      rw [List.filter_eq_nil_iff]
      exact fun y hy hky => h x hx y hy (hk.trans (of_decide_eq_true hky).symm)
    have hy : ∀ y ∈ ys, key y = k → xs.filter (fun x => key x = k) = [] := fun y hy hk => by
      rw [List.filter_eq_nil_iff]
      exact fun x hx hkx => h x hx y hy ((of_decide_eq_true hkx).trans hk.symm)
    constructor
    · rintro ⟨⟨x, hmem, hk⟩, rfl⟩
      rcases List.mem_append.mp hmem with hmem | hmem
      · rw [hx x hmem hk, List.append_nil]
        exact Or.inl ⟨⟨x, hmem, hk⟩, rfl⟩
      · rw [hy x hmem hk, List.nil_append]
        exact Or.inr ⟨⟨x, hmem, hk⟩, rfl⟩
    · rintro (⟨⟨x, hmem, hk⟩, rfl⟩ | ⟨⟨x, hmem, hk⟩, rfl⟩)
      · rw [hx x hmem hk, List.append_nil]
        exact ⟨⟨x, List.mem_append_left _ hmem, hk⟩, rfl⟩
      · rw [hy x hmem hk, List.nil_append]
        exact ⟨⟨x, List.mem_append_right _ hmem, hk⟩, rfl⟩

/-- The aggregations of parts that share no key. -/
theorem aggregate_flatMap {π : Type*} (parts : List π) (part : π → List α)
    (h : parts.Pairwise fun p q => ∀ x ∈ part p, ∀ y ∈ part q, key x ≠ key y) :
    (parts.flatMap fun p => aggregate key val f (part p)).Perm
      (aggregate key val f (parts.flatMap part)) := by
  induction parts with
  | nil => exact List.Perm.refl _
  | cons p parts ih =>
    rw [List.pairwise_cons] at h
    rw [List.flatMap_cons, List.flatMap_cons]
    refine ((ih h.2).append_left _).trans (aggregate_append fun x hx y hy => ?_).symm
    obtain ⟨q, hq, hyq⟩ := List.mem_flatMap.mp hy
    exact h.1 q hq x hx y hyq

/-- `g` over the results of `f` is `h` over all the values. -/
structure Recombines {δ : Type*} (f : List β → γ) (g : List γ → δ) (h : List β → δ) : Prop where
  free : OrderFree g
  recombine : ∀ parts : List (List β), parts ≠ [] → (∀ p ∈ parts, p ≠ []) →
    ∀ l, parts.flatten.Perm l → g (parts.map f) = h l

/-- The results under the outer key `k` are those of the parts that the inner keys cut the
elements of `k` into. -/
theorem exists_parts (val : α → β) (f : List β → γ) (outer : ι → κ) (inner : α → ι) {items : List α} {k : κ}
    (hex : ∃ x ∈ items, outer (inner x) = k) :
    ∃ parts : List (List β),
      ((aggregate inner val f items).filter fun p => outer p.1 = k).map Prod.snd = parts.map f ∧
      parts ≠ [] ∧ (∀ p ∈ parts, p ≠ []) ∧
      parts.flatten.Perm ((items.filter fun x => outer (inner x) = k).map val) := by
  set slots := (aggregate inner val f items).filter fun p => outer p.1 = k with hslots
  let part (j : ι) : List α := items.filter fun x => inner x = j
  have hslot : ∀ p ∈ slots, outer p.1 = k ∧ (∃ x ∈ items, inner x = p.1) ∧
      p.2 = f ((part p.1).map val) := by
    intro p hp
    rw [hslots, List.mem_filter, decide_eq_true_eq] at hp
    exact ⟨hp.2, mem_aggregate.mp (show (p.1, p.2) ∈ _ from hp.1)⟩
  have hcover : ∀ x ∈ items.filter (fun x => outer (inner x) = k),
      inner x ∈ slots.map Prod.fst := by
    intro x hx
    rw [List.mem_filter, decide_eq_true_eq] at hx
    have hkey : inner x ∈ (aggregate inner val f items).map Prod.fst :=
      mem_keys_aggregate.mpr ⟨x, hx.1, rfl⟩
    obtain ⟨p, hp, hpx⟩ := List.mem_map.mp hkey
    refine List.mem_map.mpr ⟨p, List.mem_filter.mpr ⟨hp, decide_eq_true ?_⟩, hpx⟩
    rw [hpx, hx.2]
  have hall : ((aggregate inner val f items).map Prod.fst).Nodup := nodup_aggregate items
  have hnodup : (slots.map Prod.fst).Nodup := hall.sublist (List.filter_sublist.map _)
  have hpart : ∀ j ∈ slots.map Prod.fst,
      part j = (items.filter fun x => outer (inner x) = k).filter fun x => inner x = j := by
    intro j hj
    obtain ⟨p, hp, rfl⟩ := List.mem_map.mp hj
    rw [List.filter_filter]
    refine List.filter_congr fun x _ => ?_
    by_cases hx : inner x = p.1
    · simp [hx, (hslot p hp).1]
    · simp [hx]
  refine ⟨slots.map fun p => (part p.1).map val, ?_, ?_, ?_, ?_⟩
  · rw [List.map_map]
    exact List.map_congr_left fun p hp => (hslot p hp).2.2
  · obtain ⟨x, hx, hk⟩ := hex
    have hmem := hcover x (List.mem_filter.mpr ⟨hx, decide_eq_true hk⟩)
    exact fun hnil => List.ne_nil_of_mem hmem (by rw [List.map_eq_nil_iff.mp hnil, List.map_nil])
  · intro l hl
    obtain ⟨p, hp, rfl⟩ := List.mem_map.mp hl
    obtain ⟨-, ⟨x, hx, hxp⟩, -⟩ := hslot p hp
    exact List.ne_nil_of_mem
      (List.mem_map_of_mem (List.mem_filter.mpr ⟨hx, decide_eq_true hxp⟩))
  · have hflat := (perm_flatMap_filter hnodup hcover).map val
    rw [← List.flatMap_congr hpart, List.map_flatMap, List.flatMap_map, List.flatMap_def] at hflat
    exact hflat

theorem aggregate_aggregate {δ : Type*} {g : List γ → δ} {h : List β → δ}
    (hr : Recombines f g h) (outer : ι → κ) (inner : α → ι) (items : List α) :
    (aggregate (fun p : ι × γ => outer p.1) Prod.snd g (aggregate inner val f items)).Perm
      (aggregate (outer ∘ inner) val h items) := by
  refine perm_of_nodup_keys (nodup_aggregate _) (nodup_aggregate _) fun k c => ?_
  rw [mem_aggregate, mem_aggregate]
  have hkeys : (∃ p ∈ aggregate inner val f items, outer p.1 = k) ↔
      ∃ x ∈ items, (outer ∘ inner) x = k := by
    constructor
    · rintro ⟨p, hp, hk⟩
      obtain ⟨x, hx, hxp⟩ := mem_keys_aggregate.mp (List.mem_map_of_mem (f := Prod.fst) hp)
      exact ⟨x, hx, by rw [Function.comp_apply, hxp, hk]⟩
    · rintro ⟨x, hx, hk⟩
      exact ⟨(inner x, _), mem_aggregate.mpr ⟨⟨x, hx, rfl⟩, rfl⟩, hk⟩
  rw [hkeys]
  refine and_congr_right fun hex => ?_
  obtain ⟨parts, hvals, hsome, hparts, hflat⟩ :=
    exists_parts val f outer inner hex
  rw [hvals, hr.recombine parts hsome hparts _ hflat]
  rfl

end

end Lib
end Proxeus
