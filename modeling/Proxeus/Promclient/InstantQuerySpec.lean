import Proxeus.Promclient.InstantQuery

/-!
# Promclient.InstantQuerySpec

What the clients make of an instant query. The labels a client adds select and group the same
before and after they are added (`selects_addLabels`, `groupingLabels_setAll`), and a merge of
sets that share no label set is their union (`mergeSeriesSets_perm`).
-/

namespace Proxeus

open Lib

/-! ## Labels that are added -/

namespace LabelSet

variable {ls : LabelSet} {name value : String}

theorem mem_of_lookup (h : ls.lookup name = some value) : ⟨name, value⟩ ∈ ls.pairs := by
  obtain ⟨p, hp, rfl⟩ := Option.map_eq_some_iff.mp h
  have hname : p.name = name := by simpa using List.find?_some hp
  exact hname ▸ List.mem_of_find?_eq_some hp

theorem lookup_eq_none : ls.lookup name = none ↔ name ∉ ls.names := by
  rw [lookup, Option.map_eq_none_iff, List.find?_eq_none, names]
  simp

end LabelSet

namespace Labels

variable {ls : LabelSet} {name value : String}

theorem get_setAll_of_lookup (l : Labels) (h : ls.lookup name = some value) :
    (l.setAll ls.pairs).get name = value :=
  l.get_setAll_of_mem ls.ascending.nodup_keys (LabelSet.mem_of_lookup h)

theorem get_setAll_of_notMem_names (l : Labels) (h : name ∉ ls.names) :
    (l.setAll ls.pairs).get name = l.get name :=
  l.get_setAll_of_notMem fun _ hp hname => h (List.mem_map.mpr ⟨_, hp, hname⟩)

/-- The added labels, and the others of the label set. -/
theorem get_setAll (l : Labels) (ls : LabelSet) (name : String) :
    (l.setAll ls.pairs).get name = (ls.lookup name).getD (l.get name) := by
  cases h : ls.lookup name with
  | none => exact l.get_setAll_of_notMem_names (LabelSet.lookup_eq_none.mp h)
  | some value => exact l.get_setAll_of_lookup h

/-- Labels are added apart to label sets that lack them. -/
theorem setAll_injective {l l' : Labels} (h : ∀ name ∈ ls.names, l.get name = "")
    (h' : ∀ name ∈ ls.names, l'.get name = "") (heq : l.setAll ls.pairs = l'.setAll ls.pairs) :
    l = l' := by
  refine ext_get fun name => ?_
  by_cases hname : name ∈ ls.names
  · rw [h name hname, h' name hname]
  · rw [← l.get_setAll_of_notMem_names hname, heq, l'.get_setAll_of_notMem_names hname]

end Labels

namespace Promclient

open Promhttputil Promql

theorem get_groupingLabels (grouping : List String) (without : Bool) (metric : Labels)
    (name : String) :
    (groupingLabels grouping without metric).get name =
      if (name ∈ grouping ∧ without = false) ∨
          (name ∉ grouping ∧ name ≠ metricNameLabel ∧ without = true) then metric.get name
      else "" := by
  cases without with
  | false => simp [groupingLabels]
  | true =>
    by_cases hname : name = metricNameLabel ∨ name ∈ grouping
    · simp [groupingLabels, hname]
      tauto
    · rw [not_or] at hname
      simp [groupingLabels, hname]

/-- Grouping, adding labels and grouping again. -/
theorem groupingLabels_setAll (grouping : List String) (without : Bool) (metric : Labels)
    (ls : LabelSet) :
    groupingLabels grouping without ((groupingLabels grouping without metric).setAll ls.pairs) =
      groupingLabels grouping without (metric.setAll ls.pairs) := by
  refine Labels.ext_get fun name => ?_
  simp only [get_groupingLabels, Labels.get_setAll]
  split
  · rfl
  · rfl

/-! ## Selectors without the matchers of the added labels -/

section

variable [Regexp] {ls : LabelSet} {matchers left : List Matcher}

/-- Matching the added labels apart from the others. -/
theorem selects_setAll (ls : LabelSet) (matchers : List Matcher) (metric : Labels) :
    selects matchers (metric.setAll ls.pairs) =
      match filterMatchersLoop ls matchers with
      | none => false
      | some left => selects left metric := by
  induction matchers with
  | nil => rfl
  | cons m matchers ih =>
    rw [selects, List.all_cons, ← selects, ih, filterMatchersLoop, Labels.get_setAll]
    cases hlookup : ls.lookup m.name with
    | none => cases filterMatchersLoop ls matchers <;> simp [selects]
    | some value => cases hacc : m.accepts value <;> simp [hacc]

theorem mem_of_filterMatchersLoop (h : filterMatchersLoop ls matchers = some left) :
    ∀ m, m ∈ left ↔ m ∈ matchers ∧ m.name ∉ ls.names := by
  induction matchers generalizing left with
  | nil =>
    cases h
    simp
  | cons m matchers ih =>
    intro m'
    rw [filterMatchersLoop] at h
    cases hlookup : ls.lookup m.name with
    | none =>
      rw [hlookup] at h
      obtain ⟨rest, hrest, rfl⟩ := Option.map_eq_some_iff.mp h
      rw [List.mem_cons, List.mem_cons, ih hrest, or_and_right]
      refine or_congr_left ⟨fun heq => ⟨heq, ?_⟩, fun hm => hm.1⟩
      exact heq ▸ LabelSet.lookup_eq_none.mp hlookup
    | some value =>
      have hin : m.name ∈ ls.names := by
        by_contra hnot
        rw [LabelSet.lookup_eq_none.mpr hnot] at hlookup
        cases hlookup
      simp only [hlookup] at h
      split at h
      · rw [ih h, List.mem_cons, or_and_right]
        refine (or_iff_right fun hm => hm.2 (hm.1 ▸ hin)).symm
      · cases h

end

/-! ## Merging -/

section

variable {α β : Type*}

theorem filterMap_range_getElem? (l : List α) :
    (List.range l.length).filterMap (fun j => l[j]?) = l := by
  induction l with
  | nil => rfl
  | cons x l ih =>
    rw [List.length_cons, List.range_succ_eq_map, List.filterMap_cons, List.filterMap_map]
    exact congrArg (x :: ·) ih

theorem filterMap_places (sets : List (List α)) :
    (places sets).filterMap (elementAt sets) = sets.flatten := by
  induction sets with
  | nil => rfl
  | cons set sets ih =>
    have hset : ((List.range set.length).map fun j => (0, j)).filterMap
        (elementAt (set :: sets)) = set := by
      rw [List.filterMap_map]
      exact filterMap_range_getElem? set
    have hsets : ((places sets).map fun p => (p.1 + 1, p.2)).filterMap
        (elementAt (set :: sets)) = sets.flatten := by
      rw [List.filterMap_map, ← ih]
      rfl
    rw [places, List.filterMap_append, hset, hsets, List.flatten_cons]

theorem elementAt_map (f : α → β) (sets : List (List α)) (p : Nat × Nat) :
    elementAt (sets.map (List.map f)) p = (elementAt sets p).map f := by
  rw [elementAt, elementAt, List.getElem?_map]
  cases sets[p.1]? with
  | none => rfl
  | some set => simp

theorem places_map (f : α → β) (sets : List (List α)) :
    places (sets.map (List.map f)) = places sets := by
  induction sets with
  | nil => rfl
  | cons set sets ih => rw [List.map_cons, places, places, ih, List.length_map]

theorem isSome_elementAt {sets : List (List α)} {p : Nat × Nat} (h : p ∈ places sets) :
    (elementAt sets p).isSome := by
  induction sets generalizing p with
  | nil => cases h
  | cons set sets ih =>
    rw [places, List.mem_append, List.mem_map, List.mem_map] at h
    rcases h with ⟨j, hj, rfl⟩ | ⟨q, hq, rfl⟩
    · simpa [elementAt] using hj
    · exact ih hq

/-- Where no element occurs twice, places have different elements. -/
theorem places_pairwise {sets : List (List α)} (h : sets.flatten.Nodup) :
    (places sets).Pairwise fun p q => elementAt sets p ≠ elementAt sets q := by
  rw [← filterMap_places, List.Nodup, List.pairwise_filterMap] at h
  refine h.imp_of_mem fun {p q} hp hq hne heq => ?_
  obtain ⟨x, hx⟩ := Option.isSome_iff_exists.mp (isSome_elementAt hp)
  exact hne x hx x (heq ▸ hx) rfl

theorem filterMap_head_flatten {π : Type*} {classes : List (List π)}
    (h : ∀ c ∈ classes, ∃ p, c = [p]) (f : π → Option α) :
    classes.filterMap (fun c => c.head?.bind f) = classes.flatten.filterMap f := by
  induction classes with
  | nil => rfl
  | cons c classes ih =>
    obtain ⟨p, rfl⟩ := h c List.mem_cons_self
    have hrest := ih fun d hd => h d (List.mem_cons_of_mem _ hd)
    rw [List.flatten_cons, List.singleton_append, List.filterMap_cons, List.filterMap_cons, hrest]
    rfl

variable [MergeSeriesSet]

/-- The merge looks at nothing but the labels. -/
theorem mergeSeriesSets_map (labels : β → Labels) (f : α → β) (sets : List (List α)) :
    mergeSeriesSets labels (sets.map (List.map f)) =
      (mergeSeriesSets (labels ∘ f) sets).map f := by
  match sets with
  | [] => rfl
  | [set] => rfl
  | set :: set' :: sets =>
    have hlabels : List.map labels ∘ List.map f = List.map (labels ∘ f) :=
      List.map_comp_map _ _
    simp only [List.map_cons, mergeSeriesSets, List.map_filterMap, List.map_map, hlabels]
    congr 1
    funext merged
    cases merged.head? with
    | none => rfl
    | some p => exact elementAt_map f (set :: set' :: sets) p

/-- Without a label set that occurs twice, nothing is merged. -/
theorem newMergeSeriesSet_singletons {sets : List (List Labels)} (h : sets.flatten.Nodup) :
    ∀ merged ∈ MergeSeriesSet.newMergeSeriesSet sets, ∃ p, merged = [p] := by
  intro merged hmem
  have hpw := ((MergeSeriesSet.perm_places sets).pairwise_iff fun hne => hne.symm).mpr
    (places_pairwise h)
  have hdistinct := (List.pairwise_flatten.mp hpw).1 merged hmem
  match merged with
  | [] => exact absurd rfl (MergeSeriesSet.ne_nil sets [] hmem)
  | [p] => exact ⟨p, rfl⟩
  | p :: q :: merged =>
    have hsame := MergeSeriesSet.same_labels sets _ hmem p List.mem_cons_self q (by simp)
    exact absurd hsame ((List.pairwise_cons.mp hdistinct).1 q List.mem_cons_self)

omit [MergeSeriesSet] in
theorem filterMap_head_sublist {π : Type*} (classes : List (List π)) :
    (classes.filterMap List.head?).Sublist classes.flatten := by
  induction classes with
  | nil => exact List.Sublist.refl _
  | cons c classes ih =>
    cases c with
    | nil => exact ih
    | cons p c => exact (ih.trans (List.sublist_append_right c _)).cons_cons p

/-- The merge keeps the elements of some of the places. -/
theorem mergeSeriesSets_subperm (labels : α → Labels) (sets : List (List α)) :
    (mergeSeriesSets labels sets).Subperm sets.flatten := by
  match sets with
  | [] => exact List.Subperm.refl _
  | [set] => simp [mergeSeriesSets, List.Subperm.refl]
  | set :: set' :: sets =>
    let classes := MergeSeriesSet.newMergeSeriesSet ((set :: set' :: sets).map (List.map labels))
    have hheads := filterMap_head_sublist classes
    have hperm := (MergeSeriesSet.perm_places
      ((set :: set' :: sets).map (List.map labels))).filterMap (elementAt (set :: set' :: sets))
    rw [places_map, filterMap_places] at hperm
    have hmerge : mergeSeriesSets labels (set :: set' :: sets) =
        (classes.filterMap List.head?).filterMap (elementAt (set :: set' :: sets)) := by
      rw [List.filterMap_filterMap]
      rfl
    rw [hmerge]
    exact (hheads.filterMap _).subperm.trans hperm.subperm

theorem mem_of_mem_mergeSeriesSets {labels : α → Labels} {sets : List (List α)} {x : α}
    (h : x ∈ mergeSeriesSets labels sets) : x ∈ sets.flatten :=
  (mergeSeriesSets_subperm labels sets).subset h

theorem nodup_mergeSeriesSets (labels : α → Labels) {sets : List (List α)}
    (h : sets.flatten.Nodup) : (mergeSeriesSets labels sets).Nodup := by
  obtain ⟨kept, hperm, hsub⟩ := mergeSeriesSets_subperm labels sets
  exact hperm.nodup_iff.mp (h.sublist hsub)

/-- The merge keeps something with the labels of every element. -/
theorem exists_mem_mergeSeriesSets (labels : α → Labels) {sets : List (List α)} {x : α}
    (hx : x ∈ sets.flatten) : ∃ y ∈ mergeSeriesSets labels sets, labels y = labels x := by
  match sets with
  | [] => cases hx
  | [set] => exact ⟨x, by simpa [mergeSeriesSets] using hx, rfl⟩
  | set :: set' :: sets =>
    rw [← filterMap_places, List.mem_filterMap] at hx
    obtain ⟨p, hp, hpx⟩ := hx
    rw [← places_map labels, ← (MergeSeriesSet.perm_places _).mem_iff, List.mem_flatten] at hp
    obtain ⟨merged, hmerged, hp⟩ := hp
    obtain ⟨q, hq⟩ := Option.isSome_iff_exists.mp
      (List.isSome_head?.mpr (MergeSeriesSet.ne_nil _ merged hmerged))
    have hsame := MergeSeriesSet.same_labels _ merged hmerged q (List.mem_of_mem_head? hq) p hp
    rw [elementAt_map, elementAt_map, hpx, Option.map_some, Option.map_eq_some_iff] at hsame
    obtain ⟨y, hy, hlabels⟩ := hsame
    refine ⟨y, List.mem_filterMap.mpr ⟨merged, hmerged, ?_⟩, hlabels⟩
    rw [hq]
    exact hy

/-- Sets that share no labels are put together as they are. -/
theorem mergeSeriesSets_perm {labels : α → Labels} {sets : List (List α)}
    (h : (sets.flatten.map labels).Nodup) : (mergeSeriesSets labels sets).Perm sets.flatten := by
  match sets with
  | [] => exact List.Perm.refl _
  | [set] => simp [mergeSeriesSets]
  | set :: set' :: sets =>
    rw [List.map_flatten] at h
    have hperm := (MergeSeriesSet.perm_places
      ((set :: set' :: sets).map (List.map labels))).filterMap (elementAt (set :: set' :: sets))
    rw [places_map, filterMap_places] at hperm
    show (List.filterMap _ _).Perm _
    rw [filterMap_head_flatten (newMergeSeriesSet_singletons h)]
    exact hperm

omit [MergeSeriesSet] in
/-- Places of two sets that share no labels have different ones. -/
theorem elementAt_ne_of_pairwise {sets : List (List α)}
    (h : sets.Pairwise fun set set' => ∀ x ∈ set, ∀ y ∈ set', x ≠ y) {p q : Nat × Nat}
    (hp : p ∈ places sets) (hpq : p.1 ≠ q.1) : elementAt sets p ≠ elementAt sets q := by
  intro heq
  obtain ⟨x, hx⟩ := Option.isSome_iff_exists.mp (isSome_elementAt hp)
  have hy := heq.symm.trans hx
  rw [elementAt, Option.bind_eq_some_iff] at hx hy
  obtain ⟨set, hset, hx⟩ := hx
  obtain ⟨set', hset', hy⟩ := hy
  obtain ⟨hi, rfl⟩ := List.getElem?_eq_some_iff.mp hset
  obtain ⟨hj, rfl⟩ := List.getElem?_eq_some_iff.mp hset'
  rw [List.pairwise_iff_getElem] at h
  rcases Nat.lt_or_gt_of_ne hpq with hlt | hgt
  · exact h p.1 q.1 hi hj hlt x (List.mem_of_getElem? hx) x (List.mem_of_getElem? hy) rfl
  · exact h q.1 p.1 hj hi hgt x (List.mem_of_getElem? hy) x (List.mem_of_getElem? hx) rfl

/-- The merge takes at most one series of a set at a time, as a merge of sorted streams does. -/
def MergesAcross : Prop :=
  ∀ sets, ∀ merged ∈ MergeSeriesSet.newMergeSeriesSet sets, (merged.map Prod.fst).Nodup

/-- Sets that share no labels with each other are put together as they are, also where labels occur
twice in one of them. -/
theorem mergeSeriesSets_perm_of_pairwise (hmerges : MergesAcross) {labels : α → Labels}
    {sets : List (List α)}
    (h : sets.Pairwise fun set set' => ∀ x ∈ set, ∀ y ∈ set', labels x ≠ labels y) :
    (mergeSeriesSets labels sets).Perm sets.flatten := by
  match sets with
  | [] => exact List.Perm.refl _
  | [set] => simp [mergeSeriesSets]
  | set :: set' :: sets =>
    have hlabels : ((set :: set' :: sets).map (List.map labels)).Pairwise
        fun set set' => ∀ x ∈ set, ∀ y ∈ set', x ≠ y := by
      rw [List.pairwise_map]
      refine List.Pairwise.imp ?_ h
      intro s s' hne l hl l' hl'
      obtain ⟨x, hx, rfl⟩ := List.mem_map.mp hl
      obtain ⟨y, hy, rfl⟩ := List.mem_map.mp hl'
      exact hne x hx y hy
    have hsingle : ∀ merged ∈ MergeSeriesSet.newMergeSeriesSet
        ((set :: set' :: sets).map (List.map labels)), ∃ p, merged = [p] := by
      intro merged hmem
      match merged with
      | [] => exact absurd rfl (MergeSeriesSet.ne_nil _ [] hmem)
      | [p] => exact ⟨p, rfl⟩
      | p :: q :: merged =>
        have hsame := MergeSeriesSet.same_labels _ _ hmem p List.mem_cons_self q (by simp)
        have hplace := (MergeSeriesSet.perm_places _).mem_iff.mp
          (List.mem_flatten.mpr ⟨_, hmem, List.mem_cons_self⟩)
        have hfst : p.1 ≠ q.1 := fun heq => by
          have hnodup := hmerges _ _ hmem
          rw [List.map_cons, List.map_cons, heq] at hnodup
          exact (List.nodup_cons.mp hnodup).1 List.mem_cons_self
        exact absurd hsame (elementAt_ne_of_pairwise hlabels hplace hfst)
    have hperm := (MergeSeriesSet.perm_places
      ((set :: set' :: sets).map (List.map labels))).filterMap (elementAt (set :: set' :: sets))
    rw [places_map, filterMap_places] at hperm
    show (List.filterMap _ _).Perm _
    rw [filterMap_head_flatten hsingle]
    exact hperm

/-! ## The answers of several APIs -/

omit [MergeSeriesSet] in
theorem allAnswers_map_some {π : Type*} (items : List π) (f : π → α) :
    allAnswers (items.map fun x => some (f x)) = some (items.map f) := by
  induction items with
  | nil => rfl
  | cons x items ih => rw [List.map_cons, allAnswers, ih, List.map_cons]; rfl

omit [MergeSeriesSet] in
theorem allAnswers_map_eq_none {α β : Type*} {f : α → Option β} {l : List α} :
    allAnswers (l.map f) = none ↔ ∃ a ∈ l, f a = none := by
  induction l with
  | nil => simp [allAnswers]
  | cons a l ih =>
    rw [List.map_cons, allAnswers, List.exists_mem_cons_iff, ← ih]
    cases f a with
    | none => simp
    | some b => simp

end

/-! ## A concrete instance -/

/-- The labels at a place, and how often they occur before it in its set. -/
def occurrence (sets : List (List Labels)) (p : Nat × Nat) : Option Labels × Nat :=
  (elementAt sets p, ((sets.getD p.1 []).take p.2).countP fun l => some l = elementAt sets p)

/-- The places of every occurrence of a label set, in the order of the sets. -/
def placesByOccurrence (sets : List (List Labels)) :
    List ((Option Labels × Nat) × List (Nat × Nat)) :=
  group (occurrence sets) (fun p => [p]) (fun ps p => ps ++ [p]) (places sets)

theorem mem_placesByOccurrence {sets : List (List Labels)}
    {c : (Option Labels × Nat) × List (Nat × Nat)} (h : c ∈ placesByOccurrence sets) :
    c.2 ≠ [] ∧ c.2 = (places sets).filter fun p => occurrence sets p = c.1 := by
  have hslot := mem_group.mp (show (c.1, c.2) ∈ _ from h)
  have hvals := foldSlot_vals (fun p => p)
    ((places sets).filter fun p => occurrence sets p = c.1)
  rw [hslot, List.map_id'] at hvals
  split at hvals
  · cases hvals
  · rename_i hne
    rw [Option.some.inj hvals]
    exact ⟨hne, rfl⟩

theorem exists_of_mem_places {sets : List (List Labels)} {p : Nat × Nat} (hp : p ∈ places sets) :
    ∃ l, elementAt sets p = some l ∧ (sets.getD p.1 [])[p.2]? = some l := by
  obtain ⟨l, hl⟩ := Option.isSome_iff_exists.mp (isSome_elementAt hp)
  refine ⟨l, hl, ?_⟩
  rw [elementAt, Option.bind_eq_some_iff] at hl
  obtain ⟨set, hset, hl⟩ := hl
  rw [List.getD_eq_getElem?_getD, hset, Option.getD_some, hl]

/-- Further on in a set, the labels at a place have occurred once more. -/
theorem occurrence_lt {sets : List (List Labels)} {p q : Nat × Nat} (hp : p ∈ places sets)
    (hfst : p.1 = q.1) (helem : elementAt sets p = elementAt sets q) (hlt : p.2 < q.2) :
    (occurrence sets p).2 < (occurrence sets q).2 := by
  obtain ⟨l, hl, hget⟩ := exists_of_mem_places hp
  simp only [occurrence, ← helem, ← hfst, hl]
  have hprefix : ((sets.getD p.1 []).take (p.2 + 1)).Sublist ((sets.getD p.1 []).take q.2) :=
    List.take_sublist_take_left hlt
  refine lt_of_lt_of_le ?_ hprefix.countP_le
  rw [List.take_add_one, hget, List.countP_append]
  simp

/-- Within a set, no two places have the same labels equally often before them. -/
theorem occurrence_injective {sets : List (List Labels)} {p q : Nat × Nat} (hp : p ∈ places sets)
    (hq : q ∈ places sets) (hfst : p.1 = q.1) (heq : occurrence sets p = occurrence sets q) :
    p = q := by
  have helem : elementAt sets p = elementAt sets q := congrArg Prod.fst heq
  rcases Nat.lt_trichotomy p.2 q.2 with hlt | hsnd | hgt
  · have hocc := occurrence_lt hp hfst helem hlt
    rw [heq] at hocc
    exact absurd hocc (Nat.lt_irrefl _)
  · exact Prod.ext hfst hsnd
  · have hocc := occurrence_lt hq hfst.symm helem.symm hgt
    rw [heq] at hocc
    exact absurd hocc (Nat.lt_irrefl _)

theorem occurrence_of_nodup {sets : List (List Labels)} (hnodup : ∀ set ∈ sets, set.Nodup)
    {p : Nat × Nat} (hp : p ∈ places sets) : (occurrence sets p).2 = 0 := by
  obtain ⟨l, hl, hget⟩ := exists_of_mem_places hp
  have hset : (sets.getD p.1 []).Nodup := by
    rw [List.getD_eq_getElem?_getD]
    cases h : sets[p.1]? with
    | none => exact List.nodup_nil
    | some set => exact hnodup set (List.mem_of_getElem? h)
  simp only [occurrence, hl, List.countP_eq_zero, decide_eq_true_eq]
  intro l' hl' heq
  obtain ⟨j, hj, hlj⟩ := List.mem_iff_getElem.mp hl'
  rw [List.length_take] at hj
  rw [List.getElem_take] at hlj
  obtain ⟨hlen, hlp⟩ := List.getElem?_eq_some_iff.mp hget
  have hij := hset.getElem_inj_iff.mp (hlj.trans ((Option.some.inj heq).trans hlp.symm))
  omega

theorem nodup_places {α : Type*} (sets : List (List α)) : (places sets).Nodup := by
  induction sets with
  | nil => exact List.nodup_nil
  | cons set sets ih =>
    rw [places, List.nodup_append]
    refine ⟨List.nodup_range.map fun i j h => (Prod.mk.inj h).2, ih.map fun p q h => ?_, ?_⟩
    · exact Prod.ext (Nat.succ.inj (Prod.mk.inj h).1) (Prod.mk.inj h).2
    · rintro p hp q hq rfl
      obtain ⟨j, -, rfl⟩ := List.mem_map.mp hp
      obtain ⟨q, -, heq⟩ := List.mem_map.mp hq
      exact absurd (Prod.mk.inj heq).1 (Nat.succ_ne_zero _)

/-- The k-way merge of the label-sorted sets, which combines heads with equal labels. -/
abbrev mergeAcrossSets : MergeSeriesSet where
  newMergeSeriesSet sets := (placesByOccurrence sets).map Prod.snd
  perm_places sets := by
    have hkeys : ∀ p ∈ places sets, occurrence sets p ∈ (placesByOccurrence sets).map Prod.fst :=
      fun p hp => mem_keys_group.mpr ⟨p, hp, rfl⟩
    have hperm : (((placesByOccurrence sets).map Prod.fst).flatMap fun labels =>
        (places sets).filter fun p => occurrence sets p = labels).Perm (places sets) :=
      perm_flatMap_filter (nodup_group (places sets)) hkeys
    have hparts : (placesByOccurrence sets).flatMap Prod.snd =
        (placesByOccurrence sets).flatMap fun c =>
          (places sets).filter fun p => occurrence sets p = c.1 :=
      List.flatMap_congr fun c hc => (mem_placesByOccurrence hc).2
    rwa [List.flatMap_map, ← hparts, List.flatMap_def] at hperm
  ne_nil sets merged h := by
    obtain ⟨c, hc, rfl⟩ := List.mem_map.mp h
    exact (mem_placesByOccurrence hc).1
  same_labels sets merged h p hp q hq := by
    obtain ⟨c, hc, rfl⟩ := List.mem_map.mp h
    rw [(mem_placesByOccurrence hc).2, List.mem_filter] at hp hq
    exact congrArg Prod.fst ((of_decide_eq_true hp.2).trans (of_decide_eq_true hq.2).symm)
  distinct_labels sets hnodup := by
    rw [List.pairwise_map]
    have hkeys : ((placesByOccurrence sets).map Prod.fst).Nodup := nodup_group (places sets)
    refine (List.pairwise_map.mp hkeys).imp_of_mem fun {c d} hc hd hne p hp q hq heq => hne ?_
    rw [(mem_placesByOccurrence hc).2, List.mem_filter] at hp
    rw [(mem_placesByOccurrence hd).2, List.mem_filter] at hq
    rw [← of_decide_eq_true hp.2, ← of_decide_eq_true hq.2]
    exact Prod.ext heq ((occurrence_of_nodup hnodup hp.1).trans (occurrence_of_nodup hnodup hq.1).symm)

theorem mergesAcross_mergeAcrossSets : @MergesAcross mergeAcrossSets := by
  intro sets merged hmem
  obtain ⟨c, hc, rfl⟩ := List.mem_map.mp hmem
  rw [(mem_placesByOccurrence hc).2]
  refine List.Nodup.map_on (fun p hp q hq hfst => ?_) ((nodup_places sets).filter _)
  rw [List.mem_filter] at hp hq
  exact occurrence_injective hp.1 hq.1 hfst
    ((of_decide_eq_true hp.2).trans (of_decide_eq_true hq.2).symm)

end Promclient
end Proxeus
