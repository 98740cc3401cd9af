import Proxeus.Lib.Ascending

/-!
# Lib.Grouping

Grouping a list by a key. `group` folds every element into the slot of its key, in an association
list ordered by the first element of each key; `mem_group` says that a slot holds the fold over
the elements of its key alone, `perm_flatMap_filter` that the elements of the keys together are
the elements.
-/

namespace Proxeus
namespace Lib

section

variable {α κ β : Type*} [DecidableEq κ] (key : α → κ) (new : α → β) (add : β → α → β)

/-- Folds `x` into the slot of its key, or opens one at the end. -/
def insertWith (x : α) : List (κ × β) → List (κ × β)
  | [] => [(key x, new x)]
  | (k, b) :: slots => if k = key x then (k, add b x) :: slots else (k, b) :: insertWith x slots

def group (items : List α) : List (κ × β) :=
  items.foldl (fun slots x => insertWith key new add x slots) []

/-- The fold over the elements of one key. -/
def foldSlot : List α → Option β
  | [] => none
  | x :: items => some (items.foldl add (new x))

variable {key new add}

theorem insertWith_of_notMem {x : α} {slots : List (κ × β)} (h : key x ∉ slots.map Prod.fst) :
    insertWith key new add x slots = slots ++ [(key x, new x)] := by
  induction slots with
  | nil => rfl
  | cons p slots ih =>
    rw [List.map_cons, List.mem_cons, not_or] at h
    rw [insertWith, if_neg (Ne.symm h.1), ih h.2, List.cons_append]

theorem insertWith_append {x : α} {pre post : List (κ × β)} {b : β}
    (h : key x ∉ pre.map Prod.fst) :
    insertWith key new add x (pre ++ (key x, b) :: post) = pre ++ (key x, add b x) :: post := by
  induction pre with
  | nil => rw [List.nil_append, insertWith, if_pos rfl, List.nil_append]
  | cons p pre ih =>
    rw [List.map_cons, List.mem_cons, not_or] at h
    rw [List.cons_append, insertWith, if_neg (Ne.symm h.1), ih h.2, List.cons_append]

theorem exists_slot {k : κ} {slots : List (κ × β)} (h : k ∈ slots.map Prod.fst) :
    ∃ pre b post, slots = pre ++ (k, b) :: post ∧ k ∉ pre.map Prod.fst := by
  induction slots with
  | nil => cases h
  | cons p slots ih =>
    by_cases hk : k = p.1
    · subst hk
      exact ⟨[], p.2, slots, rfl, List.not_mem_nil⟩
    · rw [List.map_cons, List.mem_cons] at h
      obtain ⟨pre, b, post, rfl, hpre⟩ := ih (h.resolve_left hk)
      refine ⟨p :: pre, b, post, rfl, ?_⟩
      rw [List.map_cons, List.mem_cons, not_or]
      exact ⟨hk, hpre⟩

theorem map_fst_insertWith (x : α) (slots : List (κ × β)) :
    (insertWith key new add x slots).map Prod.fst =
      if key x ∈ slots.map Prod.fst then slots.map Prod.fst else slots.map Prod.fst ++ [key x] := by
  by_cases h : key x ∈ slots.map Prod.fst
  · rw [if_pos h]
    obtain ⟨pre, b, post, rfl, hpre⟩ := exists_slot h
    rw [insertWith_append hpre]
    simp
  · rw [if_neg h, insertWith_of_notMem h]
    simp

theorem nodup_insertWith {x : α} {slots : List (κ × β)} (h : (slots.map Prod.fst).Nodup) :
    ((insertWith key new add x slots).map Prod.fst).Nodup := by
  rw [map_fst_insertWith]
  split
  · exact h
  · rename_i hk
    rw [List.nodup_append]
    exact ⟨h, List.nodup_singleton _, fun a ha b hb => by
      rw [List.mem_singleton] at hb
      rintro rfl
      exact hk (hb ▸ ha)⟩

/-- Other slots are left alone; the slot of the key is the one before with the element added. -/
theorem mem_insertWith {x : α} {slots : List (κ × β)} (hn : (slots.map Prod.fst).Nodup) {k : κ}
    {b : β} :
    (k, b) ∈ insertWith key new add x slots ↔
      if k = key x then
        (k ∉ slots.map Prod.fst ∧ b = new x) ∨ ∃ b', (k, b') ∈ slots ∧ b = add b' x
      else (k, b) ∈ slots := by
  by_cases h : key x ∈ slots.map Prod.fst
  · obtain ⟨pre, b', post, rfl, hpre⟩ := exists_slot h
    rw [insertWith_append hpre]
    have hpost : key x ∉ post.map Prod.fst := by
      rw [List.map_append, List.map_cons, List.nodup_append, List.nodup_cons] at hn
      exact hn.2.1.1
    have hother : ∀ c, (key x, c) ∉ pre ∧ (key x, c) ∉ post := fun c =>
      ⟨fun hm => hpre (List.mem_map_of_mem hm), fun hm => hpost (List.mem_map_of_mem hm)⟩
    split
    · rename_i hk
      subst hk
      simp only [List.mem_append, List.mem_cons, Prod.mk.injEq, true_and, hother, false_or,
        or_false, h, not_true_eq_false, false_and, exists_eq_left]
    · rename_i hk
      simp only [List.mem_append, List.mem_cons, Prod.mk.injEq, hk, false_and, false_or]
  · rw [insertWith_of_notMem h, List.mem_append, List.mem_singleton, Prod.mk.injEq]
    split
    · rename_i hk
      subst hk
      have hno : ∀ c, (key x, c) ∉ slots := fun c hm => h (List.mem_map_of_mem hm)
      simp only [hno, false_or, true_and, h, not_false_eq_true, false_and, exists_false, or_false]
    · rename_i hk
      simp only [hk, false_and, or_false]

/-! ## The groups of a list -/

theorem group_concat (items : List α) (x : α) :
    group key new add (items ++ [x]) = insertWith key new add x (group key new add items) := by
  rw [group, List.foldl_concat, ← group]

theorem foldSlot_concat (items : List α) (x : α) :
    foldSlot new add (items ++ [x]) =
      some (match foldSlot new add items with
        | none => new x
        | some b => add b x) := by
  cases items with
  | nil => rfl
  | cons y items => simp [foldSlot]

theorem nodup_group (items : List α) : ((group key new add items).map Prod.fst).Nodup := by
  induction items using List.reverseRecOn with
  | nil => exact List.nodup_nil
  | append_singleton items x ih =>
    rw [group_concat]
    exact nodup_insertWith ih

theorem mem_group {items : List α} {k : κ} {b : β} :
    (k, b) ∈ group key new add items ↔
      foldSlot new add (items.filter fun x => key x = k) = some b := by
  induction items using List.reverseRecOn generalizing b with
  | nil => simp [group, foldSlot]
  | append_singleton items x ih =>
    rw [group_concat, mem_insertWith (nodup_group items), List.filter_append]
    by_cases hk : k = key x
    · subst hk
      have hkeys : key x ∉ (group key new add items).map Prod.fst ↔
          foldSlot new add (items.filter fun y => key y = key x) = none := by
        rw [Option.eq_none_iff_forall_ne_some]
        constructor
        · intro h b hb
          exact h (List.mem_map_of_mem (f := Prod.fst) (ih.mpr hb))
        · intro h hmem
          obtain ⟨p, hp, hpk⟩ := List.mem_map.mp hmem
          exact h p.2 (ih.mp (hpk ▸ hp))
      have hlast : [x].filter (fun y => key y = key x) = [x] := by simp
      rw [if_pos rfl, hlast, foldSlot_concat, hkeys]
      simp only [ih]
      cases foldSlot new add (items.filter fun y => key y = key x) with
      | none => simp [eq_comm]
      | some b' => simp [eq_comm]
    · have hlast : [x].filter (fun y => key y = k) = [] := by simp [Ne.symm hk]
      rw [if_neg hk, hlast, List.append_nil, ih]

theorem mem_keys_group {items : List α} {k : κ} :
    k ∈ (group key new add items).map Prod.fst ↔ ∃ x ∈ items, key x = k := by
  constructor
  · intro h
    obtain ⟨p, hp, rfl⟩ := List.mem_map.mp h
    cases hf : items.filter fun x => key x = p.1 with
    | nil =>
      have hb := mem_group.mp (show (p.1, p.2) ∈ _ from hp)
      rw [hf] at hb
      cases hb
    | cons x rest =>
      have hx : x ∈ items.filter fun x => key x = p.1 := hf ▸ List.mem_cons_self
      rw [List.mem_filter, decide_eq_true_eq] at hx
      exact ⟨x, hx⟩
  · rintro ⟨x, hx, rfl⟩
    cases hf : items.filter fun y => key y = key x with
    | nil =>
      have hx' : x ∈ items.filter fun y => key y = key x :=
        List.mem_filter.mpr ⟨hx, decide_eq_true rfl⟩
      rw [hf] at hx'
      cases hx'
    | cons y rest =>
      have hslot := mem_group.mpr (congrArg (foldSlot new add) hf)
      exact List.mem_map_of_mem (f := Prod.fst) hslot

/-- The order of the slots does not depend on what they hold. -/
theorem map_fst_group {β' : Type*} (new' : α → β') (add' : β' → α → β') (items : List α) :
    (group key new add items).map Prod.fst = (group key new' add' items).map Prod.fst := by
  induction items using List.reverseRecOn with
  | nil => rfl
  | append_singleton items x ih =>
    rw [group_concat, group_concat, map_fst_insertWith, map_fst_insertWith, ih]

theorem insertWith_map {α' : Type*} (e : α' → α) (x : α') (slots : List (κ × β)) :
    insertWith key new add (e x) slots =
      insertWith (key ∘ e) (new ∘ e) (fun b x => add b (e x)) x slots := by
  induction slots with
  | nil => rfl
  | cons p slots ih =>
    rw [insertWith, insertWith, ih]
    rfl

theorem group_map {α' : Type*} (e : α' → α) (items : List α') :
    group key new add (items.map e) =
      group (key ∘ e) (new ∘ e) (fun b x => add b (e x)) items := by
  induction items using List.reverseRecOn with
  | nil => rfl
  | append_singleton items x ih =>
    rw [List.map_append, List.map_singleton, group_concat, group_concat, ih, insertWith_map]

/-- Elements of distinct keys have a slot each. -/
theorem group_of_nodup {items : List α} (h : (items.map key).Nodup) :
    group key new add items = items.map fun x => (key x, new x) := by
  induction items using List.reverseRecOn with
  | nil => rfl
  | append_singleton items x ih =>
    rw [List.map_append, List.nodup_append] at h
    rw [group_concat, ih h.1, insertWith_of_notMem, List.map_append, List.map_singleton]
    rw [List.map_map]
    intro hx
    exact h.2.2 _ hx _ (by simp) rfl

theorem length_group_eq_iff {items : List α} :
    (group key new add items).length = items.length ↔ (items.map key).Nodup := by
  constructor
  · intro h
    have hperm : ((group key new add items).map Prod.fst).Perm (items.map key).dedup := by
      refine (List.perm_ext_iff_of_nodup (nodup_group items) (List.nodup_dedup _)).mpr fun k => ?_
      rw [mem_keys_group, List.mem_dedup, List.mem_map]
    have hlen := hperm.length_eq
    rw [List.length_map, h] at hlen
    rw [← List.dedup_eq_self]
    exact (List.dedup_sublist _).eq_of_length (by rw [← hlen, List.length_map])
  · intro h
    rw [group_of_nodup h, List.length_map]

/-- What the keys determine about the slots. -/
theorem map_group_eq {γ : Type*} {items : List α} {g : β → γ} {G : κ → Option γ}
    (h : ∀ k b, (k, b) ∈ group key new add items → G k = some (g b)) :
    ((group key new add items).map fun p => g p.2).map some =
      ((group key new add items).map Prod.fst).map G := by
  rw [List.map_map, List.map_map]
  exact List.map_congr_left fun p hp => (h p.1 p.2 hp).symm

/-- The elements of the keys, one key after the other. -/
theorem perm_flatMap_filter {ks : List κ} (hn : ks.Nodup) {items : List α}
    (h : ∀ x ∈ items, key x ∈ ks) :
    (ks.flatMap fun k => items.filter fun x => key x = k).Perm items := by
  induction ks generalizing items with
  | nil =>
    have hnil : items = [] := List.eq_nil_iff_forall_not_mem.mpr fun x hx => List.not_mem_nil (h x hx)
    rw [hnil]
    exact List.Perm.refl _
  | cons k ks ih =>
    rw [List.nodup_cons] at hn
    have hrest : ∀ k' ∈ ks, items.filter (fun x => key x = k') =
        (items.filter fun x => !decide (key x = k)).filter fun x => key x = k' := by
      intro k' hk'
      have hne : k' ≠ k := fun heq => hn.1 (heq ▸ hk')
      rw [List.filter_filter]
      refine List.filter_congr fun x _ => ?_
      by_cases hx : key x = k'
      · simp [hx, hne]
      · simp [hx]
    have hmem : ∀ x ∈ items.filter (fun x => !decide (key x = k)), key x ∈ ks := by
      intro x hx
      simp only [List.mem_filter, Bool.not_eq_true', decide_eq_false_iff_not] at hx
      exact (List.mem_cons.mp (h x hx.1)).resolve_left hx.2
    rw [List.flatMap_cons, List.flatMap_congr hrest]
    exact ((ih hn.2 hmem).append_left _).trans (List.filter_append_perm _ items)

/-- A count over the elements is a sum over the slots. -/
theorem countP_eq_sum_group {items : List α} {p : α → Bool} {count : β → Nat}
    (h : ∀ k b, (k, b) ∈ group key new add items →
      (items.filter fun x => key x = k).countP p = count b) :
    items.countP p = ((group key new add items).map fun q => count q.2).sum := by
  have hkeys : ∀ x ∈ items, key x ∈ (group key new add items).map Prod.fst :=
    fun x hx => mem_keys_group.mpr ⟨x, hx, rfl⟩
  have hperm := perm_flatMap_filter (nodup_group items) hkeys
  rw [← hperm.countP_eq p, List.countP_flatMap, List.map_map]
  congr 1
  exact List.map_congr_left fun q hq => h q.1 q.2 hq

end

end Lib
end Proxeus
