import Mathlib

/-!
# Lib.Ascending

Lists strictly ascending under a key, the shape of a time series. Such a list is determined by
its members (`Ascending.ext`), a prefix cut by a downward closed test is a filter
(`takeWhile_eq_filter`), and sorting any arrangement of its members gives it back
(`Ascending.sortBy_eq_of_perm`). Nothing here depends on what the elements are.
-/

namespace Proxeus
namespace Lib

section

variable {α β τ : Type*} [LinearOrder τ] {key : α → τ} {l l' : List α}

/-- Strictly ascending by `key`. -/
def Ascending (key : α → τ) (l : List α) : Prop := l.Pairwise fun x y => key x < key y

instance (key : α → τ) (l : List α) : Decidable (Ascending key l) :=
  inferInstanceAs (Decidable (l.Pairwise fun x y => key x < key y))

@[simp] theorem ascending_nil : Ascending key [] := List.Pairwise.nil

@[simp] theorem ascending_singleton (x : α) : Ascending key [x] := List.pairwise_singleton _ x

theorem ascending_cons {x : α} :
    Ascending key (x :: l) ↔ (∀ y ∈ l, key x < key y) ∧ Ascending key l := List.pairwise_cons

theorem ascending_append :
    Ascending key (l ++ l') ↔
      Ascending key l ∧ Ascending key l' ∧ ∀ x ∈ l, ∀ y ∈ l', key x < key y := List.pairwise_append

theorem ascending_map {f : β → α} {m : List β} :
    Ascending key (m.map f) ↔ Ascending (fun b => key (f b)) m := List.pairwise_map

namespace Ascending

theorem sublist (h : Ascending key l) (hs : l'.Sublist l) : Ascending key l' :=
  List.Pairwise.sublist hs h

theorem filter (h : Ascending key l) (p : α → Bool) : Ascending key (l.filter p) :=
  h.sublist List.filter_sublist

/-- What is picked out of an ascending list under the same keys is ascending. -/
theorem filterMap {key' : β → τ} (h : Ascending key l) {f : α → Option β}
    (hf : ∀ x y, f x = some y → key' y = key x) : Ascending key' (l.filterMap f) := by
  rw [Ascending, List.pairwise_filterMap]
  refine List.Pairwise.imp (fun {x x'} hlt y hy y' hy' => ?_) h
  rwa [hf x y hy, hf x' y' hy']

theorem nodup_keys (h : Ascending key l) : (l.map key).Nodup := by
  rw [List.Nodup, List.pairwise_map]
  exact List.Pairwise.imp (fun hlt => ne_of_lt hlt) h

theorem nodup (h : Ascending key l) : l.Nodup := List.Nodup.of_map key h.nodup_keys

theorem eq_of_key_eq (h : Ascending key l) {x y : α} (hx : x ∈ l) (hy : y ∈ l)
    (hk : key x = key y) : x = y := List.inj_on_of_nodup_map h.nodup_keys hx hy hk

/-- Two ascending lists with the same members are equal. -/
theorem ext (h : Ascending key l) (h' : Ascending key l') (hm : ∀ x, x ∈ l ↔ x ∈ l') : l = l' := by
  have hp : l.Perm l' := (List.perm_ext_iff_of_nodup h.nodup h'.nodup).mpr hm
  exact hp.eq_of_pairwise (fun a b _ _ hab hba => absurd hba (not_lt.mpr hab.le)) h h'

end Ascending

/-! ## Cutting -/

/-- Where `p` never turns true again once it is false, `takeWhile p` is `filter p`. -/
theorem takeWhile_eq_filter {p : α → Bool}
    (h : l.Pairwise fun x y => p y = true → p x = true) : l.takeWhile p = l.filter p := by
  induction l with
  | nil => rfl
  | cons x l ih =>
    rw [List.pairwise_cons] at h
    cases hx : p x with
    | true => rw [List.takeWhile_cons, hx, if_pos rfl, List.filter_cons, hx, if_pos rfl, ih h.2]
    | false =>
      have hnil : l.filter p = [] := by
        rw [List.filter_eq_nil_iff]
        intro y hy hpy
        rw [h.1 y hy hpy] at hx
        cases hx
      rw [List.takeWhile_cons, hx, if_neg (by simp), List.filter_cons, hx, if_neg (by simp), hnil]

theorem dropWhile_eq_filter {p : α → Bool}
    (h : l.Pairwise fun x y => p y = true → p x = true) :
    l.dropWhile p = l.filter fun x => !p x := by
  induction l with
  | nil => rfl
  | cons x l ih =>
    rw [List.pairwise_cons] at h
    cases hx : p x with
    | true =>
      rw [List.dropWhile_cons, hx, if_pos rfl, List.filter_cons, if_neg (by simp [hx]), ih h.2]
    | false =>
      rw [List.dropWhile_cons, hx, if_neg (by simp), eq_comm, List.filter_eq_self]
      intro y hy
      rcases List.mem_cons.mp hy with rfl | hy
      · simp [hx]
      · cases hpy : p y with
        | false => rfl
        | true => rw [h.1 y hy hpy] at hx; cases hx

theorem Ascending.takeWhile_lt (h : Ascending key l) (t : τ) :
    l.takeWhile (fun x => key x < t) = l.filter fun x => key x < t :=
  takeWhile_eq_filter (List.Pairwise.imp
    (fun hxy hy => decide_eq_true (hxy.trans (of_decide_eq_true hy))) h)

theorem take_length_takeWhile (p : α → Bool) (l : List α) :
    l.take (l.takeWhile p).length = l.takeWhile p := by
  calc l.take (l.takeWhile p).length
      = (l.takeWhile p ++ l.dropWhile p).take (l.takeWhile p).length := by
        rw [List.takeWhile_append_dropWhile]
    _ = l.takeWhile p := List.take_left

theorem drop_length_takeWhile (p : α → Bool) (l : List α) :
    l.drop (l.takeWhile p).length = l.dropWhile p := by
  calc l.drop (l.takeWhile p).length
      = (l.takeWhile p ++ l.dropWhile p).drop (l.takeWhile p).length := by
        rw [List.takeWhile_append_dropWhile]
    _ = l.dropWhile p := List.drop_left

/-! ## Sorting -/

/-- Sorting by `key`. Elements of one key keep their order. -/
def sortBy (key : α → τ) (l : List α) : List α := l.insertionSort fun x y => key x ≤ key y

theorem sortBy_perm (key : α → τ) (l : List α) : (sortBy key l).Perm l :=
  List.perm_insertionSort _ l

@[simp] theorem mem_sortBy {x : α} : x ∈ sortBy key l ↔ x ∈ l := (sortBy_perm key l).mem_iff

theorem sortBy_pairwise (key : α → τ) (l : List α) :
    (sortBy key l).Pairwise fun x y => key x ≤ key y :=
  haveI : Std.Total fun x y => key x ≤ key y := ⟨fun x y => le_total (key x) (key y)⟩
  haveI : IsTrans α fun x y => key x ≤ key y := ⟨fun _ _ _ => le_trans⟩
  List.pairwise_insertionSort _ l

theorem ascending_sortBy_iff : Ascending key (sortBy key l) ↔ (l.map key).Nodup := by
  have hperm : ((sortBy key l).map key).Perm (l.map key) := (sortBy_perm key l).map key
  constructor
  · intro h
    exact hperm.nodup_iff.mp h.nodup_keys
  · intro h
    have hne : (sortBy key l).Pairwise fun x y => key x ≠ key y :=
      List.pairwise_map.mp (hperm.nodup_iff.mpr h)
    exact List.Pairwise.imp₂ (fun _ _ hle hne => lt_of_le_of_ne hle hne) (sortBy_pairwise key l) hne

/-- An ascending list is what sorting any arrangement of its members gives. -/
theorem Ascending.sortBy_eq_of_perm (h : Ascending key l) (hp : l.Perm l') : sortBy key l' = l :=
  Ascending.ext (ascending_sortBy_iff.mpr ((hp.map key).nodup_iff.mp h.nodup_keys)) h
    (fun x => by rw [mem_sortBy, hp.mem_iff])

theorem Ascending.sortBy_eq (h : Ascending key l) : sortBy key l = l :=
  h.sortBy_eq_of_perm (List.Perm.refl l)

/-- Sorting forgets the arrangement when no key is repeated. -/
theorem sortBy_congr_perm (hn : (l.map key).Nodup) (hp : l.Perm l') :
    sortBy key l = sortBy key l' :=
  (Ascending.sortBy_eq_of_perm (ascending_sortBy_iff.mpr hn)
    ((sortBy_perm key l).trans hp)).symm

variable (key) in
theorem filter_orderedInsert (h : l.Pairwise fun x y => key x ≤ key y) (p : α → Bool)
    (x : α) :
    (l.orderedInsert (fun x y => key x ≤ key y) x).filter p =
      if p x then (l.filter p).orderedInsert (fun x y => key x ≤ key y) x else l.filter p := by
  induction l with
  | nil =>
    split <;> simp_all
  | cons y l ih =>
    rw [List.pairwise_cons] at h
    rw [List.orderedInsert_cons]
    split
    · rename_i hle
      split
      · rename_i hx
        rw [List.filter_cons_of_pos hx]
        cases hf : (y :: l).filter p with
        | nil => rfl
        | cons z zs =>
          have hz : z ∈ y :: l := (List.mem_filter.mp (hf ▸ List.mem_cons_self)).1
          have hxz : key x ≤ key z := by
            rcases List.mem_cons.mp hz with rfl | hz
            · exact hle
            · exact hle.trans (h.1 z hz)
          rw [List.orderedInsert_cons, if_pos hxz]
      · rename_i hx
        rw [List.filter_cons_of_neg hx]
    · rename_i hle
      by_cases hy : p y = true
      · rw [List.filter_cons_of_pos hy, List.filter_cons_of_pos hy, ih h.2]
        split
        · rw [List.orderedInsert_cons, if_neg hle]
        · rfl
      · rw [List.filter_cons_of_neg hy, List.filter_cons_of_neg hy, ih h.2]

variable (key) in
/-- Sorting keeps the order of equal keys, so a part can be sorted by itself. -/
theorem filter_sortBy (p : α → Bool) (l : List α) :
    (sortBy key l).filter p = sortBy key (l.filter p) := by
  induction l with
  | nil => rfl
  | cons x l ih =>
    have hcons : sortBy key (x :: l) =
        (sortBy key l).orderedInsert (fun x y => key x ≤ key y) x := rfl
    rw [hcons, filter_orderedInsert key (sortBy_pairwise key l), ih]
    split
    · rename_i hx
      rw [List.filter_cons_of_pos hx]
      rfl
    · rename_i hx
      rw [List.filter_cons_of_neg hx]

variable (key) in
/-- What has one key is in the order it had. -/
theorem filter_key_sortBy (k : τ) (l : List α) :
    (sortBy key l).filter (fun x => key x = k) = l.filter fun x => key x = k := by
  rw [filter_sortBy]
  refine List.Pairwise.insertionSort_eq (List.pairwise_of_forall_mem_list fun x hx y hy => ?_)
  rw [List.mem_filter, decide_eq_true_eq] at hx hy
  exact (hx.2.trans hy.2.symm).le

end

end Lib
end Proxeus
