import Proxeus.Lib.Aggregate

/-!
# Lib.TopK

Selections of the `k` elements that rank highest. Such a selection is not determined where ranks
are equal, but above every bar it has as many elements as the input has, up to `k`
(`IsTop.topCounts`), and that determines its ranks (`TopCounts.map_rank_perm`). A list `Covers`
another one when it can stand in for it in a selection; selecting within parts gives such a list,
so selecting in two levels is selecting once.
-/

namespace Proxeus
namespace Lib

section

variable {α ω : Type*} [LinearOrder ω] (rank : α → ω)

/-- `output` is a choice of the `k` elements of `input` that rank highest. -/
def IsTop (k : Nat) (input output : List α) : Prop :=
  output.length = min k input.length ∧
    ∃ rest, (output ++ rest).Perm input ∧ ∀ x ∈ output, ∀ y ∈ rest, rank y ≤ rank x

def Upward (p : ω → Bool) : Prop := ∀ a b, a ≤ b → p a = true → p b = true

/-- Above every bar, `output` has as many elements as `input`, up to `k`. -/
structure TopCounts (k : Nat) (input output : List α) : Prop where
  subperm : output.Subperm input
  countP : ∀ p : ω → Bool, Upward p →
    output.countP (fun x => p (rank x)) = min k (input.countP fun x => p (rank x))

/-- Above every bar, `output` has as many elements as `input` where less than `k` are asked for. -/
structure Covers (k : Nat) (input output : List α) : Prop where
  subperm : output.Subperm input
  countP : ∀ p : ω → Bool, Upward p →
    min k (output.countP fun x => p (rank x)) = min k (input.countP fun x => p (rank x))

variable {rank} {k : Nat} {input output : List α}

theorem IsTop.nil_of_nil (h : IsTop rank k [] output) : output = [] := by
  rw [← List.length_eq_zero_iff, h.1, List.length_nil, Nat.min_zero]

/-- Sorting is one way to choose. -/
theorem isTop_take_sortBy (rank : α → ω) (k : Nat) (l : List α) :
    IsTop rank k l ((sortBy (fun x => OrderDual.toDual (rank x)) l).take k) := by
  set sorted := sortBy (fun x => OrderDual.toDual (rank x)) l
  have hperm : sorted.Perm l := sortBy_perm _ l
  refine ⟨by rw [List.length_take, hperm.length_eq], sorted.drop k, ?_, ?_⟩
  · rw [List.take_append_drop]
    exact hperm
  · have hpw : sorted.Pairwise fun x y => rank y ≤ rank x :=
      sortBy_pairwise (fun x => OrderDual.toDual (rank x)) l
    rw [← List.take_append_drop k sorted, List.pairwise_append] at hpw
    exact hpw.2.2

theorem IsTop.topCounts (h : IsTop rank k input output) : TopCounts rank k input output := by
  obtain ⟨hlen, rest, hperm, hrank⟩ := h
  refine ⟨(List.sublist_append_left _ _).subperm.trans hperm.subperm, fun p hp => ?_⟩
  have hcount := hperm.countP_eq fun x => p (rank x)
  have hlen' := hperm.length_eq
  rw [List.countP_append] at hcount
  rw [List.length_append] at hlen'
  have hle := List.countP_le_length (p := fun x => p (rank x)) (l := output)
  cases hrest : rest.countP fun x => p (rank x) with
  | zero => omega
  | succ n =>
    -- something above the bar was left out, so everything chosen is above it
    obtain ⟨y, hy, hpy⟩ := List.countP_pos_iff.mp (by rw [hrest]; exact Nat.succ_pos n)
    have hall := List.countP_eq_length.mpr fun x hx => hp _ _ (hrank x hx y hy) hpy
    have hpos := List.length_pos_of_mem hy
    omega

theorem upward_le (v : ω) : Upward fun a => decide (v ≤ a) := fun _ _ hab h =>
  decide_eq_true ((of_decide_eq_true h).trans hab)

theorem upward_lt (v : ω) : Upward fun a => decide (v < a) := fun _ _ hab h =>
  decide_eq_true ((of_decide_eq_true h).trans_le hab)

/-- The elements of rank `v` are those that pass the bar `v` and not the one above. -/
theorem count_rank_add (rank : α → ω) (l : List α) (v : ω) :
    (l.map rank).count v + l.countP (fun x => decide (v < rank x)) =
      l.countP fun x => decide (v ≤ rank x) := by
  induction l with
  | nil => rfl
  | cons x l ih =>
    simp only [List.map_cons, List.count_cons, List.countP_cons]
    rcases lt_trichotomy v (rank x) with hlt | heq | hgt
    · simp only [hlt, hlt.le, hlt.ne', beq_iff_eq, decide_true, if_true, if_false]
      omega
    · simp only [← heq, lt_irrefl, le_refl, beq_self_eq_true, decide_true, decide_false, if_true,
        Bool.false_eq_true, if_false]
      omega
    · simp only [hgt.not_gt, hgt.not_ge, hgt.ne, beq_iff_eq, decide_false, Bool.false_eq_true,
        if_false]
      omega

theorem TopCounts.map_rank_perm {output' : List α} (h : TopCounts rank k input output)
    (h' : TopCounts rank k input output') : (output.map rank).Perm (output'.map rank) := by
  rw [List.perm_iff_count]
  intro v
  have hle := (h.countP _ (upward_le v)).trans (h'.countP _ (upward_le v)).symm
  have hlt := (h.countP _ (upward_lt v)).trans (h'.countP _ (upward_lt v)).symm
  have h1 := count_rank_add rank output v
  have h2 := count_rank_add rank output' v
  omega

theorem TopCounts.covers (h : TopCounts rank k input output) : Covers rank k input output :=
  ⟨h.subperm, fun p hp => by rw [h.countP p hp, ← min_assoc, min_self]⟩

namespace Covers

theorem nil : Covers rank k [] [] := ⟨List.Subperm.refl _, fun _ _ => rfl⟩

theorem append {input' output' : List α} (h : Covers rank k input output)
    (h' : Covers rank k input' output') : Covers rank k (input ++ input') (output ++ output') := by
  refine ⟨h.subperm.append h'.subperm, fun p hp => ?_⟩
  have h1 := h.countP p hp
  have h2 := h'.countP p hp
  rw [List.countP_append, List.countP_append]
  omega

theorem flatMap {π : Type*} {parts : List π} {whole chosen : π → List α}
    (h : ∀ p ∈ parts, Covers rank k (whole p) (chosen p)) :
    Covers rank k (parts.flatMap whole) (parts.flatMap chosen) := by
  induction parts with
  | nil => exact nil
  | cons p parts ih =>
    rw [List.flatMap_cons, List.flatMap_cons]
    exact (h p List.mem_cons_self).append (ih fun q hq => h q (List.mem_cons_of_mem _ hq))

theorem perm {input' output' : List α} (h : Covers rank k input output)
    (hi : input.Perm input') (ho : output.Perm output') : Covers rank k input' output' := by
  refine ⟨ho.symm.subperm.trans (h.subperm.trans hi.subperm), fun p hp => ?_⟩
  rw [← hi.countP_eq, ← ho.countP_eq]
  exact h.countP p hp

theorem map {β : Type*} {rank' : β → ω} (e : α → β) (he : ∀ x, rank' (e x) = rank x)
    (h : Covers rank k input output) : Covers rank' k (input.map e) (output.map e) := by
  obtain ⟨l, hperm, hsub⟩ := h.subperm
  refine ⟨⟨l.map e, hperm.map e, hsub.map e⟩, fun p hp => ?_⟩
  simp only [List.countP_map, Function.comp_def, he]
  exact h.countP p hp

theorem topCounts {output' : List α} (h : Covers rank k input output)
    (h' : TopCounts rank k output output') : TopCounts rank k input output' :=
  ⟨h'.subperm.trans h.subperm, fun p hp => (h'.countP p hp).trans (h.countP p hp)⟩

end Covers

end

/-! ## Selecting within every key -/

section

variable {α κ : Type*} [DecidableEq κ]

/-- What `pick` chooses among the elements of every key. -/
def selectBy (key : α → κ) (pick : List α → List α) (items : List α) : List α :=
  (group key (fun x => [x]) (fun xs x => xs ++ [x]) items).flatMap fun p => pick p.2

variable {key : α → κ} {pick : List α → List α} {items : List α}

def keysOf (key : α → κ) (items : List α) : List κ :=
  (group key (fun x => [x]) (fun xs x => xs ++ [x]) items).map Prod.fst

theorem nodup_keysOf (items : List α) : (keysOf key items).Nodup := nodup_group items

theorem mem_keysOf {k : κ} : k ∈ keysOf key items ↔ ∃ x ∈ items, key x = k := mem_keys_group

theorem selectBy_eq_flatMap :
    selectBy key pick items =
      (keysOf key items).flatMap fun k => pick (items.filter fun x => key x = k) := by
  rw [selectBy, keysOf, List.flatMap_map]
  refine List.flatMap_congr fun p hp => ?_
  have hslot := mem_group.mp (show (p.1, p.2) ∈ _ from hp)
  have hvals := foldSlot_vals (fun x => x) (items.filter fun x => key x = p.1)
  rw [hslot, List.map_id'] at hvals
  split at hvals
  · cases hvals
  · rw [Option.some.inj hvals]

theorem flatMap_select (k : κ) (part : κ → List α) {ks : List κ} (hn : ks.Nodup) :
    (ks.flatMap fun j => if j = k then part j else []) = if k ∈ ks then part k else [] := by
  induction ks with
  | nil => rfl
  | cons j ks ih =>
    rw [List.nodup_cons] at hn
    rw [List.flatMap_cons, ih hn.2]
    by_cases hj : j = k
    · subst hj
      simp [hn.1]
    · simp [hj, Ne.symm hj]

theorem filter_selectBy (hnil : pick [] = []) (hsub : ∀ l, ∀ x ∈ pick l, x ∈ l) (k : κ) :
    (selectBy key pick items).filter (fun x => key x = k) =
      pick (items.filter fun x => key x = k) := by
  have hslot : ∀ j, (pick (items.filter fun x => key x = j)).filter (fun x => key x = k) =
      if j = k then pick (items.filter fun x => key x = j) else [] := by
    intro j
    have hkey : ∀ x ∈ pick (items.filter fun x => key x = j), key x = j := fun x hx =>
      of_decide_eq_true (List.mem_filter.mp (hsub _ x hx)).2
    split
    · rename_i hj
      exact List.filter_eq_self.mpr fun x hx => decide_eq_true ((hkey x hx).trans hj)
    · rename_i hj
      exact List.filter_eq_nil_iff.mpr fun x hx hk =>
        hj ((hkey x hx).symm.trans (of_decide_eq_true hk))
  simp only [selectBy_eq_flatMap, List.filter_flatMap, hslot]
  rw [flatMap_select k _ (nodup_keysOf items)]
  split
  · rfl
  · rename_i hk
    have hempty : items.filter (fun x => key x = k) = [] := by
      rw [List.filter_eq_nil_iff]
      exact fun x hx hxk => hk (mem_keysOf.mpr ⟨x, hx, of_decide_eq_true hxk⟩)
    rw [hempty, hnil]

variable {ω : Type*} [LinearOrder ω] {rank : α → ω} {k : Nat}

/-- Selecting within finer keys leaves enough for a coarser one. -/
theorem covers_selectBy (hpick : ∀ l, IsTop rank k l (pick l)) {κ' : Type*} [DecidableEq κ']
    (outer : κ → κ') (k' : κ') :
    Covers rank k (items.filter fun x => outer (key x) = k')
      ((selectBy key pick items).filter fun x => outer (key x) = k') := by
  have hkey : ∀ j, ∀ x ∈ items.filter (fun x => key x = j), key x = j := fun j x hx =>
    of_decide_eq_true (List.mem_filter.mp hx).2
  have hself : ∀ {j : κ} {l : List α}, outer j = k' → (∀ x ∈ l, key x = j) →
      l.filter (fun x => outer (key x) = k') = l := fun hj hl =>
    List.filter_eq_self.mpr fun x hx => decide_eq_true (by rw [hl x hx, hj])
  have hnone : ∀ {j : κ} {l : List α}, outer j ≠ k' → (∀ x ∈ l, key x = j) →
      l.filter (fun x => outer (key x) = k') = [] := fun hj hl =>
    List.filter_eq_nil_iff.mpr fun x hx hk => hj (hl x hx ▸ of_decide_eq_true hk)
  have hpart : ∀ j, Covers rank k
      ((items.filter fun x => key x = j).filter fun x => outer (key x) = k')
      ((pick (items.filter fun x => key x = j)).filter fun x => outer (key x) = k') := by
    intro j
    have hc := (hpick (items.filter fun x => key x = j)).topCounts.covers
    have hpicked : ∀ x ∈ pick (items.filter fun x => key x = j), key x = j := fun x hx =>
      hkey j x (hc.subperm.subset hx)
    by_cases hj : outer j = k'
    · rw [hself hj (hkey j), hself hj hpicked]
      exact hc
    · rw [hnone hj (hkey j), hnone hj hpicked]
      exact Covers.nil
  have hkeys : ∀ x ∈ items, key x ∈ keysOf key items := fun x hx => mem_keysOf.mpr ⟨x, hx, rfl⟩
  have hcover := (perm_flatMap_filter (nodup_keysOf items) hkeys).filter fun x =>
    outer (key x) = k'
  rw [selectBy_eq_flatMap, List.filter_flatMap]
  rw [List.filter_flatMap] at hcover
  exact (Covers.flatMap fun j _ => hpart j).perm hcover (List.Perm.refl _)

end

/-! ## Equality up to ties -/

section

variable {α κ ω : Type*} [DecidableEq α] [DecidableEq κ] [LinearOrder ω] (key : α → κ)
  (rank : α → ω)

/-- Two selections from `input` that differ in the choice among elements of one key and rank. -/
structure EqualUpToTies (input output output' : List α) : Prop where
  left : output.Subperm input
  right : output'.Subperm input
  ranks : (output.map fun x => (key x, rank x)).Perm (output'.map fun x => (key x, rank x))

variable {key rank} {k : Nat} {input output output' : List α}

theorem subperm_of_filter
    (h : ∀ j, (output.filter fun x => key x = j).Subperm (input.filter fun x => key x = j)) :
    output.Subperm input := by
  rw [List.subperm_ext_iff]
  intro x _
  have hself : decide (key x = key x) = true := decide_eq_true rfl
  have hcount := (h (key x)).count_le x
  rwa [List.count_filter (by exact hself), List.count_filter (by exact hself)] at hcount

theorem equalUpToTies_of_topCounts
    (h : ∀ j, TopCounts rank k (input.filter fun x => key x = j)
      (output.filter fun x => key x = j))
    (h' : ∀ j, TopCounts rank k (input.filter fun x => key x = j)
      (output'.filter fun x => key x = j)) :
    EqualUpToTies key rank input output output' := by
  refine ⟨subperm_of_filter fun j => (h j).subperm, subperm_of_filter fun j => (h' j).subperm, ?_⟩
  rw [List.perm_iff_count]
  rintro ⟨j, v⟩
  have hcount : ∀ l : List α, (l.map fun x => (key x, rank x)).count (j, v) =
      ((l.filter fun x => key x = j).map rank).count v := by
    intro l
    rw [List.count_eq_countP, List.count_eq_countP, List.countP_map, List.countP_map,
      List.countP_filter]
    refine List.countP_congr fun x _ => ?_
    simp [and_comm]
  rw [hcount, hcount]
  exact ((h j).map_rank_perm (h' j)).count_eq v

end

end Lib
end Proxeus
