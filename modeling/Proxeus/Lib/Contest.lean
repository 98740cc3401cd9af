import Proxeus.Lib.Grouping

/-!
# Lib.Contest

A running minimum with a record of its contests. Each element read is set against the one that holds
the place, the lower of the two keeps it, and the pair is noted. Who holds the place at the end is the
first of the lowest, in any order (`champion_eq_iff`); the record is the same in any order exactly if
no more than one element is above the lowest (`contests_perm`, `countP_lt_le_one`).
-/

namespace Proxeus
namespace Lib

section

variable {ι α : Type*} [LinearOrder ι]

/-! ## The champion -/

/-- The holder `v` of the place once `x` has been read. -/
def defend (v x : ι × α) : ι × α := if x.1 < v.1 then x else v

/-- The holder of the place when all have been read. -/
def champion (items : List (ι × α)) : Option (ι × α) := foldSlot id defend items

/-- `v` is the first of the lowest. -/
structure IsChampion (items : List (ι × α)) (v : ι × α) : Prop where
  lowest : ∀ x ∈ items, v.1 ≤ x.1
  first : items.find? (fun x => x.1 = v.1) = some v

theorem IsChampion.mem {items : List (ι × α)} {v : ι × α} (h : IsChampion items v) : v ∈ items :=
  List.mem_of_find?_eq_some h.first

theorem IsChampion.unique {items : List (ι × α)} {v w : ι × α} (hv : IsChampion items v)
    (hw : IsChampion items w) : v = w := by
  have heq : v.1 = w.1 := le_antisymm (hv.lowest w hw.mem) (hw.lowest v hv.mem)
  have hfirst := hv.first
  rw [heq, hw.first] at hfirst
  exact (Option.some.inj hfirst).symm

theorem IsChampion.concat {items : List (ι × α)} {v : ι × α} (h : IsChampion items v)
    (x : ι × α) : IsChampion (items ++ [x]) (defend v x) := by
  unfold defend
  split
  · rename_i hlt
    refine ⟨fun y hy => ?_, ?_⟩
    · rcases List.mem_append.mp hy with hy | hy
      · exact hlt.le.trans (h.lowest y hy)
      · rw [List.mem_singleton.mp hy]
    · have hnone : items.find? (fun y => y.1 = x.1) = none := by
        rw [List.find?_eq_none]
        intro y hy heq
        have hle := h.lowest y hy
        rw [of_decide_eq_true heq] at hle
        exact absurd hlt (not_lt.mpr hle)
      rw [List.find?_append, hnone]
      simp
  · rename_i hle
    refine ⟨fun y hy => ?_, ?_⟩
    · rcases List.mem_append.mp hy with hy | hy
      · exact h.lowest y hy
      · rw [List.mem_singleton.mp hy]
        exact not_lt.mp hle
    · rw [List.find?_append, h.first]
      rfl

theorem isChampion_of_champion {items : List (ι × α)} {v : ι × α} (h : champion items = some v) :
    IsChampion items v := by
  induction items using List.reverseRecOn generalizing v with
  | nil => cases h
  | append_singleton items x ih =>
    unfold champion at h
    rw [foldSlot_concat, Option.some.injEq] at h
    cases hprev : foldSlot id defend items with
    | none =>
      rw [hprev] at h
      have hnil : items = [] := by
        cases items with
        | nil => rfl
        | cons y items => cases hprev
      subst hnil
      rw [← h]
      exact ⟨by simp, by simp⟩
    | some u =>
      rw [hprev] at h
      rw [← h]
      exact (ih hprev).concat x

theorem champion_eq_iff {items : List (ι × α)} {v : ι × α} :
    champion items = some v ↔ IsChampion items v := by
  refine ⟨isChampion_of_champion, fun h => ?_⟩
  cases hc : champion items with
  | none =>
    cases items with
    | nil => cases h.mem
    | cons x items => cases hc
  | some w => rw [(isChampion_of_champion hc).unique h]

/-- Only the order among elements of the same key shows. -/
theorem champion_congr {items items' : List (ι × α)}
    (h : ∀ o, items.filter (fun x => x.1 = o) = items'.filter fun x => x.1 = o) :
    champion items = champion items' := by
  have hfind : ∀ (l : List (ι × α)) o,
      l.find? (fun x => x.1 = o) = (l.filter fun x => x.1 = o).head? := by
    intro l o
    rw [List.head?_filter]
  have hmem : ∀ x, x ∈ items ↔ x ∈ items' := by
    intro x
    have hx := congrArg (x ∈ ·) (h x.1)
    simpa using hx
  have hiff : ∀ v, IsChampion items v ↔ IsChampion items' v := by
    intro v
    constructor
    · intro hv
      exact ⟨fun x hx => hv.lowest x ((hmem x).mpr hx), by rw [hfind, ← h, ← hfind, hv.first]⟩
    · intro hv
      exact ⟨fun x hx => hv.lowest x ((hmem x).mp hx), by rw [hfind, h, ← hfind, hv.first]⟩
  refine Option.ext fun v => ?_
  rw [champion_eq_iff, champion_eq_iff, hiff]

/-! ## The record -/

/-- What is noted of `o` set against the holder `w`: the lower, then the higher. -/
def bout (w o : ι) : ι × ι := (min w o, max w o)

/-- The bouts of a place that `w` holds. -/
def contestsFrom : ι → List ι → List (ι × ι)
  | _, [] => []
  | w, o :: os => bout w o :: contestsFrom (min w o) os

/-- The bouts of a place that the first element takes. -/
def contests : List ι → List (ι × ι)
  | [] => []
  | o :: os => contestsFrom o os

theorem length_contestsFrom (w : ι) (os : List ι) : (contestsFrom w os).length = os.length := by
  induction os generalizing w with
  | nil => rfl
  | cons o os ih => rw [contestsFrom, List.length_cons, List.length_cons, ih]

theorem length_contests (os : List ι) : (contests os).length = os.length - 1 := by
  cases os with
  | nil => rfl
  | cons o os => exact length_contestsFrom o os

/-- The holder of a place, with the bouts so far. -/
abbrev Held (ι α : Type*) := (ι × α) × List (ι × ι)

def newHeld (x : ι × α) : Held ι α := (x, [])

def addHeld (b : Held ι α) (x : ι × α) : Held ι α :=
  (defend b.1 x, b.2 ++ [bout b.1.1 x.1])

theorem foldl_addHeld (b : Held ι α) (items : List (ι × α)) :
    items.foldl addHeld b =
      (items.foldl defend b.1, b.2 ++ contestsFrom b.1.1 (items.map Prod.fst)) := by
  induction items generalizing b with
  | nil => simp [contestsFrom]
  | cons x items ih =>
    have hmin : (defend b.1 x).1 = min b.1.1 x.1 := by
      unfold defend
      split
      · rename_i hlt
        rw [min_eq_right hlt.le]
      · rename_i hle
        rw [min_eq_left (not_lt.mp hle)]
    rw [List.foldl_cons, ih, List.foldl_cons, List.map_cons, contestsFrom]
    simp only [addHeld, hmin, List.append_assoc, List.singleton_append]

theorem foldSlot_held (items : List (ι × α)) :
    foldSlot newHeld addHeld items =
      (champion items).map fun v => (v, contests (items.map Prod.fst)) := by
  cases items with
  | nil => rfl
  | cons x items =>
    rw [foldSlot, foldl_addHeld]
    simp [champion, foldSlot, contests, newHeld]

/-- No bout is won by less than the lowest. -/
theorem le_of_mem_contestsFrom {m w : ι} {os : List ι} (hw : m ≤ w) (hos : ∀ o ∈ os, m ≤ o)
    {q : ι × ι} (hq : q ∈ contestsFrom w os) : m ≤ q.1 := by
  induction os generalizing w with
  | nil => cases hq
  | cons o os ih =>
    have hmin : m ≤ min w o := le_min hw (hos o List.mem_cons_self)
    rcases List.mem_cons.mp hq with rfl | hq
    · exact hmin
    · exact ih hmin (fun o ho => hos o (List.mem_cons_of_mem _ ho)) hq

theorem le_of_mem_contests {m : ι} {os : List ι} (hos : ∀ o ∈ os, m ≤ o) {q : ι × ι}
    (hq : q ∈ contests os) : m ≤ q.1 := by
  cases os with
  | nil => cases hq
  | cons o os =>
    exact le_of_mem_contestsFrom (hos o List.mem_cons_self)
      (fun o ho => hos o (List.mem_cons_of_mem _ ho)) hq

/-- The lowest holds its place against all. -/
theorem contestsFrom_of_le {w : ι} {os : List ι} (h : ∀ o ∈ os, w ≤ o) :
    contestsFrom w os = os.map fun o => (w, o) := by
  induction os with
  | nil => rfl
  | cons o os ih =>
    have hwo := h o List.mem_cons_self
    rw [contestsFrom, bout, min_eq_left hwo, max_eq_right hwo,
      ih fun o ho => h o (List.mem_cons_of_mem _ ho), List.map_cons]

/-- With no more than one element above the lowest, the lowest wins every bout, in any order. -/
theorem contests_perm {m : ι} {os : List ι} (hm : m ∈ os) (hos : ∀ o ∈ os, m ≤ o)
    (hone : os.countP (fun o => m < o) ≤ 1) :
    List.Perm (contests os) ((os.erase m).map fun o => (m, o)) := by
  cases os with
  | nil => cases hm
  | cons w os =>
    by_cases hw : w = m
    · subst hw
      rw [contests, contestsFrom_of_le fun o ho => hos o (List.mem_cons_of_mem _ ho),
        List.erase_cons_head]
    · have hlt : m < w := lt_of_le_of_ne (hos w List.mem_cons_self) (Ne.symm hw)
      rw [List.countP_cons, if_pos (decide_eq_true hlt)] at hone
      have hnone : os.countP (fun o => m < o) = 0 := by omega
      rw [List.countP_eq_zero] at hnone
      have hall : ∀ o ∈ os, o = m := by
        intro o ho
        have hle := hos o (List.mem_cons_of_mem _ ho)
        have hnot : ¬ m < o := by simpa using hnone o ho
        exact le_antisymm (not_lt.mp hnot) hle
      cases os with
      | nil => exact absurd (List.mem_singleton.mp hm).symm hw
      | cons o os =>
        have hom : o = m := hall o List.mem_cons_self
        subst hom
        rw [contests, contestsFrom, bout, min_eq_right hlt.le, max_eq_left hlt.le,
          contestsFrom_of_le fun o' ho' => (hall o' (List.mem_cons_of_mem _ ho')).ge,
          List.erase_cons_tail (by simpa using hw), List.erase_cons_head, List.map_cons]

/-- Read in ascending order, the bouts are won by as little as they can be. -/
theorem countP_contests_le {os os' : List ι} (hsorted : os.Pairwise fun o o' => o ≤ o')
    (hperm : List.Perm os' os) (t : ι) :
    (contests os').countP (fun q => q.1 ≤ t) ≤ (contests os).countP fun q => q.1 ≤ t := by
  cases os with
  | nil => rw [hperm.eq_nil]
  | cons w os =>
    have hw : ∀ o ∈ os, w ≤ o := (List.pairwise_cons.mp hsorted).1
    have hlow : ∀ o ∈ os', w ≤ o := by
      intro o ho
      rcases List.mem_cons.mp (hperm.mem_iff.mp ho) with rfl | ho
      · exact le_rfl
      · exact hw o ho
    by_cases ht : w ≤ t
    · have hall : (contests (w :: os)).countP (fun q => q.1 ≤ t) = os.length := by
        rw [contests, contestsFrom_of_le hw, List.countP_map]
        refine List.countP_eq_length.mpr fun o _ => ?_
        exact decide_eq_true ht
      rw [hall]
      refine List.countP_le_length.trans ?_
      rw [length_contests, hperm.length_eq, List.length_cons]
      omega
    · have hnone : (contests os').countP (fun q => q.1 ≤ t) = 0 := by
        rw [List.countP_eq_zero]
        intro q hq hle
        exact ht ((le_of_mem_contests hlow hq).trans (of_decide_eq_true hle))
      omega

/-- Read in descending order, the lowest wins every bout only if it is the first or the second. -/
theorem countP_lt_le_one {m : ι} {os : List ι} (hsorted : os.Pairwise fun o o' => o' ≤ o)
    (hall : ∀ q ∈ contests os, q.1 ≤ m) : os.countP (fun o => m < o) ≤ 1 := by
  cases os with
  | nil => simp
  | cons w os =>
    cases os with
    | nil => exact List.countP_le_length
    | cons o os =>
      have hbout : min w o ≤ m := hall (bout w o) List.mem_cons_self
      obtain ⟨hw, hsorted⟩ := List.pairwise_cons.mp hsorted
      rw [min_eq_right (hw o List.mem_cons_self)] at hbout
      have hrest : (o :: os).countP (fun o => m < o) = 0 := by
        rw [List.countP_eq_zero]
        intro o' ho' hlt
        rcases List.mem_cons.mp ho' with rfl | ho'
        · exact absurd (of_decide_eq_true hlt) (not_lt.mpr hbout)
        · have hle := ((List.pairwise_cons.mp hsorted).1 o' ho').trans hbout
          exact absurd (of_decide_eq_true hlt) (not_lt.mpr hle)
      rw [List.countP_cons, hrest]
      split <;> omega

/-- If the order does not show in the bouts that the lowest wins, it does not show in any. -/
theorem countP_lt_le_one_of_eq {os os' : List ι} (hasc : os.Pairwise fun o o' => o ≤ o')
    (hdesc : os'.Pairwise fun o o' => o' ≤ o) (hperm : List.Perm os' os) {m : ι} (hm : m ∈ os)
    (hlow : ∀ o ∈ os, m ≤ o)
    (heq : (contests os').countP (fun q => q.1 ≤ m) = (contests os).countP fun q => q.1 ≤ m) :
    os.countP (fun o => m < o) ≤ 1 := by
  cases os with
  | nil => cases hm
  | cons w os =>
    have hw : ∀ o ∈ os, w ≤ o := (List.pairwise_cons.mp hasc).1
    have hwm : w = m := by
      refine le_antisymm ?_ (hlow w List.mem_cons_self)
      rcases List.mem_cons.mp hm with rfl | hm
      · exact le_rfl
      · exact hw m hm
    subst hwm
    have hall : (contests (w :: os)).countP (fun q => q.1 ≤ w) = (contests os').length := by
      rw [contests, contestsFrom_of_le hw, List.countP_map, length_contests, hperm.length_eq,
        List.length_cons, Nat.add_sub_cancel]
      refine List.countP_eq_length.mpr fun o _ => ?_
      exact decide_eq_true le_rfl
    rw [hall, List.countP_eq_length] at heq
    rw [← hperm.countP_eq]
    exact countP_lt_le_one hdesc fun q hq => of_decide_eq_true (heq q hq)

/-! ## Blocks -/

/-- Blocks under different keys: the elements of one key are those of one block, wherever it is. -/
theorem filter_blocks_perm {β : Type*} {key : β → ι} {block : β → List α} {l l' : List β}
    (hkeys : (l.map key).Nodup) (hperm : List.Perm l l') (o : ι) :
    (l.flatMap fun b => (block b).map fun a => (key b, a)).filter (fun x => x.1 = o) =
      (l'.flatMap fun b => (block b).map fun a => (key b, a)).filter fun x => x.1 = o := by
  have hblocks : ∀ l : List β,
      (l.flatMap fun b => (block b).map fun a => (key b, a)).filter (fun x => x.1 = o) =
        (l.filter fun b => key b = o).flatMap fun b => (block b).map fun a => (key b, a) := by
    intro l
    induction l with
    | nil => rfl
    | cons b l ih =>
      rw [List.flatMap_cons, List.filter_append, ih, List.filter_cons, List.filter_map]
      by_cases ho : key b = o
      · simp [Function.comp_def, ho]
      · simp [Function.comp_def, ho]
  -- one block at most is left, so the order is lost
  have hlen : ((l.filter fun b => key b = o).length) ≤ 1 := by
    have hnodup : ((l.filter fun b => key b = o).map key).Nodup :=
      hkeys.sublist (List.filter_sublist.map _)
    have hconst : (l.filter fun b => key b = o).map key =
        List.replicate (l.filter fun b => key b = o).length o := by
      refine List.eq_replicate_iff.mpr ⟨List.length_map _, ?_⟩
      intro k hk
      obtain ⟨b, hb, rfl⟩ := List.mem_map.mp hk
      exact of_decide_eq_true (List.mem_filter.mp hb).2
    rw [hconst, List.nodup_replicate] at hnodup
    exact hnodup
  have hsame := hperm.filter fun b => decide (key b = o)
  rw [hblocks, hblocks]
  congr 1
  cases hl : l.filter fun b => decide (key b = o) with
  | nil =>
    rw [hl] at hsame
    exact hsame.symm.eq_nil.symm
  | cons b rest =>
    cases rest with
    | nil =>
      rw [hl] at hsame
      exact (List.perm_singleton.mp hsame.symm).symm
    | cons b' rest =>
      rw [hl] at hlen
      simp at hlen

end

end Lib
end Proxeus
