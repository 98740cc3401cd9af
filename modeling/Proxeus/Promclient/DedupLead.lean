import Proxeus.Promclient.CrossGroupDedupSpec

/-!
# Promclient.DedupLead

The winner of a bucket without its bookkeeping. Of the series read so far one leads (`lead`), and a
slot is that of its leader (`foldSlot_leads`), for every list of sets: ordinals may repeat, and a
series may be read twice.
-/

namespace Proxeus
namespace Promclient

open Lib Promhttputil

/-- The leader once `x` has been read: `x` takes over with a lower ordinal and other labels. -/
def follow (v x : Tagged) : Tagged := if v.2.labels = x.2.labels ∨ v.1 ≤ x.1 then v else x

/-- The series that leads when the series `items` of a bucket have been read. -/
def lead (items : List Tagged) : Option Tagged := foldSlot id follow items

theorem lead_concat (items : List Tagged) (x : Tagged) :
    lead (items ++ [x]) = some (match lead items with
      | none => x
      | some v => follow v x) := by
  rw [lead, foldSlot_concat, ← lead]
  cases lead items with
  | none => rfl
  | some v => rfl

/-- The leader once one more series has been read: the series itself if it is the first. -/
theorem lead_concat_eq_some {items : List Tagged} {x v : Tagged}
    (h : lead (items ++ [x]) = some v) :
    items = [] ∧ v = x ∨ ∃ u, lead items = some u ∧ v = follow u x := by
  cases items with
  | nil =>
    cases h
    exact Or.inl ⟨rfl, rfl⟩
  | cons y items =>
    rw [lead_concat] at h
    cases hprev : lead (y :: items) with
    | none => cases hprev
    | some u =>
      rw [hprev, Option.some.injEq] at h
      exact Or.inr ⟨u, rfl, h.symm⟩

theorem follow_cases (v x : Tagged) :
    follow v x = v ∧ (v.2.labels = x.2.labels ∨ v.1 ≤ x.1) ∨
      follow v x = x ∧ v.2.labels ≠ x.2.labels ∧ x.1 < v.1 := by
  by_cases h : v.2.labels = x.2.labels ∨ v.1 ≤ x.1
  · exact Or.inl ⟨if_pos h, h⟩
  · exact Or.inr ⟨if_neg h, (not_or.mp h).1, not_le.mp (not_or.mp h).2⟩

theorem follow_le (v x : Tagged) : (follow v x).1 ≤ v.1 := by
  rcases follow_cases v x with ⟨h, -⟩ | ⟨h, -, hlt⟩
  · rw [h]
  · rw [h]
    exact hlt.le

theorem lead_mem {items : List Tagged} {v : Tagged} (h : lead items = some v) : v ∈ items := by
  induction items using List.reverseRecOn generalizing v with
  | nil => cases h
  | append_singleton items x ih =>
    rcases lead_concat_eq_some h with ⟨-, rfl⟩ | ⟨u, hu, rfl⟩
    · exact List.mem_append_right _ (List.mem_singleton_self _)
    · rcases follow_cases u x with ⟨heq, -⟩ | ⟨heq, -⟩
      · rw [heq]
        exact List.mem_append_left _ (ih hu)
      · rw [heq]
        exact List.mem_append_right _ (List.mem_singleton_self x)

theorem lead_antitone {items items' : List Tagged} {v w : Tagged} (hv : lead items = some v)
    (hw : lead (items ++ items') = some w) : w.1 ≤ v.1 := by
  induction items' using List.reverseRecOn generalizing w with
  | nil =>
    rw [List.append_nil, hv, Option.some.injEq] at hw
    rw [hw]
  | append_singleton items' x ih =>
    rw [← List.append_assoc] at hw
    rcases lead_concat_eq_some hw with ⟨hnil, -⟩ | ⟨u, hu, rfl⟩
    · rw [(List.append_eq_nil_iff.mp hnil).1] at hv
      cases hv
    · exact (follow_le u x).trans (ih hu)

/-- The slot of a bucket is that of its leader. -/
structure Leads (b : Slot) (v : Tagged) : Prop where
  lbls : b.lbls = v.2.labels
  ordinal : b.ordinal = v.1
  series : b.series = v.2

theorem addSlot_leads {b : Slot} {v : Tagged} (h : Leads b v) (fillGaps : Bool) (x : Tagged) :
    Leads (addSlot fillGaps b x) (follow v x) := by
  rw [addSlot, follow, h.lbls, h.ordinal]
  by_cases hlbls : v.2.labels = x.2.labels
  · rw [if_pos hlbls, if_pos (Or.inl hlbls)]
    exact h
  · rw [if_neg hlbls]
    by_cases hlt : x.1 < v.1
    · rw [if_pos hlt, if_neg (not_or.mpr ⟨hlbls, not_le.mpr hlt⟩)]
      exact ⟨rfl, rfl, rfl⟩
    · rw [if_neg hlt, if_pos (Or.inr (not_lt.mp hlt))]
      exact ⟨rfl, rfl, h.series⟩

theorem foldSlot_leads (fillGaps : Bool) {items : List Tagged} {b : Slot}
    (h : foldSlot (newSlot fillGaps) (addSlot fillGaps) items = some b) :
    ∃ v, lead items = some v ∧ Leads b v := by
  induction items using List.reverseRecOn generalizing b with
  | nil => cases h
  | append_singleton items x ih =>
    rw [foldSlot_concat, Option.some.injEq] at h
    rw [lead_concat]
    cases hprev : foldSlot (newSlot fillGaps) (addSlot fillGaps) items with
    | none =>
      have hnil : items = [] := by
        cases items with
        | nil => rfl
        | cons y items => cases hprev
      subst hnil
      rw [hprev] at h
      exact ⟨x, rfl, h ▸ ⟨rfl, rfl, rfl⟩⟩
    | some b' =>
      rw [hprev] at h
      obtain ⟨v, hv, hleads⟩ := ih hprev
      rw [hv]
      exact ⟨follow v x, rfl, h ▸ addSlot_leads hleads fillGaps x⟩

section

variable {Key : Type*} [DecidableEq Key] {bytesWithoutLabels : Labels → List String → Key}

/-- The leaders do not depend on whether the members are collected. -/
theorem map_series_slots (sets : List OrdinalSeriesSet) (ignore : List String) :
    (slots bytesWithoutLabels ignore false sets).map (fun p => p.2.series) =
      (slots bytesWithoutLabels ignore true sets).map fun p => p.2.series := by
  let G : Key → Option Series := fun k =>
    (lead ((tagged sets).filter fun x => bytesWithoutLabels x.2.labels ignore = k)).map Prod.snd
  have heq : ∀ fillGaps, ((slots bytesWithoutLabels ignore fillGaps sets).map
        fun p => p.2.series).map some =
      ((slots bytesWithoutLabels ignore fillGaps sets).map Prod.fst).map G := fun fillGaps =>
    map_group_eq (g := Slot.series) fun k b hb => by
      obtain ⟨v, hv, hleads⟩ := foldSlot_leads fillGaps (mem_group.mp hb)
      exact (congrArg (Option.map Prod.snd) hv).trans (congrArg some hleads.series.symm)
  have hkeys : (slots bytesWithoutLabels ignore false sets).map Prod.fst =
      (slots bytesWithoutLabels ignore true sets).map Prod.fst := map_fst_group _ _ _
  have hfalse := heq false
  rw [hkeys, ← heq true] at hfalse
  exact List.map_injective_iff.mpr (Option.some_injective _) hfalse

end

end Promclient
end Proxeus
