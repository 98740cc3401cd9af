import Mathlib.Data.List.Perm.Subperm
import Proxeus.Lib.Machine

/-!
# Lib.Memo

A check that is made once. A call that has passed is remembered by its key, and a later call with that
key passes without a check. What is remembered are the keys of calls that passed (`mem_final_memo_iff`);
no answer tells the memory from a check of every call if calls with one key pass or fail together, and
only then (`outputs_memo_iff`); and the memory is as large as the number of different keys that pass.
-/

namespace Proxeus
namespace Lib

section

variable {ι κ : Type*} [DecidableEq κ]

/-- A call without a key is refused. -/
def memoStep (key : ι → Option κ) (check : ι → Bool) (seen : List κ) (i : ι) : Bool × List κ :=
  match key i with
  | none => (false, seen)
  | some k =>
    if k ∈ seen then (true, seen)
    else if !check i then (false, seen)
    else (true, k :: seen)

/-- The call has this key, and passes the check. -/
def Passes (key : ι → Option κ) (check : ι → Bool) (i : ι) (k : κ) : Prop :=
  key i = some k ∧ check i = true

/-- The answer to a call that is always checked. -/
def checked (key : ι → Option κ) (check : ι → Bool) (i : ι) : Bool := (key i).isSome && check i

variable {key : ι → Option κ} {check : ι → Bool} {seen : List κ}

/-! ## One call -/

variable (key check) in
/-- What a call can do: it has no key, its key is remembered, it passes, or it fails. -/
theorem memoStep_cases (seen : List κ) (i : ι) :
    (key i = none ∧ memoStep key check seen i = (false, seen)) ∨
    (∃ k ∈ seen, key i = some k ∧ memoStep key check seen i = (true, seen)) ∨
    (∃ k, k ∉ seen ∧ Passes key check i k ∧ memoStep key check seen i = (true, k :: seen)) ∨
    (∃ k, k ∉ seen ∧ key i = some k ∧ check i = false ∧
      memoStep key check seen i = (false, seen)) := by
  unfold memoStep Passes
  cases hkey : key i with
  | none => exact .inl ⟨rfl, rfl⟩
  | some k =>
    by_cases hk : k ∈ seen
    · exact .inr (.inl ⟨k, hk, rfl, by simp [hk]⟩)
    · cases hcheck : check i with
      | true => exact .inr (.inr (.inl ⟨k, hk, ⟨rfl, rfl⟩, by simp [hk]⟩))
      | false => exact .inr (.inr (.inr ⟨k, hk, rfl, rfl, by simp [hk]⟩))

theorem mem_memoStep_iff (seen : List κ) (i : ι) (k : κ) :
    k ∈ (memoStep key check seen i).2 ↔ k ∈ seen ∨ Passes key check i k := by
  rcases memoStep_cases key check seen i with
    ⟨hkey, heq⟩ | ⟨k', hk', hkey, heq⟩ | ⟨k', hk', hpass, heq⟩ | ⟨k', hk', hkey, hcheck, heq⟩
  · simp [heq, Passes, hkey]
  · rw [heq]
    constructor
    · exact .inl
    · rintro (hk | ⟨hk, -⟩)
      · exact hk
      · rw [hkey] at hk
        exact Option.some.inj hk ▸ hk'
  · rw [heq, List.mem_cons]
    constructor
    · rintro (rfl | hk)
      · exact .inr hpass
      · exact .inl hk
    · rintro (hk | ⟨hk, -⟩)
      · exact .inr hk
      · rw [hpass.1] at hk
        exact .inl (Option.some.inj hk).symm
  · simp [heq, Passes, hcheck]

/-! ## Runs -/

theorem mem_final_memo_iff (seen : List κ) (is : List ι) (k : κ) :
    k ∈ final (memoStep key check) seen is ↔ k ∈ seen ∨ ∃ i ∈ is, Passes key check i k := by
  induction is generalizing seen with
  | nil => simp [final]
  | cons i is ih =>
    rw [final, ih, mem_memoStep_iff]
    simp [or_assoc]

/-- The memory does not show if calls with one key pass or fail together, and only then. -/
theorem outputs_memo_iff :
    (∀ is, outputs (memoStep key check) [] is = is.map (checked key check)) ↔
      ∀ i j k, key i = some k → key j = some k → check i = check j := by
  constructor
  · intro h i j k hi hj
    have honly : ∀ {a b : ι}, key a = some k → key b = some k → check a = true →
        check b = true := by
      intro a b ha hb hpass
      have hrun := h [a, b]
      simpa [outputs, memoStep, checked, ha, hb, hpass] using hrun
    exact Bool.eq_iff_iff.mpr ⟨honly hi hj, honly hj hi⟩
  · intro h is
    -- every key in the memory is of calls that pass
    have hrun : ∀ seen : List κ, (∀ i, ∀ k ∈ seen, key i = some k → check i = true) →
        outputs (memoStep key check) seen is = is.map (checked key check) := by
      induction is with
      | nil =>
        intro seen _
        rfl
      | cons i is ih =>
        intro seen hseen
        have hnext : ∀ j, ∀ k ∈ (memoStep key check seen i).2, key j = some k →
            check j = true := by
          intro j k hk hj
          rcases (mem_memoStep_iff seen i k).mp hk with hk | ⟨hi, hcheck⟩
          · exact hseen j k hk hj
          · rw [← h i j k hi hj, hcheck]
        have hout : (memoStep key check seen i).1 = checked key check i := by
          unfold checked
          rcases memoStep_cases key check seen i with
            ⟨hkey, heq⟩ | ⟨k, hk, hkey, heq⟩ | ⟨k, -, ⟨hkey, hcheck⟩, heq⟩ | ⟨k, -, hkey, hcheck, heq⟩
          · simp [heq, hkey]
          · simp [heq, hkey, hseen i k hk hkey]
          · simp [heq, hkey, hcheck]
          · simp [heq, hcheck]
        rw [outputs, List.map_cons, hout, ih _ hnext]
    refine hrun [] ?_
    intro i k hk
    cases hk

/-! ## How much is remembered -/

/-- Calls that pass with different keys are all remembered. -/
theorem le_length_final_memo {is : List ι} (hnodup : (is.map key).Nodup)
    (hpass : ∀ i ∈ is, ∃ k, Passes key check i k) (seen : List κ) :
    is.length ≤ (final (memoStep key check) seen is).length := by
  have hsub : is.map key ⊆ (final (memoStep key check) seen is).map some := by
    intro o ho
    obtain ⟨i, hi, rfl⟩ := List.mem_map.mp ho
    obtain ⟨k, hk⟩ := hpass i hi
    rw [hk.1]
    exact List.mem_map_of_mem ((mem_final_memo_iff seen is k).mpr (.inr ⟨i, hi, hk⟩))
  have hle := (hnodup.subperm hsub).length_le
  rwa [List.length_map, List.length_map] at hle

section

variable {υ : Type*} (owner : ι → υ) (key check)

/-- A call that passes has the key that is remembered of its owner, if one is. -/
def Repeats (seen : List κ) (i : ι) : Prop :=
  ∀ k, Passes key check i k → ∀ j, ∀ k' ∈ seen, key j = some k' → owner j = owner i → k' = k

/-- The memory holds the keys of calls with different owners. -/
def OnePerOwner (seen : List κ) : Prop :=
  ∃ js : List ι, js.map key = seen.map some ∧ (js.map owner).Nodup ∧ ∀ j ∈ js, check j = true

variable {owner key check}

theorem OnePerOwner.memoStep (h : OnePerOwner key check owner seen) {i : ι}
    (hrepeats : Repeats key check owner seen i) :
    OnePerOwner key check owner (memoStep key check seen i).2 := by
  rcases memoStep_cases key check seen i with
    ⟨-, heq⟩ | ⟨-, -, -, heq⟩ | ⟨k, hk, hpass, heq⟩ | ⟨-, -, -, -, heq⟩
  · rwa [heq]
  · rwa [heq]
  · rw [heq]
    obtain ⟨js, hkeys, howners, hchecks⟩ := h
    refine ⟨i :: js, ?_, ?_, ?_⟩
    · rw [List.map_cons, List.map_cons, hkeys, hpass.1]
    · rw [List.map_cons, List.nodup_cons]
      refine ⟨?_, howners⟩
      intro hmem
      obtain ⟨j, hj, howner⟩ := List.mem_map.mp hmem
      have hkey : key j ∈ seen.map some := hkeys ▸ List.mem_map_of_mem hj
      obtain ⟨k', hk', hkey'⟩ := List.mem_map.mp hkey
      have hsame := hrepeats k hpass j k' hk' hkey'.symm howner
      exact hk (hsame ▸ hk')
    · intro j hj
      rcases List.mem_cons.mp hj with rfl | hj
      · exact hpass.2
      · exact hchecks j hj
  · rwa [heq]

/-- No more is remembered than there are owners of calls that pass. -/
theorem length_final_memo_le {owners : List υ}
    (howners : ∀ i k, Passes key check i k → owner i ∈ owners) {is : List ι}
    (hmeets : Meets (memoStep key check) (Repeats key check owner) [] is) :
    (final (memoStep key check) [] is).length ≤ owners.length := by
  have hstart : OnePerOwner key check owner [] := ⟨[], rfl, List.nodup_nil, by simp⟩
  obtain ⟨js, hkeys, hnodup, hchecks⟩ :=
    final_of_meets (P := Repeats key check owner) (fun _ _ hs hi => OnePerOwner.memoStep hs hi)
      hstart hmeets
  have hsub : js.map owner ⊆ owners := by
    intro o ho
    obtain ⟨j, hj, rfl⟩ := List.mem_map.mp ho
    have hkey : key j ∈ (final (memoStep key check) [] is).map some :=
      hkeys ▸ List.mem_map_of_mem hj
    obtain ⟨k, -, hk⟩ := List.mem_map.mp hkey
    exact howners j k ⟨hk.symm, hchecks j hj⟩
  have hlength := congrArg List.length hkeys
  have hle := (hnodup.subperm hsub).length_le
  rw [List.length_map] at hle
  rw [List.length_map, List.length_map] at hlength
  omega

end

end

end Lib
end Proxeus
