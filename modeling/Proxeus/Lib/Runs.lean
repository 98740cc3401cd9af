import Proxeus.Lib.Ascending

/-!
# Lib.Runs

The runs of a list: its maximal stretches of one key. `lastOfRuns` keeps the last element of each run.
`compactInPlace` computes it in the buffer that it reads, where what is kept is written over what has
been read (`compactInPlace_eq`). Of a list sorted stably by the key it leaves, ascending, the last
element of each key of the unsorted list (`mem_lastOfRuns_sortBy_iff`).
-/

namespace Proxeus
namespace Lib

section

variable {α τ : Type*} [DecidableEq τ] (key : α → τ)

/-- The last element of each run. -/
def lastOfRuns : List α → List α
  | [] => []
  | [x] => [x]
  | x :: y :: l => if key y = key x then lastOfRuns (y :: l) else x :: lastOfRuns (y :: l)

/-- The turns that are left of the loop at the index `i` of the buffer, of which the first `out` elements
have been kept. -/
def compactLoop : Nat → Nat → Nat → List α → List α
  | 0, _, out, buf => buf.take out
  | n + 1, i, out, buf =>
    match buf[i]? with
    | none => buf.take out
    | some s =>
      if buf[i + 1]?.any (fun s' => key s' = key s) then compactLoop n (i + 1) out buf
      else compactLoop n (i + 1) (out + 1) (buf.set out s)

def compactInPlace (buf : List α) : List α := compactLoop key buf.length 0 0 buf

variable {key}

theorem lastOfRuns_cons_eq (x : α) (l : List α) :
    lastOfRuns key (x :: l) =
      if l.head?.any (fun y => key y = key x) then lastOfRuns key l else x :: lastOfRuns key l := by
  cases l with
  | nil => rfl
  | cons y l => simp [lastOfRuns]

/-- What has been kept is followed by the runs of what is yet to be read: the writes stay behind the
reads. -/
theorem compactLoop_eq {n i out : Nat} {buf : List α} (hlen : n + i = buf.length) (hout : out ≤ i) :
    compactLoop key n i out buf = buf.take out ++ lastOfRuns key (buf.drop i) := by
  induction n generalizing i out buf with
  | zero =>
    have hnil : buf.drop i = [] := List.drop_eq_nil_of_le (by omega)
    rw [compactLoop, hnil, lastOfRuns, List.append_nil]
  | succ n ih =>
    have hi : i < buf.length := by omega
    have hget : buf[i]? = some buf[i] := List.getElem?_eq_getElem hi
    have hdrop : buf.drop i = buf[i] :: buf.drop (i + 1) := List.drop_eq_getElem_cons hi
    have hhead : (buf.drop (i + 1)).head? = buf[i + 1]? := List.head?_drop
    rw [compactLoop, hget, hdrop, lastOfRuns_cons_eq, hhead]
    simp only
    split
    · exact ih (by omega) (by omega)
    · rw [ih (by rw [List.length_set]; omega) (by omega), List.drop_set_of_lt (by omega),
        List.take_add_one]
      have hset : (buf.set out buf[i]).take out = buf.take out := List.take_set_of_le le_rfl
      rw [hset, List.getElem?_set_self (by omega)]
      simp

theorem compactInPlace_eq (buf : List α) : compactInPlace key buf = lastOfRuns key buf := by
  rw [compactInPlace, compactLoop_eq (by omega) le_rfl]
  simp

theorem lastOfRuns_sublist (l : List α) : (lastOfRuns key l).Sublist l := by
  induction l with
  | nil => exact .slnil
  | cons x l ih =>
    rw [lastOfRuns_cons_eq]
    split
    · exact ih.cons x
    · exact ih.cons_cons x

end

section

variable {α τ : Type*} [LinearOrder τ] {key : α → τ} {l : List α}

/-- Where the head of the list is no element of the run of `x`, none is. -/
theorem lt_of_head_ne {x : α} (h : (x :: l).Pairwise fun x y => key x ≤ key y)
    (hhead : ¬ l.head?.any (fun y => key y = key x) = true) : ∀ y ∈ l, key x < key y := by
  intro y hy
  rw [List.pairwise_cons] at h
  refine lt_of_le_of_ne (h.1 y hy) fun heq => hhead ?_
  cases l with
  | nil => cases hy
  | cons z l =>
    -- The head is between `x` and an element of the key of `x`.
    have hzy : key z ≤ key y := by
      rcases List.mem_cons.mp hy with rfl | hy
      · exact le_rfl
      · exact (List.pairwise_cons.mp h.2).1 y hy
    have hz : key z = key x := le_antisymm (heq ▸ hzy) (h.1 z List.mem_cons_self)
    simp [hz]

/-- The last element of each run, of a sorted list, has a greater key than the one before. -/
theorem ascending_lastOfRuns (h : l.Pairwise fun x y => key x ≤ key y) :
    Ascending key (lastOfRuns key l) := by
  induction l with
  | nil => exact ascending_nil
  | cons x l ih =>
    rw [List.pairwise_cons] at h
    rw [lastOfRuns_cons_eq]
    split
    · exact ih h.2
    · rename_i hhead
      refine ascending_cons.mpr ⟨fun y hy => ?_, ih h.2⟩
      exact lt_of_head_ne (List.pairwise_cons.mpr h) hhead y ((lastOfRuns_sublist l).subset hy)

/-- In a sorted list a run has all elements of its key. -/
theorem mem_lastOfRuns_iff (h : l.Pairwise fun x y => key x ≤ key y) {x : α} :
    x ∈ lastOfRuns key l ↔ (l.filter fun y => key y = key x).getLast? = some x := by
  induction l with
  | nil => simp [lastOfRuns]
  | cons z l ih =>
    have hl := (List.pairwise_cons.mp h).2
    rw [lastOfRuns_cons_eq]
    split
    · rename_i hhead
      rw [ih hl]
      by_cases hz : key z = key x
      · -- The head of the rest is in the run too, so its last element is in the rest.
        have hne : l.filter (fun y => key y = key x) ≠ [] := by
          obtain ⟨y, hy, hkey⟩ := (Option.any_eq_true _ _).mp hhead
          rw [decide_eq_true_eq] at hkey
          refine List.ne_nil_of_mem (List.mem_filter.mpr ⟨List.mem_of_mem_head? hy, ?_⟩)
          rw [decide_eq_true_eq, hkey, hz]
        rw [List.filter_cons_of_pos (by simpa using hz), List.getLast?_cons_of_ne_nil hne]
      · rw [List.filter_cons_of_neg (by simpa using hz)]
    · rename_i hhead
      have hlt := lt_of_head_ne h hhead
      rw [List.mem_cons, ih hl]
      by_cases hz : key z = key x
      · have hnil : l.filter (fun y => key y = key x) = [] := by
          rw [List.filter_eq_nil_iff]
          intro y hy hkey
          exact absurd (of_decide_eq_true hkey) (hz ▸ (hlt y hy).ne')
        rw [List.filter_cons_of_pos (by simpa using hz), hnil]
        simp [eq_comm]
      · rw [List.filter_cons_of_neg (by simpa using hz)]
        refine ⟨fun hx => hx.resolve_left fun heq => hz (heq ▸ rfl), .inr⟩

/-- Sorting does not change which element of a key is the last. -/
theorem mem_lastOfRuns_sortBy_iff {x : α} :
    x ∈ lastOfRuns key (sortBy key l) ↔ (l.filter fun y => key y = key x).getLast? = some x := by
  rw [mem_lastOfRuns_iff (sortBy_pairwise key l), filter_key_sortBy]

end

end Lib
end Proxeus
