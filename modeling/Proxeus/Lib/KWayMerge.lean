import Mathlib
import Proxeus.Lib.Ascending

/-!
# Lib.KWayMerge

The merge of several lists that looks at their heads only: the heads with the least key are taken,
together, and then the next ones. `MergeRun` leaves open in which order they are taken. The lists
need not be sorted. What is taken together is known from the lists alone (`MergeRun.trace`): two
elements are, if they are left with the same stack of elements that nothing after them exceeds.
-/

namespace Proxeus
namespace Lib

/-! ## Monotone stacks -/

section

variable {κ : Type*} [LinearOrder κ]

/-- Puts `k` on a stack that `k` exceeds no element of any more. -/
def push (st : List κ) (k : κ) : List κ := k :: st.dropWhile fun k' => k' < k

/-- The stacks after each element of a list. -/
def leaders (st : List κ) : List κ → List (List κ)
  | [] => []
  | k :: ks => push st k :: leaders (push st k) ks

theorem reverse_lt_push (st : List κ) (k : κ) : st.reverse < (push st k).reverse := by
  have hsplit : (st.takeWhile fun k' => k' < k) ++ (st.dropWhile fun k' => k' < k) = st :=
    List.takeWhile_append_dropWhile
  have hlt : (st.takeWhile fun k' => k' < k).reverse < [k] := by
    cases hrev : (st.takeWhile fun k' => k' < k).reverse with
    | nil => exact List.nil_lt_cons k []
    | cons k' rest =>
      have hmem : k' ∈ st.takeWhile fun k' => k' < k := by
        rw [← List.mem_reverse, hrev]
        exact List.mem_cons_self
      exact List.cons_lt_cons_iff.mpr (.inl (by simpa using List.mem_takeWhile_imp hmem))
  calc st.reverse
      = (st.dropWhile fun k' => k' < k).reverse ++ (st.takeWhile fun k' => k' < k).reverse := by
        rw [← List.reverse_append, hsplit]
    _ < (st.dropWhile fun k' => k' < k).reverse ++ [k] := List.append_left_lt hlt
    _ = (push st k).reverse := by rw [push, List.reverse_cons]

/-- Every stack is a new one. -/
theorem leaders_ascending (st ks : List κ) :
    Ascending List.reverse (leaders st ks) ∧ ∀ p ∈ leaders st ks, st.reverse < p.reverse := by
  induction ks generalizing st with
  | nil => exact ⟨ascending_nil, fun p hp => absurd hp List.not_mem_nil⟩
  | cons k ks ih =>
    obtain ⟨hasc, hlt⟩ := ih (push st k)
    have hpush := reverse_lt_push st k
    refine ⟨ascending_cons.mpr ⟨hlt, hasc⟩, fun p hp => ?_⟩
    rcases List.mem_cons.mp hp with rfl | hp
    · exact hpush
    · exact hpush.trans (hlt p hp)

theorem nodup_leaders (st ks : List κ) : (leaders st ks).Nodup := (leaders_ascending st ks).1.nodup

theorem map_head_leaders (st ks : List κ) : (leaders st ks).map List.head? = ks.map some := by
  induction ks generalizing st with
  | nil => rfl
  | cons k ks ih => rw [leaders, List.map_cons, ih, List.map_cons, push, List.head?_cons]

/-- What exceeds the last element put on a stack cannot tell it from the stack before. -/
theorem dropWhile_push {st : List κ} {k k' : κ} (h : k < k') :
    (push st k).dropWhile (fun x => x < k') = st.dropWhile fun x => x < k' := by
  rw [push, List.dropWhile_cons, if_pos (decide_eq_true h)]
  induction st with
  | nil => rfl
  | cons x st ih =>
    by_cases hx : x < k
    · simp only [List.dropWhile_cons, hx, hx.trans h, decide_true, if_true, ih]
    · simp only [List.dropWhile_cons, hx, decide_false, Bool.false_eq_true, if_false]

end

/-! ## Runs -/

section

variable {α κ : Type*} [LinearOrder κ] (key : α → κ)

def heads (sets : List (List α)) : List α := sets.filterMap List.head?

/-- A list after the heads with the key `k` have been taken. -/
def advance (k : κ) : List α → List α
  | [] => []
  | x :: set => if key x = k then set else x :: set

/-- The heads of `sets` with the least key are taken as one group, until there are none. -/
inductive MergeRun : List (List α) → List (κ × List α) → Prop where
  | done {sets : List (List α)} : heads sets = [] → MergeRun sets []
  | step {sets : List (List α)} {k : κ} {group : List α} {groups : List (κ × List α)} :
      k ∈ (heads sets).map key → (∀ x ∈ heads sets, k ≤ key x) →
      group.Perm ((heads sets).filter fun x => key x = k) →
      MergeRun (sets.map (advance key k)) groups → MergeRun sets ((k, group) :: groups)

def mergeLoop (sets : List (List α)) : Nat → List (κ × List α)
  | 0 => []
  | fuel + 1 =>
    match ((heads sets).map key).min? with
    | none => []
    | some k =>
      (k, (heads sets).filter fun x => key x = k) :: mergeLoop (sets.map (advance key k)) fuel

/-- The merge that takes equal heads in the order of the lists. -/
def kWayMerge (sets : List (List α)) : List (κ × List α) := mergeLoop key sets sets.flatten.length

variable {key}

/-! ## One step -/

theorem mem_heads {sets : List (List α)} {x : α} :
    x ∈ heads sets ↔ ∃ set, x :: set ∈ sets := by
  rw [heads, List.mem_filterMap]
  constructor
  · rintro ⟨set, hset, hx⟩
    obtain ⟨rest, rfl⟩ := List.head?_eq_some_iff.mp hx
    exact ⟨rest, hset⟩
  · rintro ⟨set, hset⟩
    exact ⟨x :: set, hset, rfl⟩

theorem flatten_perm_advance (sets : List (List α)) (k : κ) :
    sets.flatten.Perm
      (((heads sets).filter fun x => key x = k) ++ (sets.map (advance key k)).flatten) := by
  induction sets with
  | nil => exact List.Perm.refl _
  | cons set sets ih =>
    cases set with
    | nil => exact ih
    | cons x set =>
      by_cases hx : key x = k
      · have hstep : ((heads ((x :: set) :: sets)).filter fun x => key x = k) ++
            (((x :: set) :: sets).map (advance key k)).flatten =
            x :: (((heads sets).filter fun x => key x = k) ++
              (set ++ (sets.map (advance key k)).flatten)) := by
          simp [heads, advance, hx]
        rw [hstep, List.flatten_cons, List.cons_append]
        refine List.Perm.cons x ?_
        refine (ih.append_left set).trans ?_
        rw [← List.append_assoc, ← List.append_assoc]
        exact List.perm_append_comm.append_right _
      · have hstep : ((heads ((x :: set) :: sets)).filter fun x => key x = k) ++
            (((x :: set) :: sets).map (advance key k)).flatten =
            ((heads sets).filter fun x => key x = k) ++
              (x :: set ++ (sets.map (advance key k)).flatten) := by
          simp [heads, advance, hx]
        rw [hstep, List.flatten_cons]
        refine (ih.append_left (x :: set)).trans ?_
        rw [← List.append_assoc, ← List.append_assoc]
        exact List.perm_append_comm.append_right _

theorem advance_sublist (k : κ) (set : List α) : (advance key k set).Sublist set := by
  cases set with
  | nil => exact List.Sublist.refl _
  | cons x set =>
    rw [advance]
    split
    · exact List.sublist_cons_self x set
    · exact List.Sublist.refl _

theorem heads_eq_nil {sets : List (List α)} (h : heads sets = []) : sets.flatten = [] := by
  rw [List.flatten_eq_nil_iff]
  intro set hset
  cases set with
  | nil => rfl
  | cons x set =>
    have hx := mem_heads.mpr ⟨set, hset⟩
    rw [h] at hx
    exact absurd hx List.not_mem_nil

/-! ## Whole runs -/

namespace MergeRun

variable {sets : List (List α)} {groups : List (κ × List α)}

theorem perm (h : MergeRun key sets groups) : (groups.flatMap Prod.snd).Perm sets.flatten := by
  induction h with
  | done hnil => rw [heads_eq_nil hnil, List.flatMap_nil]
  | step _ _ hgroup _ ih =>
    rw [List.flatMap_cons]
    exact (hgroup.append ih).trans (flatten_perm_advance _ _).symm

theorem mem_group (h : MergeRun key sets groups) :
    ∀ g ∈ groups, g.2 ≠ [] ∧ ∀ x ∈ g.2, key x = g.1 := by
  induction h with
  | done _ => exact fun g hg => absurd hg List.not_mem_nil
  | @step sets k group groups hk _ hgroup _ ih =>
    intro g hg
    rcases List.mem_cons.mp hg with rfl | hg
    · obtain ⟨x, hx, hkey⟩ := List.mem_map.mp hk
      refine ⟨?_, fun y hy => ?_⟩
      · exact List.ne_nil_of_mem
          (hgroup.mem_iff.mpr (List.mem_filter.mpr ⟨hx, decide_eq_true hkey⟩))
      · exact of_decide_eq_true (List.mem_filter.mp (hgroup.mem_iff.mp hy)).2
    · exact ih g hg

/-- The keys of the groups are those of the elements. -/
theorem mem_keys_iff (h : MergeRun key sets groups) (k : κ) :
    k ∈ groups.map Prod.fst ↔ ∃ set ∈ sets, k ∈ set.map key := by
  have hmem : ∀ x, (∃ g ∈ groups, x ∈ g.2) ↔ ∃ set ∈ sets, x ∈ set := fun x => by
    rw [← List.mem_flatMap, h.perm.mem_iff, List.mem_flatten]
  constructor
  · intro hk
    obtain ⟨g, hg, rfl⟩ := List.mem_map.mp hk
    obtain ⟨hne, hkeys⟩ := h.mem_group g hg
    obtain ⟨x, hx⟩ := List.exists_mem_of_ne_nil _ hne
    obtain ⟨set, hset, hin⟩ := (hmem x).mp ⟨g, hg, hx⟩
    exact ⟨set, hset, List.mem_map.mpr ⟨x, hin, hkeys x hx⟩⟩
  · rintro ⟨set, hset, hk⟩
    obtain ⟨x, hx, rfl⟩ := List.mem_map.mp hk
    obtain ⟨g, hg, hin⟩ := (hmem x).mpr ⟨set, hset, hx⟩
    exact List.mem_map.mpr ⟨g, hg, ((h.mem_group g hg).2 x hin).symm⟩

end MergeRun

theorem mergeRun_mergeLoop (fuel : Nat) (sets : List (List α)) (h : sets.flatten.length ≤ fuel) :
    MergeRun key sets (mergeLoop key sets fuel) := by
  induction fuel generalizing sets with
  | zero =>
    refine .done ?_
    rw [Nat.le_zero, List.length_eq_zero_iff, List.flatten_eq_nil_iff] at h
    rw [heads, List.filterMap_eq_nil_iff]
    intro set hset
    rw [h set hset, List.head?_nil]
  | succ fuel ih =>
    rw [mergeLoop]
    cases hmin : ((heads sets).map key).min? with
    | none => exact .done (List.map_eq_nil_iff.mp (List.min?_eq_none_iff.mp hmin))
    | some k =>
      obtain ⟨hk, hle⟩ := List.min?_eq_some_iff.mp hmin
      refine .step hk (fun x hx => hle _ (List.mem_map_of_mem hx)) (List.Perm.refl _) (ih _ ?_)
      obtain ⟨x, hx, hkey⟩ := List.mem_map.mp hk
      have hlen := (@flatten_perm_advance _ _ _ key sets k).length_eq
      have hpos : 0 < ((heads sets).filter fun x => key x = k).length :=
        List.length_pos_of_mem (List.mem_filter.mpr ⟨hx, decide_eq_true hkey⟩)
      rw [List.length_append] at hlen
      omega

theorem mergeRun_kWayMerge (sets : List (List α)) : MergeRun key sets (kWayMerge key sets) :=
  mergeRun_mergeLoop _ sets le_rfl

/-! ## What is taken together -/

variable (key) in
/-- The elements of a list, each with the stack it is left with. -/
def trace (st : List κ) : List α → List (α × List κ)
  | [] => []
  | x :: set => (x, push st (key x)) :: trace (push st (key x)) set

theorem map_snd_trace (st : List κ) (set : List α) :
    (trace key st set).map Prod.snd = leaders st (set.map key) := by
  induction set generalizing st with
  | nil => rfl
  | cons x set ih => rw [trace, List.map_cons, ih, List.map_cons, leaders]

theorem map_fst_trace (st : List κ) (set : List α) : (trace key st set).map Prod.fst = set := by
  induction set generalizing st with
  | nil => rfl
  | cons x set ih => rw [trace, List.map_cons, ih]

/-- The top of the stack is the key of the element. -/
theorem head_of_mem_trace {st : List κ} {set : List α} {e : α × List κ}
    (h : e ∈ trace key st set) : e.2.head? = some (key e.1) := by
  induction set generalizing st with
  | nil => cases h
  | cons x set ih =>
    rcases List.mem_cons.mp h with rfl | h
    · rfl
    · exact ih h

/-- Above all before it, an element is left alone on the stack. -/
theorem trace_of_ascending {st : List κ} {set : List α} (h : Ascending key set)
    (hst : ∀ k ∈ st, ∀ x ∈ set, k < key x) : ∀ e ∈ trace key st set, e.2 = [key e.1] := by
  induction set generalizing st with
  | nil => exact fun e he => absurd he List.not_mem_nil
  | cons x set ih =>
    obtain ⟨hlt, hasc⟩ := ascending_cons.mp h
    have hpush : push st (key x) = [key x] := by
      rw [push, List.dropWhile_eq_nil_iff.mpr fun k hk =>
        decide_eq_true (hst k hk x List.mem_cons_self)]
    intro e he
    rw [trace, hpush] at he
    rcases List.mem_cons.mp he with rfl | he
    · rfl
    · exact ih hasc (fun k hk y hy => List.mem_singleton.mp hk ▸ hlt y hy) e he

variable (key) in
/-- The elements of the lists, with what a merge leaves each of them with. -/
def marked (sets : List (List α)) : List (α × List κ) := sets.flatMap (trace key [])

variable (key) in
/-- The elements that are left with the stack `p`. -/
def classOf (sets : List (List α)) (p : List κ) : List α :=
  ((marked key sets).filter fun e => e.2 = p).map Prod.fst

theorem mem_classOf {sets : List (List α)} {p : List κ} {x : α} :
    x ∈ classOf key sets p ↔ (x, p) ∈ marked key sets := by
  simp [classOf]

theorem head_of_mem_marked {sets : List (List α)} {e : α × List κ} (h : e ∈ marked key sets) :
    e.2.head? = some (key e.1) := by
  obtain ⟨set, -, hin⟩ := List.mem_flatMap.mp h
  exact head_of_mem_trace hin

variable (key) in
/-- A list and its stack after the heads with the key `k` have been taken. -/
def advanceTraced (k : κ) (s : List κ × List α) : List κ × List α :=
  match s.2 with
  | [] => s
  | x :: set => if key x = k then (push s.1 k, set) else s

theorem advanceTraced_cons (k : κ) (st : List κ) (x : α) (set : List α) :
    advanceTraced key k (st, x :: set) =
      if key x = k then (push st k, set) else (st, x :: set) := rfl

theorem snd_advanceTraced (k : κ) (s : List κ × List α) :
    (advanceTraced key k s).2 = advance key k s.2 := by
  obtain ⟨st, set⟩ := s
  cases set with
  | nil => rfl
  | cons x set =>
    rw [advanceTraced_cons, advance, apply_ite Prod.snd]

variable (key) in
/-- The stack of the run cannot be told from that of a list by what the list goes on with. -/
def Synced (G : List κ) (s : List κ × List α) : Prop :=
  ∀ x ∈ s.2.head?, (G.dropWhile fun k => k < key x) = s.1.dropWhile fun k => k < key x

theorem synced_advanceTraced {G : List κ} {s : List κ × List α} {k : κ} (h : Synced key G s)
    (hle : ∀ x ∈ s.2.head?, k ≤ key x) : Synced key (push G k) (advanceTraced key k s) := by
  obtain ⟨st, set⟩ := s
  cases set with
  | nil => exact fun x hx => nomatch hx
  | cons x set =>
    have hG := h x rfl
    rw [advanceTraced_cons]
    split
    · rename_i hkey
      intro y _
      rw [hkey] at hG
      rw [push, push, hG]
    · rename_i hkey
      intro y hy
      cases hy
      rw [dropWhile_push (lt_of_le_of_ne (hle x rfl) (Ne.symm hkey)), hG]

variable (key) in
/-- The elements of all lists, with their stacks. -/
def traced (states : List (List κ × List α)) : List (α × List κ) :=
  states.flatMap fun s => trace key s.1 s.2

theorem traced_cons (s : List κ × List α) (states : List (List κ × List α)) :
    traced key (s :: states) = trace key s.1 s.2 ++ traced key states := List.flatMap_cons

theorem filter_stack (taken : List α) (p p' : List κ) :
    ((taken.map fun x => (x, p)).filter fun e => e.2 = p').map Prod.fst =
      if p = p' then taken else [] := by
  split
  · rename_i h
    rw [List.filter_eq_self.mpr, List.map_map]
    · exact List.map_id' taken
    · intro e he
      obtain ⟨x, -, rfl⟩ := List.mem_map.mp he
      exact decide_eq_true h
  · rename_i h
    simp [h]

/-- What one step takes, all with the stack that the run is left with, and what it leaves. -/
theorem traced_perm {states : List (List κ × List α)} {G : List κ} {k : κ}
    (hsynced : ∀ s ∈ states, Synced key G s) :
    (traced key states).Perm
      ((((heads (states.map Prod.snd)).filter fun x => key x = k).map fun x => (x, push G k)) ++
        traced key (states.map (advanceTraced key k))) := by
  induction states with
  | nil => exact List.Perm.refl _
  | cons s states ih =>
    have ih := ih fun s hs => hsynced s (List.mem_cons_of_mem _ hs)
    have hs := hsynced s List.mem_cons_self
    obtain ⟨st, set⟩ := s
    cases set with
    | nil => exact ih
    | cons x set =>
      by_cases hx : key x = k
      · have hpush : push st (key x) = push G k := by
          rw [push, push, ← hs x rfl, hx]
        have hstep : ((heads (((st, x :: set) :: states).map Prod.snd)).filter fun x =>
            key x = k) = x :: (heads (states.map Prod.snd)).filter fun x => key x = k := by
          simp [heads, hx]
        rw [hstep, List.map_cons, List.map_cons, advanceTraced_cons, if_pos hx, traced_cons, trace,
          hpush, ← hx, hpush, hx, List.cons_append, List.cons_append, traced_cons]
        refine List.Perm.cons _ ?_
        exact (ih.append_left _).trans (List.perm_append_comm_assoc _ _ _)
      · have hstep : ((heads (((st, x :: set) :: states).map Prod.snd)).filter fun x =>
            key x = k) = (heads (states.map Prod.snd)).filter fun x => key x = k := by
          simp [heads, hx]
        rw [hstep, List.map_cons, advanceTraced_cons, if_neg hx, traced_cons, traced_cons]
        exact (ih.append_left _).trans (List.perm_append_comm_assoc _ _ _)

namespace MergeRun

/-- Each group has the elements with one stack, and the groups have the stacks of their keys. -/
theorem traced_groups {states : List (List κ × List α)} {groups : List (κ × List α)}
    (h : MergeRun key (states.map Prod.snd) groups) {G : List κ}
    (hsynced : ∀ s ∈ states, Synced key G s) :
    (∀ e ∈ traced key states, e.2 ∈ leaders G (groups.map Prod.fst)) ∧
      List.Forall₂ (fun g p => g.2.Perm (((traced key states).filter fun e => e.2 = p).map Prod.fst))
        groups (leaders G (groups.map Prod.fst)) := by
  generalize hsets : states.map Prod.snd = sets at h
  induction h generalizing states G with
  | done hnil =>
    have hflat := heads_eq_nil hnil
    rw [← hsets, List.flatten_eq_nil_iff] at hflat
    have hnone : traced key states = [] := by
      rw [traced, List.flatMap_eq_nil_iff]
      intro s hs
      rw [hflat s.2 (List.mem_map_of_mem hs), trace]
    rw [hnone]
    exact ⟨fun e he => absurd he List.not_mem_nil, .nil⟩
  | @step sets k group groups hk hle hgroup _ ih =>
    subst hsets
    have hadvance : (states.map (advanceTraced key k)).map Prod.snd =
        (states.map Prod.snd).map (advance key k) := by
      rw [List.map_map, List.map_map]
      exact List.map_congr_left fun s _ => snd_advanceTraced k s
    have hsynced' : ∀ s ∈ states.map (advanceTraced key k), Synced key (push G k) s := by
      intro s' hs'
      obtain ⟨s, hs, rfl⟩ := List.mem_map.mp hs'
      refine synced_advanceTraced (hsynced s hs) fun x hx => hle x ?_
      exact List.mem_filterMap.mpr ⟨s.2, List.mem_map_of_mem hs, hx⟩
    obtain ⟨hmem, hgroups⟩ := ih hsynced' hadvance
    have hperm := traced_perm (k := k) hsynced
    have hfresh : push G k ∉ leaders (push G k) (groups.map Prod.fst) := fun h =>
      lt_irrefl _ ((leaders_ascending _ _).2 _ h)
    rw [List.map_cons, leaders]
    refine ⟨fun e he => ?_, .cons ?_ ?_⟩
    · rcases List.mem_append.mp (hperm.mem_iff.mp he) with he | he
      · obtain ⟨x, -, rfl⟩ := List.mem_map.mp he
        exact List.mem_cons_self
      · exact List.mem_cons_of_mem _ (hmem e he)
    · refine hgroup.trans ?_
      have hlater : (traced key (states.map (advanceTraced key k))).filter
          (fun e => e.2 = push G k) = [] := by
        refine List.filter_eq_nil_iff.mpr fun e he => ?_
        exact fun heq => hfresh (of_decide_eq_true heq ▸ hmem e he)
      have hfilter := (hperm.filter fun e => e.2 = push G k).map Prod.fst
      rw [List.filter_append, hlater, List.append_nil, filter_stack, if_pos rfl] at hfilter
      exact hfilter.symm
    · obtain ⟨hlen, hzip⟩ := List.forall₂_iff_zip.mp hgroups
      refine List.forall₂_iff_zip.mpr ⟨hlen, fun {g p} hgp => (hzip hgp).trans ?_⟩
      have hne : push G k ≠ p := fun h => hfresh (h ▸ (List.of_mem_zip hgp).2)
      have hfilter := (hperm.filter fun e => e.2 = p).map Prod.fst
      rw [List.filter_append, List.map_append, filter_stack, if_neg hne, List.nil_append] at hfilter
      exact hfilter.symm

variable {sets : List (List α)} {groups : List (κ × List α)}

/-- What is taken together is what is left with the same stack. -/
theorem groups_marked (h : MergeRun key sets groups) :
    (∀ e ∈ marked key sets, e.2 ∈ leaders [] (groups.map Prod.fst)) ∧
      List.Forall₂ (fun g p => g.2.Perm (classOf key sets p)) groups
        (leaders [] (groups.map Prod.fst)) := by
  have hsets : (sets.map fun set => (([] : List κ), set)).map Prod.snd = sets := by
    rw [List.map_map]
    exact List.map_id' sets
  have htraced : traced key (sets.map fun set => (([] : List κ), set)) = marked key sets := by
    rw [traced, List.flatMap_map]
    rfl
  simp only [classOf, ← htraced]
  rw [← hsets] at h
  refine h.traced_groups fun s hs => ?_
  obtain ⟨set, -, rfl⟩ := List.mem_map.mp hs
  exact fun _ _ => rfl

/-- Every stack of the run is that of an element. -/
theorem exists_marked (h : MergeRun key sets groups) {p : List κ}
    (hp : p ∈ leaders [] (groups.map Prod.fst)) : ∃ x, (x, p) ∈ marked key sets := by
  obtain ⟨hlen, hzip⟩ := List.forall₂_iff_zip.mp h.groups_marked.2
  obtain ⟨i, hi, rfl⟩ := List.mem_iff_getElem.mp hp
  have hgp : (groups[i], (leaders [] (groups.map Prod.fst))[i]) ∈
      groups.zip (leaders [] (groups.map Prod.fst)) := by
    have hlt : i < (groups.zip (leaders [] (groups.map Prod.fst))).length := by
      rw [List.length_zip]
      omega
    rw [← List.getElem_zip]
    exact List.getElem_mem hlt
  obtain ⟨hne, -⟩ := h.mem_group _ (List.getElem_mem (hlen ▸ hi))
  obtain ⟨x, hx⟩ := List.exists_mem_of_ne_nil _ hne
  exact ⟨x, mem_classOf.mp ((hzip hgp).mem_iff.mp hx)⟩

/-- Every key is taken once exactly if the elements with it are left with the same stack. -/
theorem nodup_keys_iff (h : MergeRun key sets groups) :
    (groups.map Prod.fst).Nodup ↔
      ∀ e ∈ marked key sets, ∀ e' ∈ marked key sets, key e.1 = key e'.1 → e.2 = e'.2 := by
  have hkeys : (groups.map Prod.fst).Nodup ↔
      ((leaders [] (groups.map Prod.fst)).map List.head?).Nodup := by
    rw [map_head_leaders]
    exact (List.nodup_map_iff (Option.some_injective _)).symm
  rw [hkeys, List.nodup_map_iff_inj_on (nodup_leaders _ _)]
  constructor
  · intro hinj e he e' he' heq
    refine hinj _ (h.groups_marked.1 e he) _ (h.groups_marked.1 e' he') ?_
    rw [head_of_mem_marked he, head_of_mem_marked he', heq]
  · intro hall p hp p' hp' heq
    obtain ⟨x, hx⟩ := h.exists_marked hp
    obtain ⟨x', hx'⟩ := h.exists_marked hp'
    refine hall _ hx _ hx' ?_
    have hpx := head_of_mem_marked hx
    rw [heq, head_of_mem_marked hx', Option.some.injEq] at hpx
    exact hpx.symm

/-! ## Sorted lists -/

/-- From sorted lists, the keys are taken in order. -/
theorem pairwise_keys (h : MergeRun key sets groups)
    (hsorted : ∀ set ∈ sets, set.Pairwise fun x y => key x ≤ key y) :
    (groups.map Prod.fst).Pairwise (· ≤ ·) := by
  induction h with
  | done _ => exact List.Pairwise.nil
  | @step sets k group groups hk hle hgroup hrun ih =>
    have hsorted' : ∀ set ∈ sets.map (advance key k), set.Pairwise fun x y => key x ≤ key y := by
      intro set' hset'
      obtain ⟨set, hset, rfl⟩ := List.mem_map.mp hset'
      exact (hsorted set hset).sublist (advance_sublist k set)
    rw [List.map_cons, List.pairwise_cons]
    refine ⟨fun k' hk' => ?_, ih hsorted'⟩
    obtain ⟨set', hset', hin⟩ := (hrun.mem_keys_iff k').mp hk'
    obtain ⟨set, hset, rfl⟩ := List.mem_map.mp hset'
    obtain ⟨y, hy, rfl⟩ := List.mem_map.mp hin
    have hy := (advance_sublist k set).subset hy
    cases set with
    | nil => exact absurd hy List.not_mem_nil
    | cons x set =>
      refine (hle x (mem_heads.mpr ⟨set, hset⟩)).trans ?_
      rcases List.mem_cons.mp hy with rfl | hy
      · exact le_rfl
      · exact (List.pairwise_cons.mp (hsorted _ hset)).1 y hy

theorem nodup_keys_iff_of_sorted (h : MergeRun key sets groups)
    (hsorted : ∀ set ∈ sets, set.Pairwise fun x y => key x ≤ key y) :
    (groups.map Prod.fst).Nodup ↔ ∀ set ∈ sets, (set.map key).Nodup := by
  rw [h.nodup_keys_iff]
  constructor
  · intro hall set hset
    have hstacks : ((trace key [] set).map Prod.snd).Nodup := by
      rw [map_snd_trace]
      exact nodup_leaders _ _
    have hinj : ((trace key [] set).map fun e => key e.1).Nodup := by
      refine (List.nodup_map_iff_inj_on hstacks.of_map).mpr fun e he e' he' heq => ?_
      refine List.inj_on_of_nodup_map hstacks he he' ?_
      exact hall e (List.mem_flatMap.mpr ⟨set, hset, he⟩) e'
        (List.mem_flatMap.mpr ⟨set, hset, he'⟩) heq
    have hkeys : ((trace key [] set).map Prod.fst).map key = set.map key := by rw [map_fst_trace]
    rwa [← hkeys, List.map_map]
  · intro hnodup e he e' he' heq
    have hself : ∀ e ∈ marked key sets, e.2 = [key e.1] := by
      intro e he
      obtain ⟨set, hset, hin⟩ := List.mem_flatMap.mp he
      have hasc : Ascending key set :=
        List.Pairwise.imp₂ (fun _ _ hle hne => lt_of_le_of_ne hle hne) (hsorted set hset)
          (List.pairwise_map.mp (hnodup set hset))
      exact trace_of_ascending hasc (fun k hk => absurd hk List.not_mem_nil) e hin
    rw [hself e he, hself e' he', heq]

end MergeRun

end

end Lib
end Proxeus
