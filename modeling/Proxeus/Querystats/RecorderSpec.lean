import Proxeus.Querystats.Recorder

/-!
# Querystats.RecorderSpec

A recorder reports its ledger (`record_reports`). The totals of the rows, the slots of the list and the
counter of the rest are kept apart; `Matches` says of each what it owes to the ledger, and every call
preserves it, whichever entry it finishes and however late its group turns up.
-/

namespace Proxeus
namespace Querystats

open Lib

/-! ## Lists -/

section

variable {α β : Type*}

/-- An element that comes to count adds what it counts for. -/
theorem filterMap_set_perm {f : α → Option β} {l : List α} {i : Nat} {x y : α} {b : β}
    (hx : l[i]? = some x) (hfx : f x = none) (hfy : f y = some b) :
    ((l.set i y).filterMap f).Perm (b :: l.filterMap f) := by
  induction l generalizing i with
  | nil => cases hx
  | cons z l ih =>
    cases i with
    | zero =>
      cases hx
      rw [List.set_cons_zero, List.filterMap_cons_some hfy, List.filterMap_cons_none hfx]
    | succ i =>
      rw [List.set_cons_succ]
      have hperm := ih hx
      cases hz : f z with
      | none =>
        rw [List.filterMap_cons_none hz, List.filterMap_cons_none hz]
        exact hperm
      | some c =>
        rw [List.filterMap_cons_some hz, List.filterMap_cons_some hz]
        exact (hperm.cons c).trans (List.Perm.swap b c _)

theorem filterMap_set_of_eq {f : α → Option β} {l : List α} {i : Nat} {x y : α}
    (hx : l[i]? = some x) (hf : f y = f x) : (l.set i y).filterMap f = l.filterMap f := by
  induction l generalizing i with
  | nil => cases hx
  | cons z l ih =>
    cases i with
    | zero =>
      cases hx
      rw [List.set_cons_zero, List.filterMap_cons, List.filterMap_cons, hf]
    | succ i =>
      rw [List.set_cons_succ, List.filterMap_cons, List.filterMap_cons, ih hx]

/-- Slots that hold what a list counts hold it in the same order. -/
theorem filterMap_id_eq {f : α → Option β} {slots : List (Option β)} {l : List α}
    (h : ∀ i : Nat, slots[i]?.join = l[i]?.bind f) : slots.filterMap id = l.filterMap f := by
  induction slots generalizing l with
  | nil =>
    symm
    rw [List.filterMap_nil, List.filterMap_eq_nil_iff]
    intro x hx
    obtain ⟨i, hi, rfl⟩ := List.mem_iff_getElem.mp hx
    have := h i
    rw [List.getElem?_eq_getElem hi] at this
    exact this.symm
  | cons slot slots ih =>
    cases l with
    | nil =>
      have hslot : slot = none := h 0
      have hrest := ih (l := []) fun i => h (i + 1)
      rw [hslot, List.filterMap_cons_none rfl, hrest]
    | cons x l =>
      have hslot : slot = f x := h 0
      have hrest := ih (l := l) fun i => h (i + 1)
      rw [List.filterMap_cons, List.filterMap_cons, hrest, hslot]
      rfl

theorem join_getElem?_append_replicate (slots : List (Option β)) (n i : Nat) :
    (slots ++ List.replicate n none)[i]?.join = slots[i]?.join := by
  rw [List.getElem?_append]
  split
  · rfl
  · rename_i hlt
    rw [List.getElem?_replicate, List.getElem?_eq_none (Nat.le_of_not_lt hlt)]
    split
    · rfl
    · rfl

end

/-! ## The rows -/

/-- The table finds the row of each ordinal, and no other. -/
def Indexed (groups : List GroupStats) (byOrdinal : Int → Option Nat) : Prop :=
  ∀ ordinal i, byOrdinal ordinal = some i ↔ groups[i]?.map GroupStats.ordinal = some ordinal

theorem Indexed.nodup {groups : List GroupStats} {byOrdinal : Int → Option Nat}
    (h : Indexed groups byOrdinal) : (groups.map GroupStats.ordinal).Nodup := by
  rw [List.nodup_iff_injective_getElem]
  rintro ⟨i, hi⟩ ⟨j, hj⟩ heq
  rw [List.length_map] at hi hj
  simp only [List.getElem_map] at heq
  have hi' := (h _ i).mpr (by rw [List.getElem?_eq_getElem hi]; rfl)
  have hj' := (h _ j).mpr (by rw [List.getElem?_eq_getElem hj]; rfl)
  rw [heq, hj'] at hi'
  exact Fin.ext (Option.some.inj hi').symm

theorem Indexed.append {groups : List GroupStats} {byOrdinal : Int → Option Nat}
    (h : Indexed groups byOrdinal) {g : GroupStats} (hg : byOrdinal g.ordinal = none) :
    Indexed (groups ++ [g]) (Function.update byOrdinal g.ordinal (some groups.length)) := by
  intro ordinal i
  rcases lt_trichotomy i groups.length with hlt | rfl | hgt
  · rw [List.getElem?_append_left hlt, ← h ordinal i]
    by_cases ho : ordinal = g.ordinal
    · rw [ho, Function.update_self, hg]
      simp only [reduceCtorEq, iff_false, Option.some.injEq]
      omega
    · rw [Function.update_of_ne ho]
  · rw [List.getElem?_concat_length, Option.map_some, Option.some.injEq]
    by_cases ho : ordinal = g.ordinal
    · simp [ho]
    · rw [Function.update_of_ne ho, h ordinal, List.getElem?_eq_none le_rfl]
      simp [Ne.symm ho]
  · rw [List.getElem?_eq_none (by simp; omega)]
    by_cases ho : ordinal = g.ordinal
    · rw [ho, Function.update_self]
      simp only [Option.some.injEq, Option.map_none, reduceCtorEq, iff_false]
      omega
    · rw [Function.update_of_ne ho, h ordinal, List.getElem?_eq_none (by omega)]

theorem Indexed.none_of_notMem {groups : List GroupStats} {byOrdinal : Int → Option Nat}
    (h : Indexed groups byOrdinal) {ordinal : Int}
    (hmem : ordinal ∉ groups.map GroupStats.ordinal) : byOrdinal ordinal = none := by
  cases hfound : byOrdinal ordinal with
  | none => rfl
  | some i =>
    obtain ⟨g, hg, heq⟩ := Option.map_eq_some_iff.mp ((h ordinal i).mp hfound)
    exact absurd (List.mem_map.mpr ⟨g, List.mem_of_getElem? hg, heq⟩) hmem

theorem indexed_indexRows {rows groups : List GroupStats} {byOrdinal : Int → Option Nat}
    (h : Indexed groups byOrdinal) (hn : ((groups ++ rows).map GroupStats.ordinal).Nodup) :
    Indexed (groups ++ rows) (indexRows rows groups.length byOrdinal) := by
  induction rows generalizing groups byOrdinal with
  | nil =>
    rw [List.append_nil]
    exact h
  | cons g rows ih =>
    have hassoc : groups ++ g :: rows = groups ++ [g] ++ rows := by simp
    have hlen : groups.length + 1 = (groups ++ [g]).length := by simp
    have hnew : g.ordinal ∉ groups.map GroupStats.ordinal := by
      rw [List.map_append, List.nodup_append] at hn
      intro hmem
      exact hn.2.2 _ hmem _ List.mem_cons_self rfl
    rw [hassoc] at hn ⊢
    rw [indexRows, hlen]
    exact ih (h.append (h.none_of_notMem hnew)) hn

/-! ## The ledger -/

namespace Ledger

variable {l : Ledger} {i : Nat} {req : Request} {o : Outcome}

/-- The first `Finish` adds its outcome to those of the group. -/
theorem outcomes_settle (hl : l[i]? = some (req, none)) :
    ((Ledger.outcomes (l.set i (req, some o)) req.groupOrdinal).Perm
      (o :: l.outcomes req.groupOrdinal)) :=
  filterMap_set_perm hl (by simp) (by simp)

theorem outcomes_settle_other (hl : l[i]? = some (req, none)) {ordinal : Int}
    (hne : ordinal ≠ req.groupOrdinal) :
    Ledger.outcomes (l.set i (req, some o)) ordinal = l.outcomes ordinal :=
  filterMap_set_of_eq hl (by simp [Ne.symm hne])

theorem mem_finishedOrdinals_settle (hl : l[i]? = some (req, none)) (ordinal : Int) :
    ordinal ∈ Ledger.finishedOrdinals (l.set i (req, some o)) ↔
      ordinal = req.groupOrdinal ∨ ordinal ∈ l.finishedOrdinals := by
  have hperm : (Ledger.finishedOrdinals (l.set i (req, some o))).Perm
      (req.groupOrdinal :: l.finishedOrdinals) := filterMap_set_perm hl rfl rfl
  rw [hperm.mem_iff, List.mem_cons]

theorem outcomes_eq_nil_of_notMem {ordinal : Int} (h : ordinal ∉ l.finishedOrdinals) :
    l.outcomes ordinal = [] := by
  unfold outcomes
  rw [List.filterMap_eq_nil_iff]
  rintro ⟨req, out⟩ hp
  simp only [ite_eq_right_iff]
  intro ho
  cases out with
  | none => rfl
  | some o =>
    refine absurd ?_ h
    exact List.mem_filterMap.mpr ⟨(req, some o), hp, by simp [ho]⟩

end Ledger

variable (groups : List Group)

/-- The row of the group after an outcome is the row before with the outcome added. -/
theorem groupRow_settle {l : Ledger} {i : Nat} {req : Request} {o : Outcome}
    (hl : l[i]? = some (req, none)) :
    groupRow groups (l.set i (req, some o)) req.groupOrdinal =
      (groupRow groups l req.groupOrdinal).add o := by
  have hperm := Ledger.outcomes_settle (o := o) hl
  unfold groupRow GroupStats.add
  rw [hperm.length_eq, hperm.countP_eq, (hperm.map Outcome.series).sum_eq,
    (hperm.map Outcome.samples).sum_eq]
  cases herr : o.err.isSome with
  | true => simp [herr, add_comm]
  | false => simp [herr, add_comm]

theorem groupRow_settle_other {l : Ledger} {i : Nat} {req : Request} {o : Outcome}
    (hl : l[i]? = some (req, none)) {ordinal : Int} (hne : ordinal ≠ req.groupOrdinal) :
    groupRow groups (l.set i (req, some o)) ordinal = groupRow groups l ordinal := by
  unfold groupRow
  rw [Ledger.outcomes_settle_other hl hne]

/-! ## The invariant -/

/-- What the parts of a session owe to the ledger. -/
structure Matches (s : Session) (l : Ledger) : Prop where
  entries : ∀ i : Nat, s.entries[i]? = l[i]?.map fun p => ⟨i, p.1, p.2.isSome⟩
  begun : s.recorder.begun = l.length
  indexed : Indexed s.recorder.groups s.recorder.byOrdinal
  ordinals : ∀ ordinal, ordinal ∈ s.recorder.groups.map GroupStats.ordinal ↔
    ordinal ∈ groups.map Group.ordinal ∨ ordinal ∈ l.finishedOrdinals
  rows : ∀ g ∈ s.recorder.groups, g = groupRow groups l g.ordinal
  slots : ∀ i : Nat,
    s.recorder.requests[i]?.join = (l.take maxRequests)[i]?.bind (ledgerStats groups)
  truncated : s.recorder.truncated = ((l.drop maxRequests).filterMap Prod.snd).length

/-- The row that is found, or added, for a group is the one of the ledger so far. -/
theorem group_spec {r : Recorder} {l : Ledger} (hindexed : Indexed r.groups r.byOrdinal)
    (hordinals : ∀ ordinal, ordinal ∈ r.groups.map GroupStats.ordinal ↔
      ordinal ∈ groups.map Group.ordinal ∨ ordinal ∈ l.finishedOrdinals)
    (hrows : ∀ g ∈ r.groups, g = groupRow groups l g.ordinal) (ordinal : Int) :
    ∃ i r', r.group ordinal = (i, r') ∧ Indexed r'.groups r'.byOrdinal ∧
      (∀ o, o ∈ r'.groups.map GroupStats.ordinal ↔
        o = ordinal ∨ o ∈ r.groups.map GroupStats.ordinal) ∧
      (∀ g ∈ r'.groups, g = groupRow groups l g.ordinal) ∧
      r'.groups[i]? = some (groupRow groups l ordinal) ∧
      r'.requests = r.requests ∧ r'.truncated = r.truncated ∧ r'.begun = r.begun := by
  unfold Recorder.group
  cases hfound : r.byOrdinal ordinal with
  | some i =>
    obtain ⟨g, hg, ho⟩ := Option.map_eq_some_iff.mp ((hindexed ordinal i).mp hfound)
    have hmem : ordinal ∈ r.groups.map GroupStats.ordinal :=
      List.mem_map.mpr ⟨g, List.mem_of_getElem? hg, ho⟩
    refine ⟨i, r, rfl, hindexed, fun o => ?_, hrows, ?_, rfl, rfl, rfl⟩
    · constructor
      · exact .inr
      · rintro (rfl | hin)
        · exact hmem
        · exact hin
    · rw [hg, hrows g (List.mem_of_getElem? hg), ho]
  | none =>
    have hnew : ordinal ∉ r.groups.map GroupStats.ordinal := by
      intro hmem
      obtain ⟨g, hg, ho⟩ := List.mem_map.mp hmem
      obtain ⟨i, hi⟩ := List.mem_iff_getElem?.mp hg
      have hsome := (hindexed ordinal i).mpr (by rw [hi, Option.map_some, ho])
      rw [hfound] at hsome
      cases hsome
    -- Nothing of a group without a row has finished, and the snapshot does not have it.
    have hrow : emptyRow "" ordinal [] = groupRow groups l ordinal := by
      rw [hordinals, not_or] at hnew
      have hnone : groups.find? (fun g => g.ordinal = ordinal) = none := by
        rw [List.find?_eq_none]
        intro g hg ho
        exact hnew.1 (List.mem_map.mpr ⟨g, hg, of_decide_eq_true ho⟩)
      simp [emptyRow, groupRow, groupName, groupLabels, hnone,
        Ledger.outcomes_eq_nil_of_notMem hnew.2]
    refine ⟨_, _, rfl, hindexed.append hfound, fun o => ?_, fun g hg => ?_, ?_, rfl, rfl, rfl⟩
    · simp [emptyRow, or_comm]
    · rcases List.mem_append.mp hg with hg | hg
      · exact hrows g hg
      · rw [List.mem_singleton.mp hg]
        exact hrow
    · rw [List.getElem?_concat_length, hrow]

theorem Matches.length_entries {s : Session} {l : Ledger} (h : Matches groups s l) :
    s.entries.length = l.length := by
  apply le_antisymm
  · have := h.entries l.length
    rw [List.getElem?_eq_none le_rfl, Option.map_none, List.getElem?_eq_none_iff] at this
    exact this
  · have := h.entries s.entries.length
    rw [List.getElem?_eq_none le_rfl, eq_comm, Option.map_eq_none_iff,
      List.getElem?_eq_none_iff] at this
    exact this

/-- A new entry counts for nothing until it finishes. -/
theorem begin_matches {s : Session} {l : Ledger} (h : Matches groups s l) (req : Request) :
    Matches groups (call s (.begin req)).2 (l.call (.begin req)).2 := by
  have hlength := h.length_entries
  have hfinished : Ledger.finishedOrdinals (l ++ [(req, none)]) = l.finishedOrdinals := by
    simp [Ledger.finishedOrdinals]
  simp only [call, Ledger.call]
  refine ⟨fun i => ?_, ?_, h.indexed, fun ordinal => ?_, fun g hg => ?_, fun i => ?_, ?_⟩
  · rcases lt_trichotomy i l.length with hlt | rfl | hgt
    · rw [List.getElem?_append_left (hlength ▸ hlt), List.getElem?_append_left hlt, h.entries]
    · rw [List.getElem?_concat_length, ← hlength, List.getElem?_concat_length, h.begun, hlength]
      rfl
    · rw [List.getElem?_eq_none (by simp; omega), List.getElem?_eq_none (by simp; omega)]
      rfl
  · simp [h.begun]
  · rw [hfinished]
    exact h.ordinals ordinal
  · have houtcomes : Ledger.outcomes (l ++ [(req, none)]) g.ordinal = l.outcomes g.ordinal := by
      simp [Ledger.outcomes]
    unfold groupRow
    rw [houtcomes]
    exact h.rows g hg
  · rw [h.slots i, List.take_append]
    rcases Nat.lt_or_ge i (l.take maxRequests).length with hlt | hge
    · rw [List.getElem?_append_left hlt]
    · rw [List.getElem?_append_right hge, List.getElem?_eq_none hge]
      cases hnew : (([(req, none)] : Ledger).take (maxRequests - l.length))[
          i - (l.take maxRequests).length]? with
      | none => rfl
      | some p =>
        have hp := List.mem_of_mem_take (List.mem_of_getElem? hnew)
        rw [List.mem_singleton.mp hp]
        rfl
  · rw [List.drop_append, List.filterMap_append, List.length_append, h.truncated]
    have hnone : ∀ n, (([(req, none)] : Ledger).drop n).filterMap Prod.snd = [] := by
      intro n
      rw [List.filterMap_eq_nil_iff]
      intro p hp
      rw [List.mem_singleton.mp (List.mem_of_mem_drop hp)]
    rw [hnone]
    rfl

/-- The row of the group has the outcome added, and the other rows owe nothing to it. -/
theorem rows_settle {rows : List GroupStats} {byOrdinal : Int → Option Nat}
    (hindexed : Indexed rows byOrdinal) {l : Ledger} {i : Nat} {req : Request}
    (hl : l[i]? = some (req, none)) (o : Outcome)
    (hrows : ∀ g ∈ rows, g = groupRow groups l g.ordinal) {n : Nat}
    (hn : rows[n]? = some (groupRow groups l req.groupOrdinal)) :
    ∀ g ∈ rows.set n ((groupRow groups l req.groupOrdinal).add o),
      g = groupRow groups (l.set i (req, some o)) g.ordinal := by
  intro g hg
  obtain ⟨m, hm⟩ := List.mem_iff_getElem?.mp hg
  by_cases hmn : m = n
  · rw [hmn, List.getElem?_set_self (List.getElem?_eq_some_iff.mp hn).1] at hm
    rw [← Option.some.inj hm, ← groupRow_settle groups hl]
    rfl
  · rw [List.getElem?_set_ne (Ne.symm hmn)] at hm
    have hne : g.ordinal ≠ req.groupOrdinal := by
      intro heq
      have hm' := (hindexed g.ordinal m).mpr (by rw [hm]; rfl)
      have hn' := (hindexed req.groupOrdinal n).mpr (by rw [hn]; rfl)
      rw [heq, hn'] at hm'
      exact hmn (Option.some.inj hm').symm
    rw [groupRow_settle_other groups hl hne]
    exact hrows g (List.mem_of_getElem? hm)

/-- The slot of a request among the first hundred takes its outcome. -/
theorem slots_settle {slots : List (Option RequestStats)} {l : Ledger} {i : Nat} {req : Request}
    (hl : l[i]? = some (req, none)) (o : Outcome) (hi : i < maxRequests)
    (hslots : ∀ j : Nat, slots[j]?.join = (l.take maxRequests)[j]?.bind (ledgerStats groups))
    (j : Nat) :
    ((slots ++ List.replicate (i + 1 - slots.length) none).set i
        (some (requestStats (groupName groups req.groupOrdinal) req o)))[j]?.join =
      ((l.set i (req, some o)).take maxRequests)[j]?.bind (ledgerStats groups) := by
  have hlt : i < l.length := (List.getElem?_eq_some_iff.mp hl).1
  rcases eq_or_ne j i with rfl | hne
  · rw [List.getElem?_set_self (by simp; omega), List.getElem?_take_of_lt hi,
      List.getElem?_set_self hlt]
    rfl
  · rw [List.getElem?_set_ne hne.symm, join_getElem?_append_replicate, hslots j]
    by_cases hj : j < maxRequests
    · rw [List.getElem?_take_of_lt hj, List.getElem?_take_of_lt hj, List.getElem?_set_ne hne.symm]
    · rw [List.getElem?_take_eq_none (Nat.le_of_not_lt hj),
        List.getElem?_take_eq_none (Nat.le_of_not_lt hj)]

/-- Settling an entry of the ledger, and adding its outcome to the row of its group. -/
theorem finish_matches {s : Session} {l : Ledger} (h : Matches groups s l) {i : Nat} {req : Request}
    (hl : l[i]? = some (req, none)) (o : Outcome) :
    Matches groups
      ⟨(⟨i, req, false⟩ : Entry).finish o s.recorder, s.entries.set i ⟨i, req, true⟩⟩
      (l.set i (req, some o)) := by
  have hlt : i < l.length := (List.getElem?_eq_some_iff.mp hl).1
  obtain ⟨n, r, hgroup, hindexed, hordinals, hrows, hn, hrequests, htruncated, hbegun⟩ :=
    group_spec groups h.indexed h.ordinals h.rows req.groupOrdinal
  have hentries : ∀ j : Nat, (s.entries.set i ⟨i, req, true⟩)[j]? =
      (l.set i (req, some o))[j]?.map fun p => ⟨j, p.1, p.2.isSome⟩ := by
    intro j
    rcases eq_or_ne j i with rfl | hne
    · rw [List.getElem?_set_self (h.length_entries ▸ hlt), List.getElem?_set_self hlt]
      rfl
    · rw [List.getElem?_set_ne hne.symm, List.getElem?_set_ne hne.symm, h.entries j]
  have hordinals_set : (r.groups.set n ((groupRow groups l req.groupOrdinal).add o)).map
      GroupStats.ordinal = r.groups.map GroupStats.ordinal := by
    obtain ⟨hlt, heq⟩ := List.getElem?_eq_some_iff.mp hn
    have hlt' : n < (r.groups.map GroupStats.ordinal).length := by rwa [List.length_map]
    have hkept : ((groupRow groups l req.groupOrdinal).add o).ordinal =
        (r.groups.map GroupStats.ordinal)[n] := by
      rw [List.getElem_map, heq]
      rfl
    rw [List.map_set, hkept, List.set_getElem_self]
  have hindexed_set : Indexed
      (r.groups.set n ((groupRow groups l req.groupOrdinal).add o)) r.byOrdinal := by
    intro ordinal m
    rw [← List.getElem?_map, hordinals_set, List.getElem?_map]
    exact hindexed ordinal m
  have hmem : ∀ ordinal, ordinal ∈ (r.groups.set n
      ((groupRow groups l req.groupOrdinal).add o)).map GroupStats.ordinal ↔
        ordinal ∈ groups.map Group.ordinal ∨
          ordinal ∈ Ledger.finishedOrdinals (l.set i (req, some o)) := by
    intro ordinal
    rw [hordinals_set, hordinals, h.ordinals, Ledger.mem_finishedOrdinals_settle hl]
    tauto
  have hrows_set := rows_settle groups hindexed hl o hrows hn
  unfold Entry.finish
  simp only [hgroup, hn]
  split
  · rename_i hge
    refine ⟨hentries, ?_, hindexed_set, hmem, hrows_set, fun j => ?_, ?_⟩
    · rw [List.length_set]
      exact hbegun.trans h.begun
    · rw [List.take_set_of_le hge]
      simp only [hrequests]
      exact h.slots j
    · have hl' : (l.drop maxRequests)[i - maxRequests]? = some (req, none) := by
        rw [List.getElem?_drop, Nat.add_sub_cancel' hge]
        exact hl
      have hperm := filterMap_set_perm (y := (req, some o)) hl' (f := Prod.snd) rfl rfl
      rw [List.drop_set, if_neg (Nat.not_lt_of_le hge), hperm.length_eq, List.length_cons]
      simp only [htruncated, h.truncated]
  · rename_i hlt'
    refine ⟨hentries, ?_, hindexed_set, hmem, hrows_set, fun j => ?_, ?_⟩
    · rw [List.length_set]
      exact hbegun.trans h.begun
    · simp only [hrequests]
      exact slots_settle groups hl o (Nat.lt_of_not_le hlt') h.slots j
    · rw [List.drop_set_of_lt (Nat.lt_of_not_le hlt')]
      exact htruncated.trans h.truncated

theorem call_matches {s : Session} {l : Ledger} (h : Matches groups s l) (c : Call) :
    Matches groups (call s c).2 (l.call c).2 := by
  cases c with
  | begin req => exact begin_matches groups h req
  | finish i o =>
    simp only [call, Ledger.call, h.entries i]
    cases hl : l[i]? with
    | none => simpa using h
    | some p =>
      obtain ⟨req, out⟩ := p
      cases out with
      | some o' => simpa using h
      | none => exact finish_matches groups h hl o

omit groups in
theorem find?_ordinal_of_nodup {groups : List Group} (hdistinct : (groups.map Group.ordinal).Nodup)
    {g : Group} (hg : g ∈ groups) :
    groups.find? (fun g' => g'.ordinal = g.ordinal) = some g := by
  cases hfound : groups.find? (fun g' => g'.ordinal = g.ordinal) with
  | none =>
    rw [List.find?_eq_none] at hfound
    exact absurd (hfound g hg) (by simp)
  | some g' =>
    have heq : g'.ordinal = g.ordinal := by simpa using List.find?_some hfound
    rw [List.inj_on_of_nodup_map hdistinct (List.mem_of_find?_eq_some hfound) hg heq]

/-- The snapshot: an empty row for each group. -/
theorem newRecorder_matches (hdistinct : (groups.map Group.ordinal).Nodup) :
    Matches groups ⟨newRecorder groups, []⟩ [] := by
  have hperm : ((newRecorder groups).groups.map GroupStats.ordinal).Perm
      (groups.map Group.ordinal) := by
    have := (sortBy_perm GroupStats.ordinal
      (groups.map fun g => emptyRow g.name g.ordinal (g.labels.getD []))).map GroupStats.ordinal
    rw [List.map_map] at this
    exact this
  refine ⟨fun i => rfl, rfl, ?_, fun ordinal => ?_, fun row hrow => ?_, fun i => by simp [newRecorder],
    rfl⟩
  · have hempty : Indexed [] fun _ => none := by
      intro ordinal i
      simp
    exact indexed_indexRows hempty (hperm.nodup_iff.mpr hdistinct)
  · rw [hperm.mem_iff]
    simp [Ledger.finishedOrdinals]
  · have hmem : row ∈ groups.map fun g => emptyRow g.name g.ordinal (g.labels.getD []) :=
      mem_sortBy.mp hrow
    obtain ⟨g, hg, rfl⟩ := List.mem_map.mp hmem
    have hrow' : groupRow groups [] g.ordinal = emptyRow g.name g.ordinal (g.labels.getD []) := by
      unfold groupRow groupName groupLabels
      rw [find?_ordinal_of_nodup hdistinct hg]
      rfl
    exact hrow'.symm

theorem record_matches (hdistinct : (groups.map Group.ordinal).Nodup) (calls : List Call) :
    Matches groups (final call ⟨newRecorder groups, []⟩ calls) (ledger calls) := by
  have hstep : Simulates call Ledger.call (Matches groups) := by
    intro s l c h
    exact ⟨rfl, call_matches groups h c⟩
  exact hstep.final (newRecorder_matches groups hdistinct) calls

/-- The request of a call of `Begin`. -/
def Call.request? : Call → Option Request
  | .begin req => some req
  | .finish _ _ => none

/-- The arguments of a call of `Finish` on the entry. -/
def Call.outcome? (i : Nat) : Call → Option Outcome
  | .begin _ => none
  | .finish j o => if j = i then some o else none

/-- An entry is finished after it has begun. -/
def Legal (calls : List Call) : Prop :=
  ∀ before i o after, calls = before ++ .finish i o :: after →
    i < (before.filterMap Call.request?).length

theorem Legal.of_append {calls rest : List Call} (h : Legal (calls ++ rest)) : Legal calls := by
  intro before i o after heq
  refine h before i o (after ++ rest) ?_
  rw [heq, List.append_assoc, List.cons_append]

theorem Legal.lt_of_outcome {calls : List Call} (h : Legal calls) {i : Nat} {o : Outcome}
    (ho : o ∈ calls.filterMap (Call.outcome? i)) : i < (calls.filterMap Call.request?).length := by
  obtain ⟨c, hc, hout⟩ := List.mem_filterMap.mp ho
  obtain ⟨before, after, hsplit⟩ := List.append_of_mem hc
  cases c with
  | begin req => cases hout
  | finish j o' =>
    simp only [Call.outcome?, Option.ite_none_right_eq_some] at hout
    have hlt := h before j o' after hsplit
    rw [hsplit, List.filterMap_append, List.length_append]
    omega

theorem ledger_append (calls : List Call) (c : Call) :
    ledger (calls ++ [c]) = (Ledger.call (ledger calls) c).2 := by
  unfold ledger
  rw [final_append]
  rfl

theorem map_fst_ledger (calls : List Call) :
    (ledger calls).map Prod.fst = calls.filterMap Call.request? := by
  induction calls using List.reverseRecOn with
  | nil => rfl
  | append_singleton calls c ih =>
    rw [ledger_append, List.filterMap_append, ← ih]
    cases c with
    | begin req => simp [Ledger.call, Call.request?]
    | finish i o =>
      simp only [Ledger.call, Call.request?, List.filterMap_cons, List.filterMap_nil,
        List.append_nil]
      split
      · rename_i req hl
        obtain ⟨hlt, heq⟩ := List.getElem?_eq_some_iff.mp hl
        have hlt' : i < ((ledger calls).map Prod.fst).length := by rwa [List.length_map]
        have hkept : req = ((ledger calls).map Prod.fst)[i] := by rw [List.getElem_map, heq]
        rw [List.map_set, hkept, List.set_getElem_self]
      · rfl

theorem finish_getElem?_of_ne (l : Ledger) {i j : Nat} (o : Outcome) (hij : j ≠ i) :
    (Ledger.call l (.finish j o)).2[i]? = l[i]? := by
  simp only [Ledger.call]
  split
  · exact List.getElem?_set_ne hij
  · rfl

/-- Each request that has begun, in that order, with the arguments of its first `Finish`. -/
theorem ledger_getElem? {calls : List Call} (h : Legal calls) (i : Nat) :
    (ledger calls)[i]? = (calls.filterMap Call.request?)[i]?.map fun req =>
      (req, (calls.filterMap (Call.outcome? i)).head?) := by
  induction calls using List.reverseRecOn with
  | nil => rfl
  | append_singleton calls c ih =>
    have hih := ih h.of_append
    have hlength := congrArg List.length (map_fst_ledger calls)
    rw [List.length_map] at hlength
    rw [ledger_append, List.filterMap_append, List.filterMap_append]
    cases c with
    | begin req =>
      simp only [Ledger.call, Call.request?, Call.outcome?, List.filterMap_cons, List.filterMap_nil,
        List.append_nil]
      rcases lt_trichotomy i (ledger calls).length with hlt | rfl | hgt
      · rw [List.getElem?_append_left hlt, List.getElem?_append_left (hlength ▸ hlt), hih]
      · have hnone : calls.filterMap (Call.outcome? (ledger calls).length) = [] := by
          rw [List.eq_nil_iff_forall_not_mem]
          intro o ho
          exact absurd (h.of_append.lt_of_outcome ho) (by omega)
        rw [hnone, List.getElem?_concat_length, hlength, List.getElem?_concat_length]
        rfl
      · rw [List.getElem?_eq_none (by simp; omega), List.getElem?_eq_none (by simp; omega)]
        rfl
    | finish j o =>
      simp only [Ledger.call, Call.request?, List.filterMap_cons, List.filterMap_nil,
        List.append_nil]
      by_cases hij : j = i
      · subst hij
        cases hl : (ledger calls)[j]? with
        | none =>
          rw [hl, eq_comm, Option.map_eq_none_iff] at hih
          simp [hl, hih]
        | some p =>
          obtain ⟨req, out⟩ := p
          rw [hl, eq_comm, Option.map_eq_some_iff] at hih
          obtain ⟨req', hreq, hpair⟩ := hih
          obtain ⟨rfl, rfl⟩ := Prod.mk.inj hpair
          cases hhead : (calls.filterMap (Call.outcome? j)).head? with
          | none =>
            have hlt : j < (ledger calls).length := (List.getElem?_eq_some_iff.mp hl).1
            simp only [hreq]
            rw [List.getElem?_set_self hlt, List.head?_append, hhead]
            simp [Call.outcome?]
          | some o' =>
            simp only [hreq]
            rw [hl, List.head?_append, hhead]
            rfl
      · have hkept := finish_getElem?_of_ne (ledger calls) o hij
        simp only [Ledger.call] at hkept
        simp only [Call.outcome?, if_neg hij, List.append_nil, ← hih]
        exact hkept

end Querystats
end Proxeus
