import Proxeus.Lib.Contest
import Proxeus.Promclient.CrossGroupDedup

/-!
# Promclient.CrossGroupDedupSpec

What the dedup does, whatever the order of the sets. The buckets of the source are the groups of
the series under their reduced labels (`dedupSeries_concrete`): a `Slot` is what a bucket and its
place in the result hold together. `SlotSpec` says what a slot has become of the series of its
bucket: the winner is the first series of the lowest ordinal, and everybody else has lost to the
one that is the winner in the end.

`winner` and `attributed` are the result stated without the loop, for sets taken in the order of
their ordinals; `dedupSeriesSetsFillGaps_spec` relates the two for every permutation of the sets.
-/

namespace Proxeus
namespace Promclient

open Lib Promhttputil

/-- A series under the ordinal of its set. -/
abbrev Tagged := Int × Series

/-- All series, in the order they are read. -/
def tagged (sets : List OrdinalSeriesSet) : List Tagged :=
  sets.flatMap fun set => set.ss.series.map fun s => (set.ordinal, s)

theorem tagged_cons (set : OrdinalSeriesSet) (sets : List OrdinalSeriesSet) :
    tagged (set :: sets) = (set.ss.series.map fun s => (set.ordinal, s)) ++ tagged sets :=
  List.flatMap_cons

theorem tagged_perm {sets sets' : List OrdinalSeriesSet} (h : sets.Perm sets') :
    (tagged sets).Perm (tagged sets') := h.flatMap_right _

/-! ## Slots -/

/-- A bucket together with its series in the result. -/
structure Slot where
  lbls : Labels
  ordinal : Int
  losers : List Int
  members : List DedupBucketMember
  series : Series

def Slot.entry (b : Slot) (idx : Nat) : DedupEntry := ⟨b.lbls, b.ordinal, idx, b.losers, b.members⟩

def memberOf (fillGaps : Bool) (x : Tagged) : List DedupBucketMember :=
  if fillGaps then [⟨x.1, x.2⟩] else []

def newSlot (fillGaps : Bool) (x : Tagged) : Slot :=
  ⟨x.2.labels, x.1, [], memberOf fillGaps x, x.2⟩

def addSlot (fillGaps : Bool) (b : Slot) (x : Tagged) : Slot :=
  if b.lbls = x.2.labels then b
  else if x.1 < b.ordinal then
    ⟨x.2.labels, x.1, b.losers ++ [b.ordinal], b.members ++ memberOf fillGaps x, x.2⟩
  else { b with losers := b.losers ++ [x.1], members := b.members ++ memberOf fillGaps x }

section

variable {Key : Type*}

/-- The buckets of a list of slots whose first one has the index `n`. -/
def entriesFrom : Nat → List (Key × Slot) → List (Key × DedupEntry)
  | _, [] => []
  | n, (k, b) :: slots => (k, b.entry n) :: entriesFrom (n + 1) slots

/-- The state that a list of slots stands for. -/
def concrete (slots : List (Key × Slot)) : DedupState Key :=
  ⟨entriesFrom 0 slots, slots.map fun p => p.2.series⟩

theorem entriesFrom_append (n : Nat) (slots slots' : List (Key × Slot)) :
    entriesFrom n (slots ++ slots') =
      entriesFrom n slots ++ entriesFrom (n + slots.length) slots' := by
  induction slots generalizing n with
  | nil => rfl
  | cons p slots ih =>
    rw [List.cons_append, entriesFrom, entriesFrom, ih, List.length_cons, List.cons_append,
      Nat.add_right_comm, Nat.add_assoc]

theorem map_fst_entriesFrom (n : Nat) (slots : List (Key × Slot)) :
    (entriesFrom n slots).map Prod.fst = slots.map Prod.fst := by
  induction slots generalizing n with
  | nil => rfl
  | cons p slots ih => rw [entriesFrom, List.map_cons, List.map_cons, ih]

variable [DecidableEq Key]

theorem find?_entriesFrom {n : Nat} {slots : List (Key × Slot)} {k : Key}
    (h : k ∉ slots.map Prod.fst) : (entriesFrom n slots).find? (fun p => p.1 = k) = none := by
  rw [List.find?_eq_none]
  intro p hp hk
  rw [← map_fst_entriesFrom n] at h
  exact h (of_decide_eq_true hk ▸ List.mem_map_of_mem hp)

theorem map_entriesFrom {n : Nat} {slots : List (Key × Slot)} {k : Key} (e : DedupEntry)
    (h : k ∉ slots.map Prod.fst) :
    (entriesFrom n slots).map (fun p => if p.1 = k then (p.1, e) else p) = entriesFrom n slots := by
  rw [← map_fst_entriesFrom n] at h
  refine (List.map_congr_left fun p hp => ?_).trans (List.map_id _)
  rw [if_neg]
  · rfl
  · rintro rfl
    exact h (List.mem_map_of_mem hp)

variable {bytesWithoutLabels : Labels → List String → Key}

/-- A turn of the inner loop folds the series into its slot. -/
theorem dedupSeries_concrete (ignore : List String) (fillGaps : Bool) {slots : List (Key × Slot)}
    (hn : (slots.map Prod.fst).Nodup) (x : Tagged) :
    dedupSeries bytesWithoutLabels ignore fillGaps (concrete slots) x.1 x.2 =
      concrete (insertWith (fun x : Tagged => bytesWithoutLabels x.2.labels ignore)
        (newSlot fillGaps) (addSlot fillGaps) x slots) := by
  by_cases h : bytesWithoutLabels x.2.labels ignore ∈ slots.map Prod.fst
  · obtain ⟨pre, b, post, rfl, hpre⟩ := exists_slot h
    have hpost : bytesWithoutLabels x.2.labels ignore ∉ post.map Prod.fst := by
      rw [List.map_append, List.map_cons, List.nodup_append, List.nodup_cons] at hn
      exact hn.2.1.1
    rw [insertWith_append (by exact hpre)]
    have hset : ∀ s, (pre.map (fun p => p.2.series) ++
        b.series :: post.map fun p => p.2.series).set pre.length s =
        pre.map (fun p => p.2.series) ++ s :: post.map fun p => p.2.series := by
      intro s
      rw [List.set_append_right _ _ (by simp)]
      simp
    simp only [dedupSeries, concrete, entriesFrom_append, entriesFrom, List.find?_append,
      find?_entriesFrom hpre, List.find?_cons_of_pos, decide_true, Option.none_or, Nat.zero_add,
      List.map_append, List.map_cons, map_entriesFrom _ hpre, map_entriesFrom _ hpost, if_true]
    by_cases heq : b.lbls = x.2.labels
    · simp [addSlot, Slot.entry, heq]
    · by_cases hlt : x.1 < b.ordinal
      · simp only [addSlot, Slot.entry, heq, hlt, if_true, if_false, memberOf, hset]
      · simp only [addSlot, Slot.entry, heq, hlt, if_false, memberOf]
  · have hfind := find?_entriesFrom (n := 0) h
    rw [insertWith_of_notMem (by exact h)]
    simp only [dedupSeries, concrete, hfind, entriesFrom_append, entriesFrom, List.map_append,
      List.map_cons, List.map_nil, List.length_map, Nat.zero_add, newSlot, Slot.entry, memberOf]

/-- Without errors, the loop over the sets arrives at the groups of all series. -/
theorem dedupSets_eq (ignore : List String) (fillGaps : Bool) {sets : List OrdinalSeriesSet}
    (herr : ∀ set ∈ sets, set.ss.err = none) :
    dedupSets bytesWithoutLabels ignore fillGaps ⟨[], []⟩ sets =
      .ok (concrete (group (fun x : Tagged => bytesWithoutLabels x.2.labels ignore)
        (newSlot fillGaps) (addSlot fillGaps) (tagged sets))) := by
  -- the nested loops are one loop over the tagged series
  have hloop : ∀ (st : DedupState Key) (sets : List OrdinalSeriesSet),
      (∀ set ∈ sets, set.ss.err = none) →
      dedupSets bytesWithoutLabels ignore fillGaps st sets =
        .ok ((tagged sets).foldl
          (fun st x => dedupSeries bytesWithoutLabels ignore fillGaps st x.1 x.2) st) := by
    intro st sets herr
    induction sets generalizing st with
    | nil => rfl
    | cons set sets ih =>
      rw [dedupSets, herr set List.mem_cons_self]
      simp only []
      rw [ih _ fun set' h => herr set' (List.mem_cons_of_mem _ h), tagged_cons,
        List.foldl_append, List.foldl_map]
  have hfold : ∀ items : List Tagged,
      items.foldl (fun st x => dedupSeries bytesWithoutLabels ignore fillGaps st x.1 x.2) ⟨[], []⟩ =
        concrete (group (fun x : Tagged => bytesWithoutLabels x.2.labels ignore)
          (newSlot fillGaps) (addSlot fillGaps) items) := by
    intro items
    induction items using List.reverseRecOn with
    | nil => rfl
    | append_singleton items x ih =>
      rw [List.foldl_concat, ih, group_concat, dedupSeries_concrete ignore fillGaps (nodup_group _)]
  rw [hloop _ _ herr, hfold]

end

/-! ## What a slot holds -/

/-- `v` is the first of the lowest ordinal in `items`. -/
structure First (items : List Tagged) (v : Tagged) : Prop where
  lowest : ∀ x ∈ items, v.1 ≤ x.1
  first : items.find? (fun x => x.1 = v.1) = some v

theorem First.mem {items : List Tagged} {v : Tagged} (h : First items v) : v ∈ items :=
  List.mem_of_find?_eq_some h.first

/-- The slot of a bucket with the series `items`, won by `v` against `lost`. -/
structure SlotSpec (fillGaps : Bool) (items : List Tagged) (b : Slot) (v : Tagged)
    (lost : List Tagged) : Prop where
  winner : First items v
  lbls : b.lbls = v.2.labels
  ordinal : b.ordinal = v.1
  series : b.series = v.2
  losers : b.losers = lost.map Prod.fst
  perm : (v :: lost).Perm items
  members : b.members = items.flatMap (memberOf fillGaps)

theorem foldSlot_spec (fillGaps : Bool) {items : List Tagged}
    (hn : (items.map fun x => x.2.labels).Nodup) {b : Slot}
    (h : foldSlot (newSlot fillGaps) (addSlot fillGaps) items = some b) :
    ∃ v lost, SlotSpec fillGaps items b v lost := by
  induction items using List.reverseRecOn generalizing b with
  | nil => cases h
  | append_singleton items x ih =>
    rw [foldSlot_concat, Option.some.injEq] at h
    cases hprev : foldSlot (newSlot fillGaps) (addSlot fillGaps) items with
    | none =>
      have hnil : items = [] := by
        cases items with
        | nil => rfl
        | cons y items => cases hprev
      subst hnil
      rw [hprev] at h
      subst h
      exact ⟨x, [], ⟨fun y hy => by rw [List.mem_singleton.mp hy], by simp⟩, rfl, rfl, rfl, rfl,
        List.Perm.refl _, by simp [newSlot]⟩
    | some b' =>
      rw [hprev] at h
      simp only at h
      rw [List.map_append, List.nodup_append] at hn
      obtain ⟨v, lost, hspec⟩ := ih hn.1 hprev
      have hne : b'.lbls ≠ x.2.labels := by
        rw [hspec.lbls]
        exact hn.2.2 _ (List.mem_map_of_mem hspec.winner.mem) _ (by simp)
      have hmembers : (items ++ [x]).flatMap (memberOf fillGaps) =
          b'.members ++ memberOf fillGaps x := by
        rw [List.flatMap_append, hspec.members, List.flatMap_singleton]
      by_cases hlt : x.1 < b'.ordinal
      · -- `x` takes over, and the winner so far has lost
        rw [addSlot, if_neg hne, if_pos hlt] at h
        subst h
        rw [hspec.ordinal] at hlt
        refine ⟨x, lost ++ [v], ⟨?_, ?_⟩, rfl, rfl, rfl, ?_, ?_, hmembers.symm⟩
        · intro y hy
          rcases List.mem_append.mp hy with hy | hy
          · exact (hlt.trans_le (hspec.winner.lowest y hy)).le
          · rw [List.mem_singleton.mp hy]
        · have hnone : items.find? (fun y => y.1 = x.1) = none := by
            rw [List.find?_eq_none]
            intro y hy heq
            have := hspec.winner.lowest y hy
            rw [decide_eq_true_eq] at heq
            omega
          rw [List.find?_append, hnone]
          simp
        · rw [List.map_append, hspec.losers, hspec.ordinal]
          rfl
        · have hperm : (lost ++ [v]).Perm items := List.perm_append_comm.trans hspec.perm
          exact (@List.perm_append_comm _ [x] _).trans (hperm.append_right [x])
      · rw [addSlot, if_neg hne, if_neg hlt] at h
        subst h
        rw [hspec.ordinal] at hlt
        refine ⟨v, lost ++ [x], ⟨?_, ?_⟩, hspec.lbls, hspec.ordinal, hspec.series, ?_, ?_,
          hmembers.symm⟩
        · intro y hy
          rcases List.mem_append.mp hy with hy | hy
          · exact hspec.winner.lowest y hy
          · rw [List.mem_singleton.mp hy]
            omega
        · rw [List.find?_append, hspec.winner.first]
          rfl
        · rw [List.map_append, hspec.losers]
          rfl
        · exact hspec.perm.append_right [x]

/-! ## The winners, by ordinal -/

/-- The labels a bucket is made of. -/
def reduced (ignore : List String) (s : Series) : Labels := s.labels.del ignore

/-- The sets in the order of their ordinals. -/
def byOrdinal (sets : List OrdinalSeriesSet) : List OrdinalSeriesSet :=
  sortBy OrdinalSeriesSet.ordinal sets

/-- The first series with the reduced labels `lbls` in the set of the lowest ordinal that has any. -/
def winner (ignore : List String) (sets : List OrdinalSeriesSet) (lbls : Labels) : Option Tagged :=
  (tagged (byOrdinal sets)).find? fun x => reduced ignore x.2 = lbls

/-- A series that is not the winner of its bucket, the winner having the ordinal `w`. -/
def losesTo (ignore : List String) (sets : List OrdinalSeriesSet) (w : Int) (x : Tagged) : Bool :=
  (winner ignore sets (reduced ignore x.2)).any fun v => v.1 = w && v ≠ x

def loses (ignore : List String) (sets : List OrdinalSeriesSet) (x : Tagged) : Bool :=
  (winner ignore sets (reduced ignore x.2)).any fun v => v ≠ x

/-- Every loser counted against the winner of its bucket. -/
def attributed (ignore : List String) (sets : List OrdinalSeriesSet) : DedupStats where
  collisions := (tagged sets).countP (loses ignore sets)
  pairs p := (tagged sets).countP fun x => x.1 = p.2 && losesTo ignore sets p.1 x

section

variable {sets sets' : List OrdinalSeriesSet}

theorem byOrdinal_perm (hord : (sets.map OrdinalSeriesSet.ordinal).Nodup) (h : sets.Perm sets') :
    byOrdinal sets = byOrdinal sets' := sortBy_congr_perm hord h

theorem winner_perm (hord : (sets.map OrdinalSeriesSet.ordinal).Nodup) (h : sets.Perm sets')
    (ignore : List String) : winner ignore sets = winner ignore sets' := by
  funext lbls
  rw [winner, winner, byOrdinal_perm hord h]

theorem attributed_perm (hord : (sets.map OrdinalSeriesSet.ordinal).Nodup)
    (h : sets.Perm sets') (ignore : List String) :
    attributed ignore sets = attributed ignore sets' := by
  have hw := winner_perm hord h ignore
  have hloses : loses ignore sets = loses ignore sets' := by
    funext x
    rw [loses, loses, hw]
  have hlosesTo : losesTo ignore sets = losesTo ignore sets' := by
    funext w x
    rw [losesTo, losesTo, hw]
  rw [attributed, attributed, hloses, hlosesTo, (tagged_perm h).countP_eq]
  congr 1
  funext p
  exact (tagged_perm h).countP_eq _

/-- The series of one ordinal are those of one set, wherever it stands. -/
theorem filter_ordinal_perm (hord : (sets.map OrdinalSeriesSet.ordinal).Nodup)
    (h : sets.Perm sets') (o : Int) :
    (tagged sets).filter (fun x => x.1 = o) = (tagged sets').filter fun x => x.1 = o :=
  filter_blocks_perm hord h o

theorem pairwise_tagged (h : sets.Pairwise fun a b => a.ordinal ≤ b.ordinal) :
    (tagged sets).Pairwise fun x y => x.1 ≤ y.1 := by
  rw [tagged, List.pairwise_flatMap]
  refine ⟨fun set _ => ?_, h.imp fun {a b} hab x hx y hy => ?_⟩
  · rw [List.pairwise_map]
    exact List.pairwise_of_forall fun _ _ => le_rfl
  · obtain ⟨s, _, rfl⟩ := List.mem_map.mp hx
    obtain ⟨s', _, rfl⟩ := List.mem_map.mp hy
    exact hab

/-- The first of the lowest ordinal is the first when the sets are read by ordinal. -/
theorem First.find?_byOrdinal (hord : (sets.map OrdinalSeriesSet.ordinal).Nodup)
    {p : Tagged → Bool} {v : Tagged} (h : First ((tagged sets).filter p) v) :
    (tagged (byOrdinal sets)).find? p = some v := by
  have hperm : (byOrdinal sets).Perm sets := sortBy_perm _ _
  obtain ⟨hv, hpv⟩ := List.mem_filter.mp h.mem
  cases hw : (tagged (byOrdinal sets)).find? p with
  | none => exact absurd hpv (List.find?_eq_none.mp hw v ((tagged_perm hperm).mem_iff.mpr hv))
  | some w =>
    obtain ⟨hpw, before, after, hsplit, hbefore⟩ := List.find?_eq_some_iff_append.mp hw
    have hwmem : w ∈ tagged sets := (tagged_perm hperm).mem_iff.mp (List.mem_of_find?_eq_some hw)
    have hle : v.1 ≤ w.1 := h.lowest w (List.mem_filter.mpr ⟨hwmem, hpw⟩)
    have hge : w.1 ≤ v.1 := by
      have hsorted := pairwise_tagged (sortBy_pairwise OrdinalSeriesSet.ordinal sets)
      have hvmem : v ∈ tagged (byOrdinal sets) := (tagged_perm hperm).mem_iff.mpr hv
      have hsorted' : (tagged (byOrdinal sets)).Pairwise fun x y => x.1 ≤ y.1 := hsorted
      rw [hsplit, List.pairwise_append, List.pairwise_cons] at hsorted'
      rw [hsplit, List.mem_append, List.mem_cons] at hvmem
      rcases hvmem with hvmem | rfl | hvmem
      · have := hbefore v hvmem
        simp [hpv] at this
      · exact le_rfl
      · exact hsorted'.2.1.1 v hvmem
    have heq : w.1 = v.1 := le_antisymm hge hle
    have hfirst : ((tagged (byOrdinal sets)).filter fun x => x.1 = v.1).find? p = some w := by
      have hnone : (before.filter fun x => x.1 = v.1).find? p = none := by
        rw [List.find?_eq_none]
        intro x hx
        simpa using hbefore x (List.mem_filter.mp hx).1
      rw [hsplit, List.filter_append, List.find?_append, hnone, Option.none_or,
        List.filter_cons_of_pos (by simpa using heq), List.find?_cons_of_pos hpw]
    have hfirst' : ((tagged sets).filter fun x => x.1 = v.1).find? p = some v := by
      rw [← List.head?_filter, List.filter_comm, List.head?_filter]
      exact h.first
    rw [filter_ordinal_perm hord hperm.symm, hfirst, Option.some.injEq] at hfirst'
    rw [hfirst']

end

/-! ## Buckets and winners -/

/-- `labels.Labels.BytesWithoutLabels` on names in ascending order: an encoding of the labels
without the ones named. -/
def EncodesWithout {Key : Type*} (bytesWithoutLabels : Labels → List String → Key) : Prop :=
  ∀ names : List String, names.Pairwise (· ≤ ·) → ∀ l l' : Labels,
    bytesWithoutLabels l names = bytesWithoutLabels l' names ↔ l.del names = l'.del names

/-- What the result is stated for: sets of distinct ordinals that have been read to their end, in
which no two series have the same labels. -/
structure Distinct (sets : List OrdinalSeriesSet) : Prop where
  ordinals : (sets.map OrdinalSeriesSet.ordinal).Nodup
  err : ∀ set ∈ sets, set.ss.err = none
  labels : ((tagged sets).map fun x => x.2.labels).Nodup

theorem Distinct.perm {sets sets' : List OrdinalSeriesSet} (h : Distinct sets)
    (hp : sets.Perm sets') : Distinct sets' where
  ordinals := (hp.map _).nodup_iff.mp h.ordinals
  err := fun set hset => h.err set (hp.mem_iff.mpr hset)
  labels := ((tagged_perm hp).map _).nodup_iff.mp h.labels

section

variable {Key : Type*} [DecidableEq Key] {bytesWithoutLabels : Labels → List String → Key}
  {sets : List OrdinalSeriesSet} {ignore : List String}

/-- The slots the sets are grouped into. -/
def slots (bytesWithoutLabels : Labels → List String → Key) (ignore : List String)
    (fillGaps : Bool) (sets : List OrdinalSeriesSet) : List (Key × Slot) :=
  group (fun x : Tagged => bytesWithoutLabels x.2.labels ignore) (newSlot fillGaps)
    (addSlot fillGaps) (tagged sets)

/-- The bucket of a slot, and the winner as the reading by ordinal finds it. -/
theorem slot_spec (h : Distinct sets) (hsorted : ignore.Pairwise (· ≤ ·))
    (hbytes : EncodesWithout bytesWithoutLabels) {fillGaps : Bool} {k : Key} {b : Slot}
    (hb : (k, b) ∈ slots bytesWithoutLabels ignore fillGaps sets) :
    ∃ v lost,
      SlotSpec fillGaps
        ((tagged sets).filter fun x => bytesWithoutLabels x.2.labels ignore = k) b v lost ∧
      bytesWithoutLabels v.2.labels ignore = k ∧
      ∀ x : Tagged, bytesWithoutLabels x.2.labels ignore = k →
        winner ignore sets (reduced ignore x.2) = some v := by
  have hn : (((tagged sets).filter fun x => bytesWithoutLabels x.2.labels ignore = k).map
      fun x => x.2.labels).Nodup := h.labels.sublist (List.filter_sublist.map _)
  obtain ⟨v, lost, hspec⟩ := foldSlot_spec fillGaps hn (mem_group.mp hb)
  refine ⟨v, lost, hspec, of_decide_eq_true (List.mem_filter.mp hspec.winner.mem).2, ?_⟩
  rintro x rfl
  have hpred : (fun y : Tagged => decide (reduced ignore y.2 = reduced ignore x.2)) =
      fun y => decide (bytesWithoutLabels y.2.labels ignore =
        bytesWithoutLabels x.2.labels ignore) := by
    funext y
    rw [decide_eq_decide]
    exact (hbytes ignore hsorted _ _).symm
  rw [winner, hpred]
  exact hspec.winner.find?_byOrdinal h.ordinals

theorem mem_dedup (h : Distinct sets) (hsorted : ignore.Pairwise (· ≤ ·))
    (hbytes : EncodesWithout bytesWithoutLabels) {fillGaps : Bool} {s : Series} :
    s ∈ (slots bytesWithoutLabels ignore fillGaps sets).map (fun p => p.2.series) ↔
      ∃ lbls o, winner ignore sets lbls = some (o, s) := by
  constructor
  · intro hs
    obtain ⟨⟨k, b⟩, hb, rfl⟩ := List.mem_map.mp hs
    obtain ⟨v, lost, hspec, hv, hwin⟩ := slot_spec h hsorted hbytes hb
    exact ⟨reduced ignore v.2, v.1, by rw [hwin v hv, hspec.series]⟩
  · rintro ⟨lbls, o, hw⟩
    have hmem : (o, s) ∈ tagged sets :=
      (tagged_perm (sortBy_perm _ _)).mem_iff.mp (List.mem_of_find?_eq_some hw)
    have hred : reduced ignore s = lbls := by
      have hfind := hw
      rw [winner] at hfind
      simpa using List.find?_some hfind
    have hkey : bytesWithoutLabels s.labels ignore ∈
        (slots bytesWithoutLabels ignore fillGaps sets).map Prod.fst :=
      mem_keys_group.mpr ⟨(o, s), hmem, rfl⟩
    obtain ⟨⟨k, b⟩, hb, hk⟩ := List.mem_map.mp hkey
    obtain ⟨v, lost, hspec, -, hwin⟩ := slot_spec h hsorted hbytes hb
    have hv := hwin (o, s) hk.symm
    rw [hred, hw, Option.some.injEq] at hv
    exact List.mem_map.mpr ⟨(k, b), hb, by rw [hspec.series, ← hv]⟩

/-- The bucket has one emitted series, and the others are counted against its ordinal. -/
theorem countP_loses {fillGaps : Bool} {items lost : List Tagged} {b : Slot} {v : Tagged}
    (hspec : SlotSpec fillGaps items b v lost) (hn : items.Nodup)
    (hwin : ∀ x ∈ items, winner ignore sets (reduced ignore x.2) = some v) :
    items.countP (loses ignore sets) = b.losers.length ∧
      ∀ w l, items.countP (fun x => x.1 = l && losesTo ignore sets w x) =
        if w = b.ordinal then b.losers.count l else 0 := by
  have hn' : (v :: lost).Nodup := hspec.perm.nodup_iff.mpr hn
  rw [List.nodup_cons] at hn'
  have hwin' : ∀ x ∈ v :: lost, winner ignore sets (reduced ignore x.2) = some v :=
    fun x hx => hwin x (hspec.perm.mem_iff.mp hx)
  have hv := hwin' v List.mem_cons_self
  have hlost : ∀ x ∈ lost, winner ignore sets (reduced ignore x.2) = some v ∧ v ≠ x := by
    intro x hx
    refine ⟨hwin' x (List.mem_cons_of_mem _ hx), ?_⟩
    rintro rfl
    exact hn'.1 hx
  constructor
  · have hall : lost.countP (loses ignore sets) = lost.length := by
      rw [List.countP_eq_length]
      intro x hx
      simp [loses, hlost x hx]
    have hself : loses ignore sets v = false := by simp [loses, hv]
    rw [← hspec.perm.countP_eq, List.countP_cons_of_neg (by simp [hself]), hall, hspec.losers,
      List.length_map]
  · intro w l
    have hself : losesTo ignore sets w v = false := by simp [losesTo, hv]
    have hcongr : lost.countP (fun x => x.1 = l && losesTo ignore sets w x) =
        lost.countP fun x => x.1 = l && w = v.1 := by
      refine List.countP_congr fun x hx => ?_
      rw [losesTo, (hlost x hx).1]
      simp only [Option.any_some, ne_eq, (hlost x hx).2, not_false_eq_true, decide_true,
        Bool.and_true, Bool.and_eq_true, decide_eq_true_eq, eq_comm (a := v.1)]
    rw [← hspec.perm.countP_eq, List.countP_cons_of_neg (by simp [hself]), hcongr, hspec.losers,
      hspec.ordinal, List.count, List.countP_map]
    by_cases hw : w = v.1
    · simp only [hw, decide_true, Bool.and_true, if_true]
      rfl
    · simp [hw]

theorem attributed_eq (h : Distinct sets) (hsorted : ignore.Pairwise (· ≤ ·))
    (hbytes : EncodesWithout bytesWithoutLabels) (fillGaps : Bool) :
    attributed ignore sets =
      { collisions :=
          ((slots bytesWithoutLabels ignore fillGaps sets).map fun p => p.2.losers.length).sum
        pairs := fun q =>
          ((slots bytesWithoutLabels ignore fillGaps sets).map fun p =>
            if q.1 = p.2.ordinal then p.2.losers.count q.2 else 0).sum } := by
  have hcount : ∀ k b, (k, b) ∈ slots bytesWithoutLabels ignore fillGaps sets →
      ((tagged sets).filter fun x => bytesWithoutLabels x.2.labels ignore = k).countP
          (loses ignore sets) = b.losers.length ∧
        ∀ w l, ((tagged sets).filter fun x => bytesWithoutLabels x.2.labels ignore = k).countP
          (fun x => x.1 = l && losesTo ignore sets w x) =
            if w = b.ordinal then b.losers.count l else 0 := by
    intro k b hb
    obtain ⟨v, lost, hspec, -, hwin⟩ := slot_spec h hsorted hbytes hb
    exact countP_loses hspec ((h.labels.of_map _).sublist List.filter_sublist)
      fun x hx => hwin x (of_decide_eq_true (List.mem_filter.mp hx).2)
  apply DedupStats.ext
  · exact countP_eq_sum_group fun k b hb => (hcount k b hb).1
  · funext q
    exact countP_eq_sum_group fun k b hb => (hcount k b hb).2 q.1 q.2

theorem length_tagged (h : Distinct sets) (hsorted : ignore.Pairwise (· ≤ ·))
    (hbytes : EncodesWithout bytesWithoutLabels) (fillGaps : Bool) :
    (tagged sets).length =
      (slots bytesWithoutLabels ignore fillGaps sets).length +
        ((slots bytesWithoutLabels ignore fillGaps sets).map fun p => p.2.losers.length).sum := by
  have hcount : ∀ k b, (k, b) ∈ slots bytesWithoutLabels ignore fillGaps sets →
      ((tagged sets).filter fun x => bytesWithoutLabels x.2.labels ignore = k).countP
        (fun _ => true) = 1 + b.losers.length := by
    intro k b hb
    obtain ⟨v, lost, hspec, -, -⟩ := slot_spec h hsorted hbytes hb
    rw [List.countP_true, ← hspec.perm.length_eq, hspec.losers, List.length_map, List.length_cons,
      Nat.add_comm]
  have hsum : (tagged sets).countP (fun _ => true) =
      ((slots bytesWithoutLabels ignore fillGaps sets).map
        fun p => 1 + p.2.losers.length).sum := countP_eq_sum_group hcount
  rw [List.countP_true] at hsum
  rw [hsum, List.sum_map_add]
  simp

end

/-! ## Settling the buckets -/

theorem record_foldl (w : Int) (losers : List Int) (stats : DedupStats) :
    losers.foldl (fun stats loser => stats.record w loser) stats =
      { collisions := stats.collisions + losers.length
        pairs := fun p => stats.pairs p + if p.1 = w then losers.count p.2 else 0 } := by
  induction losers generalizing stats with
  | nil => simp
  | cons l losers ih =>
    rw [List.foldl_cons, ih]
    apply DedupStats.ext
    · simp only [DedupStats.record, List.length_cons]
      omega
    · funext p
      obtain ⟨w', l'⟩ := p
      simp only [DedupStats.record, Prod.mk.injEq, List.count_cons, beq_iff_eq]
      by_cases hw : w' = w
      · by_cases hl : l' = l
        · simp only [hw, hl, and_self, if_true]
          omega
        · simp only [hw, hl, Ne.symm hl, and_false, if_true, if_false, Nat.add_zero]
      · simp only [hw, false_and, if_false]

variable [Prometheus]

/-- The series emitted for a slot. -/
def settledBy (sortSlice : List DedupBucketMember → List DedupBucketMember) (opts : DedupGapOpts)
    (b : Slot) : Series :=
  if opts.fillGaps && 1 < b.members.length then fillBucketGapsBy sortSlice b.members opts.gap
  else b.series

def settled : DedupGapOpts → Slot → Series := settledBy (sortBy DedupBucketMember.ordinal)

section

variable {sortSlice : List DedupBucketMember → List DedupBucketMember}

theorem settleBucketBy_entry (opts : DedupGapOpts) (b : Slot) (idx : Nat) (result : List Series)
    (stats : DedupStats) :
    settleBucketBy sortSlice opts (result, stats) (b.entry idx) =
      (if opts.fillGaps && 1 < b.members.length then
          result.set idx (fillBucketGapsBy sortSlice b.members opts.gap)
        else result,
        { collisions := stats.collisions + b.losers.length
          pairs := fun q => stats.pairs q +
            if q.1 = b.ordinal then b.losers.count q.2 else 0 }) := by
  rw [settleBucketBy, record_foldl]
  show (if (opts.fillGaps && decide (1 < b.members.length)) = true then _ else _) = _
  split <;> rfl

theorem settleBy_foldl {Key : Type*} (opts : DedupGapOpts) (slots : List (Key × Slot))
    (done : List Series) (stats : DedupStats) :
    ((entriesFrom done.length slots).map Prod.snd).foldl (settleBucketBy sortSlice opts)
        (done ++ slots.map (fun p => p.2.series), stats) =
      (done ++ slots.map (fun p => settledBy sortSlice opts p.2),
        { collisions := stats.collisions + (slots.map fun p => p.2.losers.length).sum
          pairs := fun q => stats.pairs q +
            (slots.map fun p => if q.1 = p.2.ordinal then p.2.losers.count q.2 else 0).sum }) := by
  induction slots generalizing done stats with
  | nil => simp [entriesFrom]
  | cons p slots ih =>
    obtain ⟨k, b⟩ := p
    have hresult : (if opts.fillGaps && 1 < b.members.length then
          (done ++ b.series :: slots.map fun p => p.2.series).set done.length
            (fillBucketGapsBy sortSlice b.members opts.gap)
        else done ++ b.series :: slots.map fun p => p.2.series) =
        (done ++ [settledBy sortSlice opts b]) ++ slots.map fun p => p.2.series := by
      rw [settledBy]
      split
      · rw [List.set_append_right _ _ le_rfl, Nat.sub_self, List.set_cons_zero,
          List.append_assoc, List.singleton_append]
      · rw [List.append_assoc, List.singleton_append]
    have hlen : (done ++ [settledBy sortSlice opts b]).length = done.length + 1 := by simp
    rw [entriesFrom, List.map_cons, List.map_cons, List.foldl_cons, settleBucketBy_entry, hresult,
      ← hlen, ih]
    simp only [List.map_cons, List.sum_cons, List.append_assoc, List.singleton_append,
      Nat.add_assoc]

end

/-! ## The result for every order -/

section

variable {Key : Type*} [DecidableEq Key] {bytesWithoutLabels : Labels → List String → Key}
  {sets : List OrdinalSeriesSet} {ignore : List String}

section

variable {sortSlice : List DedupBucketMember → List DedupBucketMember} {opts : DedupGapOpts}
  {stats : DedupStats}

/-- What the sets come to where they are not passed through. -/
theorem dedupSeriesSetsFillGapsBy_of_length (hlen : sets.length ≠ 1) :
    dedupSeriesSetsFillGapsBy sortSlice bytesWithoutLabels sets ignore opts stats =
      match dedupSets bytesWithoutLabels ignore opts.fillGaps ⟨[], []⟩ sets with
      | .error err => (⟨[], ∅, some err⟩, stats)
      | .ok st =>
        let r := (st.buckets.map Prod.snd).foldl (settleBucketBy sortSlice opts) (st.result, stats)
        (⟨r.1, ∅, none⟩, r.2) := by
  match sets, hlen with
  | [], _ => rfl
  | _ :: _ :: _, _ => rfl

/-- A set that ends in an error leaves nothing of any of them. -/
theorem dedupSeriesSetsFillGapsBy_of_err (hlen : sets.length ≠ 1) {set : OrdinalSeriesSet}
    (hset : set ∈ sets) (herr : set.ss.err ≠ none) :
    ∃ err, dedupSeriesSetsFillGapsBy sortSlice bytesWithoutLabels sets ignore opts stats =
      (⟨[], ∅, some err⟩, stats) := by
  have hloop : ∀ (st : DedupState Key) (sets : List OrdinalSeriesSet), set ∈ sets →
      ∃ err, dedupSets bytesWithoutLabels ignore opts.fillGaps st sets = .error err := by
    intro st sets hset
    induction sets generalizing st with
    | nil => cases hset
    | cons first sets ih =>
      rw [dedupSets]
      cases hfirst : first.ss.err with
      | some err => exact ⟨err, rfl⟩
      | none =>
        rcases List.mem_cons.mp hset with rfl | hset
        · exact absurd hfirst herr
        · exact ih _ hset
  obtain ⟨err, h⟩ := hloop ⟨[], []⟩ sets hset
  exact ⟨err, by rw [dedupSeriesSetsFillGapsBy_of_length hlen, h]⟩

end

/-- Several sets without errors: every slot is settled, and its losers are recorded. -/
theorem dedupSeriesSetsFillGapsBy_eq
    {sortSlice : List DedupBucketMember → List DedupBucketMember} (hlen : sets.length ≠ 1)
    (herr : ∀ set ∈ sets, set.ss.err = none) (opts : DedupGapOpts) (stats : DedupStats) :
    dedupSeriesSetsFillGapsBy sortSlice bytesWithoutLabels sets ignore opts stats =
      (⟨(slots bytesWithoutLabels ignore opts.fillGaps sets).map
          fun p => settledBy sortSlice opts p.2, ∅, none⟩,
        { collisions := stats.collisions +
            ((slots bytesWithoutLabels ignore opts.fillGaps sets).map
              fun p => p.2.losers.length).sum
          pairs := fun q => stats.pairs q +
            ((slots bytesWithoutLabels ignore opts.fillGaps sets).map fun p =>
              if q.1 = p.2.ordinal then p.2.losers.count q.2 else 0).sum }) := by
  have hsettle := @settleBy_foldl _ sortSlice _ opts
    (slots bytesWithoutLabels ignore opts.fillGaps sets) [] stats
  simp only [List.nil_append, List.length_nil] at hsettle
  rw [dedupSeriesSetsFillGapsBy, dedupSets_eq ignore opts.fillGaps herr]
  · simp only [concrete]
    rw [← slots, hsettle]
  · rintro set rfl
    exact hlen rfl

theorem dedupSeriesSetsFillGaps_eq (h2 : 2 ≤ sets.length) (h : Distinct sets)
    (opts : DedupGapOpts) :
    dedupSeriesSetsFillGaps bytesWithoutLabels sets ignore opts DedupStats.empty =
      (⟨(slots bytesWithoutLabels ignore opts.fillGaps sets).map fun p => settled opts p.2, ∅,
          none⟩,
        { collisions :=
            ((slots bytesWithoutLabels ignore opts.fillGaps sets).map
              fun p => p.2.losers.length).sum
          pairs := fun q =>
            ((slots bytesWithoutLabels ignore opts.fillGaps sets).map fun p =>
              if q.1 = p.2.ordinal then p.2.losers.count q.2 else 0).sum }) := by
  rw [dedupSeriesSetsFillGaps, dedupSeriesSetsFillGapsBy_eq (by omega) h.err]
  simp [DedupStats.empty, settled]

omit [Prometheus] in
/-- Of two slots the winners have different reduced labels. -/
theorem nodup_reduced (h : Distinct sets) (hsorted : ignore.Pairwise (· ≤ ·))
    (hbytes : EncodesWithout bytesWithoutLabels) (fillGaps : Bool) :
    ((slots bytesWithoutLabels ignore fillGaps sets).map
      fun p => reduced ignore p.2.series).Nodup := by
  have hkeys : ((slots bytesWithoutLabels ignore fillGaps sets).map Prod.fst).Nodup :=
    nodup_group _
  rw [List.Nodup, List.pairwise_map] at hkeys ⊢
  refine hkeys.imp_of_mem fun {p q} hp hq hne heq => hne ?_
  obtain ⟨v, _, hspec, hv, -⟩ := slot_spec h hsorted hbytes hp
  obtain ⟨v', _, hspec', hv', -⟩ := slot_spec h hsorted hbytes hq
  rw [hspec.series, hspec'.series] at heq
  rw [← hv, ← hv']
  exact (hbytes ignore hsorted _ _).mpr heq

/-! ## Filled gaps -/

omit [Prometheus] in
/-- Where no set has two series in one bucket, the members of a bucket have distinct ordinals. -/
theorem nodup_bucket (hord : (sets.map OrdinalSeriesSet.ordinal).Nodup)
    (hone : ∀ set ∈ sets, (set.ss.series.map (reduced ignore)).Nodup)
    (hsorted : ignore.Pairwise (· ≤ ·)) (hbytes : EncodesWithout bytesWithoutLabels) (k : Key) :
    (((tagged sets).filter fun x => bytesWithoutLabels x.2.labels ignore = k).map
      Prod.fst).Nodup := by
  have hpair : (tagged sets).Pairwise
      fun x y => x.1 = y.1 → reduced ignore x.2 ≠ reduced ignore y.2 := by
    rw [tagged, List.pairwise_flatMap]
    constructor
    · intro set hset
      rw [List.pairwise_map]
      refine List.Pairwise.imp ?_ (List.pairwise_map.mp (hone set hset))
      intro a b hne _
      exact hne
    · refine (List.pairwise_map.mp hord).imp fun {a b} hne x hx y hy heq => absurd heq ?_
      obtain ⟨s, _, rfl⟩ := List.mem_map.mp hx
      obtain ⟨s', _, rfl⟩ := List.mem_map.mp hy
      exact hne
  rw [List.Nodup, List.pairwise_map]
  refine (hpair.filter _).imp_of_mem fun {x y} hx hy hne heq => hne heq ?_
  have hxk := of_decide_eq_true (List.mem_filter.mp hx).2
  have hyk := of_decide_eq_true (List.mem_filter.mp hy).2
  exact (hbytes ignore hsorted _ _).mp (hxk.trans hyk.symm)

omit [Prometheus] in
theorem SlotSpec.members_eq {items lost : List Tagged} {b : Slot} {v : Tagged}
    (hspec : SlotSpec true items b v lost) : b.members = items.map fun x => ⟨x.1, x.2⟩ := by
  rw [hspec.members, List.map_eq_flatMap]
  rfl

/-- A filled series keeps the labels of the winner. -/
theorem settled_labels {opts : DedupGapOpts} {items lost : List Tagged} {b : Slot} {v : Tagged}
    (hspec : SlotSpec true items b v lost) (hord : (items.map Prod.fst).Nodup) :
    (settled opts b).labels = v.2.labels := by
  rw [settled, settledBy]
  split
  · rw [fillBucketGapsBy, hspec.members_eq]
    cases hsort : sortBy DedupBucketMember.ordinal
        (items.map fun x => (⟨x.1, x.2⟩ : DedupBucketMember)) with
    | nil =>
      have hmem : (⟨v.1, v.2⟩ : DedupBucketMember) ∈ sortBy DedupBucketMember.ordinal
          (items.map fun x => (⟨x.1, x.2⟩ : DedupBucketMember)) :=
        mem_sortBy.mpr (List.mem_map.mpr ⟨v, hspec.winner.mem, rfl⟩)
      rw [hsort] at hmem
      cases hmem
    | cons first rest =>
      -- the first member by ordinal is the winner
      have hfirst : first ∈ items.map fun x => (⟨x.1, x.2⟩ : DedupBucketMember) :=
        mem_sortBy.mp (hsort ▸ List.mem_cons_self)
      obtain ⟨x, hx, rfl⟩ := List.mem_map.mp hfirst
      have hsorted := sortBy_pairwise DedupBucketMember.ordinal
        (items.map fun x => (⟨x.1, x.2⟩ : DedupBucketMember))
      rw [hsort, List.pairwise_cons] at hsorted
      have hv : (⟨v.1, v.2⟩ : DedupBucketMember) ∈ ⟨x.1, x.2⟩ :: rest := by
        rw [← hsort, mem_sortBy]
        exact List.mem_map.mpr ⟨v, hspec.winner.mem, rfl⟩
      have hle : x.1 ≤ v.1 := by
        rcases List.mem_cons.mp hv with heq | hv
        · exact (congrArg DedupBucketMember.ordinal heq).ge
        · exact hsorted.1 _ hv
      have heq : x = v := List.inj_on_of_nodup_map hord hx hspec.winner.mem
        (le_antisymm hle (hspec.winner.lowest x hx))
      rw [heq]
      rfl
  · rw [hspec.series]

/-- A filled series does not depend on the order of the members. -/
theorem settled_perm {opts : DedupGapOpts} {items items' lost lost' : List Tagged} {b b' : Slot}
    {v : Tagged} (hspec : SlotSpec true items b v lost) (hspec' : SlotSpec true items' b' v lost')
    (hp : items.Perm items') (hord : (items.map Prod.fst).Nodup) :
    settled opts b = settled opts b' := by
  have hmembers : b.members.Perm b'.members := by
    rw [hspec.members_eq, hspec'.members_eq]
    exact hp.map _
  have hsort : sortBy DedupBucketMember.ordinal b.members =
      sortBy DedupBucketMember.ordinal b'.members := by
    refine sortBy_congr_perm ?_ hmembers
    rw [hspec.members_eq, List.map_map]
    exact hord
  rw [settled, settledBy, settledBy, fillBucketGapsBy, fillBucketGapsBy, hsort,
    hmembers.length_eq, hspec.series, hspec'.series]

theorem map_labels_settled (h : Distinct sets) (hsorted : ignore.Pairwise (· ≤ ·))
    (hbytes : EncodesWithout bytesWithoutLabels)
    (hone : ∀ set ∈ sets, (set.ss.series.map (reduced ignore)).Nodup) (gap : Int) :
    (slots bytesWithoutLabels ignore true sets).map (fun p => (settled ⟨true, gap⟩ p.2).labels) =
      (slots bytesWithoutLabels ignore false sets).map fun p => p.2.series.labels := by
  -- both are the labels of the winner of the key
  let G : Key → Option Labels := fun k =>
    ((tagged (byOrdinal sets)).find? fun x => bytesWithoutLabels x.2.labels ignore = k).map
      fun v => v.2.labels
  have hleft : ((slots bytesWithoutLabels ignore true sets).map
        fun p => (settled ⟨true, gap⟩ p.2).labels).map some =
      ((slots bytesWithoutLabels ignore true sets).map Prod.fst).map G :=
    map_group_eq (g := fun b => (settled ⟨true, gap⟩ b).labels) fun k b hb => by
      obtain ⟨v, lost, hspec, -, -⟩ := slot_spec h hsorted hbytes hb
      rw [settled_labels hspec (nodup_bucket h.ordinals hone hsorted hbytes k)]
      exact congrArg (Option.map fun v => v.2.labels) (hspec.winner.find?_byOrdinal h.ordinals)
  have hright : ((slots bytesWithoutLabels ignore false sets).map
        fun p => p.2.series.labels).map some =
      ((slots bytesWithoutLabels ignore false sets).map Prod.fst).map G :=
    map_group_eq (g := fun b : Slot => b.series.labels) fun k b hb => by
      obtain ⟨v, lost, hspec, -, -⟩ := slot_spec h hsorted hbytes hb
      rw [hspec.series]
      exact congrArg (Option.map fun v => v.2.labels) (hspec.winner.find?_byOrdinal h.ordinals)
  have hkeys : (slots bytesWithoutLabels ignore true sets).map Prod.fst =
      (slots bytesWithoutLabels ignore false sets).map Prod.fst := map_fst_group _ _ _
  rw [hkeys] at hleft
  exact List.map_injective_iff.mpr (Option.some_injective _) (hleft.trans hright.symm)

theorem settled_slots_perm (h : Distinct sets) (hsorted : ignore.Pairwise (· ≤ ·))
    (hbytes : EncodesWithout bytesWithoutLabels)
    (hone : ∀ set ∈ sets, (set.ss.series.map (reduced ignore)).Nodup) (gap : Int)
    {sets' : List OrdinalSeriesSet} (hp : sets'.Perm sets) :
    ((slots bytesWithoutLabels ignore true sets').map fun p => settled ⟨true, gap⟩ p.2).Perm
      ((slots bytesWithoutLabels ignore true sets).map fun p => settled ⟨true, gap⟩ p.2) := by
  let key : Tagged → Key := fun x => bytesWithoutLabels x.2.labels ignore
  let G : Key → Option Series := fun k =>
    (foldSlot (newSlot true) (addSlot true) ((tagged sets).filter fun x => key x = k)).map
      (settled ⟨true, gap⟩)
  have hsets : ((slots bytesWithoutLabels ignore true sets).map
        fun p => settled ⟨true, gap⟩ p.2).map some =
      ((slots bytesWithoutLabels ignore true sets).map Prod.fst).map G :=
    map_group_eq fun k b hb => congrArg (Option.map _) (mem_group.mp hb)
  have hkeys : ((slots bytesWithoutLabels ignore true sets').map Prod.fst).Perm
      ((slots bytesWithoutLabels ignore true sets).map Prod.fst) := by
    refine (List.perm_ext_iff_of_nodup (nodup_group _) (nodup_group _)).mpr fun k => ?_
    simp only [mem_keys_group, (tagged_perm hp).mem_iff]
  have h' : Distinct sets' := h.perm hp.symm
  have hsets' : ((slots bytesWithoutLabels ignore true sets').map
        fun p => settled ⟨true, gap⟩ p.2).map some =
      ((slots bytesWithoutLabels ignore true sets').map Prod.fst).map G :=
    map_group_eq fun k b' hb' => by
      have hmem : k ∈ (slots bytesWithoutLabels ignore true sets).map Prod.fst :=
        hkeys.mem_iff.mp (List.mem_map_of_mem (f := Prod.fst) hb')
      obtain ⟨⟨_, b⟩, hb, rfl⟩ := List.mem_map.mp hmem
      obtain ⟨v, lost, hspec, -, -⟩ := slot_spec h hsorted hbytes hb
      obtain ⟨v', lost', hspec', -, -⟩ := slot_spec h' hsorted hbytes hb'
      -- the winner does not depend on the order either
      have hv := hspec.winner.find?_byOrdinal h.ordinals
      have hv' := hspec'.winner.find?_byOrdinal h'.ordinals
      rw [byOrdinal_perm h'.ordinals hp, hv, Option.some.injEq] at hv'
      rw [← hv'] at hspec'
      rw [← settled_perm hspec hspec' ((tagged_perm hp.symm).filter _)
        (nodup_bucket h.ordinals hone hsorted hbytes _)]
      exact congrArg (Option.map _) (mem_group.mp hb)
  rw [← List.map_perm_map_iff (Option.some_injective _), hsets, hsets']
  exact hkeys.map G

/-- **Dedup of the series of several groups.** For every permutation of the sets: without gap
filling every bucket emits the first series of the lowest ordinal that has any, untouched; every
other series is counted once, against that winner. Gap filling, where no set has two series in one
bucket, changes neither the labels emitted nor the statistics, and what it fills in is the same for
every permutation. -/
theorem dedupSeriesSetsFillGaps_spec (h2 : 2 ≤ sets.length)
    (hord : (sets.map OrdinalSeriesSet.ordinal).Nodup)
    (herr : ∀ set ∈ sets, set.ss.err = none)
    (hlabels : ((tagged sets).map fun x => x.2.labels).Nodup)
    (hsorted : ignore.Pairwise (· ≤ ·)) (hbytes : EncodesWithout bytesWithoutLabels) (gap : Int)
    {sets' : List OrdinalSeriesSet} (hp : sets'.Perm sets) :
    ∃ out stats,
      dedupSeriesSetsFillGaps bytesWithoutLabels sets' ignore ⟨false, gap⟩ DedupStats.empty =
        (⟨out, ∅, none⟩, stats) ∧
      (out.map (reduced ignore)).Nodup ∧
      (∀ s, s ∈ out ↔ ∃ lbls o, winner ignore sets lbls = some (o, s)) ∧
      stats = attributed ignore sets ∧
      (tagged sets).length = out.length + stats.collisions ∧
      ((∀ set ∈ sets, (set.ss.series.map (reduced ignore)).Nodup) →
        ∃ filled,
          dedupSeriesSetsFillGaps bytesWithoutLabels sets' ignore ⟨true, gap⟩ DedupStats.empty =
            (⟨filled, ∅, none⟩, stats) ∧
          filled.map Series.labels = out.map Series.labels ∧
          filled.Perm (dedupSeriesSetsFillGaps bytesWithoutLabels sets ignore ⟨true, gap⟩
            DedupStats.empty).1.series) := by
  have h : Distinct sets := ⟨hord, herr, hlabels⟩
  have h' : Distinct sets' := h.perm hp.symm
  have h2' : 2 ≤ sets'.length := hp.length_eq ▸ h2
  have hattr := attributed_perm h'.ordinals hp ignore
  refine ⟨(slots bytesWithoutLabels ignore false sets').map fun p => p.2.series,
    attributed ignore sets, ?_, ?_, fun s => ?_, rfl, ?_, fun hone => ?_⟩
  · rw [dedupSeriesSetsFillGaps_eq h2' h', ← hattr, attributed_eq h' hsorted hbytes false]
    rfl
  · rw [List.map_map]
    exact nodup_reduced h' hsorted hbytes false
  · rw [← winner_perm h'.ordinals hp]
    exact mem_dedup h' hsorted hbytes
  · rw [← (tagged_perm hp).length_eq, ← hattr, attributed_eq h' hsorted hbytes false,
      List.length_map]
    exact length_tagged h' hsorted hbytes false
  · have hone' : ∀ set ∈ sets', (set.ss.series.map (reduced ignore)).Nodup :=
      fun set hset => hone set (hp.mem_iff.mp hset)
    refine ⟨(slots bytesWithoutLabels ignore true sets').map fun p => settled ⟨true, gap⟩ p.2,
      ?_, ?_, ?_⟩
    · rw [dedupSeriesSetsFillGaps_eq h2' h', ← hattr, attributed_eq h' hsorted hbytes true]
    · rw [List.map_map, List.map_map]
      exact map_labels_settled h' hsorted hbytes hone' gap
    · rw [dedupSeriesSetsFillGaps_eq h2 h]
      exact settled_slots_perm h hsorted hbytes hone gap hp

end

/-- One series as the group with the external label `dc` reports it. -/
def seriesOf (dc : String) : Series := ⟨(Labels.empty.set "dc" dc).set "job" "node", []⟩

omit [Prometheus] in
theorem dedupSeriesSetsFillGaps_spec_two_groups :
    ∃ out stats,
      @dedupSeriesSetsFillGaps prometheusWithoutBuckets _ _
          (fun l names => (l.del names).pairs)
          [⟨1, ⟨[seriesOf "b"], ∅, none⟩⟩, ⟨0, ⟨[seriesOf "a"], ∅, none⟩⟩] ["dc"] ⟨false, 0⟩
          DedupStats.empty = (⟨out, ∅, none⟩, stats) ∧
      seriesOf "a" ∈ out ∧ stats.collisions = 1 ∧ stats.pairs (0, 1) = 1 := by
  obtain ⟨out, stats, hdedup, -, hmem, rfl, -⟩ :=
    @dedupSeriesSetsFillGaps_spec prometheusWithoutBuckets _ _ (fun l names => (l.del names).pairs)
      [⟨0, ⟨[seriesOf "a"], ∅, none⟩⟩, ⟨1, ⟨[seriesOf "b"], ∅, none⟩⟩] ["dc"] (by decide)
      (by decide) (by decide) (by decide) (by decide)
      (fun _ _ l l' => ⟨Labels.ext_pairs, congrArg fun m : Labels => m.pairs⟩) 0
      [⟨1, ⟨[seriesOf "b"], ∅, none⟩⟩, ⟨0, ⟨[seriesOf "a"], ∅, none⟩⟩] (List.Perm.swap _ _ _)
  exact ⟨out, _, hdedup,
    (hmem _).mpr ⟨reduced ["dc"] (seriesOf "a"), 0, by decide⟩, by decide, by decide⟩

end Promclient
end Proxeus
