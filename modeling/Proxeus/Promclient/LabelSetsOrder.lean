import Proxeus.Lib.Contest
import Proxeus.Promclient.LabelSets

/-!
# Promclient.LabelSetsOrder

`mergeLabelSetsDeterministic` under permutations of its inputs. It is a running minimum of ordinals
for each reduced label set (`Tracks`), and it records a collision when it sees it. So the label sets
it returns are the same in any order, but a loser may be charged to a backend that is beaten later;
that never shows exactly if each bucket has no more than one label set above its lowest ordinal.
-/

namespace Proxeus
namespace Promclient

open Lib Promhttputil

/-- The label sets of all inputs with their ordinals, in order. -/
def taggedSets (inputs : List OrdinalLabelSets) : List (Int × LabelSet) :=
  inputs.flatMap fun input => input.sets.map fun ls => (input.ordinal, ls)

/-- The buckets, each with the label set that holds it and the bouts so far. -/
def buckets (ignore : List String) (items : List (Int × LabelSet)) :
    List (LabelSet × Held Int LabelSet) :=
  group (fun x : Int × LabelSet => reducedLabelSet x.2 ignore) newHeld addHeld items

/-- What the buckets have recorded. -/
def boutStats (slots : List (LabelSet × Held Int LabelSet)) : DedupStats where
  collisions := (slots.map fun p => p.2.2.length).sum
  pairs q := (slots.map fun p => p.2.2.count q).sum

section

variable {Fingerprint : Type*} [DecidableEq Fingerprint]
  {fingerprint fastFingerprint : LabelSet → Fingerprint} {ignore : List String}

/-! ## The loop -/

/-- The state of the loop next to the buckets. -/
structure Tracks (fingerprint fastFingerprint : LabelSet → Fingerprint) (ignore : List String)
    (slots : List (LabelSet × Held Int LabelSet)) (st : LabelSetState Fingerprint) : Prop where
  result : st.result = slots.map fun p => p.2.1.2
  full : ∀ ls, (st.fullFPIndex (fingerprint ls)).isSome → ls ∈ st.result
  entry : ∀ idx k b, slots[idx]? = some (k, b) → ∀ ls, reducedLabelSet ls ignore = k →
    st.reducedFPEntry (reducedFingerprintLS fastFingerprint ls ignore) = some ⟨idx, b.1.1⟩
  absent : ∀ ls, reducedLabelSet ls ignore ∉ slots.map Prod.fst →
    st.reducedFPEntry (reducedFingerprintLS fastFingerprint ls ignore) = none
  stats : st.stats = boutStats slots

/-- One bout more is one collision more. -/
theorem boutStats_bout (before after : List (LabelSet × Held Int LabelSet)) (k : LabelSet)
    (b : Held Int LabelSet) (x : Int × LabelSet) :
    boutStats (before ++ (k, addHeld b x) :: after) =
      (boutStats (before ++ (k, b) :: after)).record (min b.1.1 x.1) (max b.1.1 x.1) := by
  apply DedupStats.ext
  · simp only [boutStats, DedupStats.record, addHeld, List.map_append, List.map_cons,
      List.sum_append, List.sum_cons, List.length_append, List.length_singleton]
    omega
  · funext q
    simp only [boutStats, DedupStats.record, addHeld, bout, List.map_append, List.map_cons,
      List.sum_append, List.sum_cons, List.count_append, List.count_singleton]
    by_cases hq : q = (min b.1.1 x.1, max b.1.1 x.1)
    · subst hq
      simp only [beq_self_eq_true, if_true]
      omega
    · rw [if_neg hq, if_neg (by simpa using Ne.symm hq)]
      omega

theorem boutStats_new (slots : List (LabelSet × Held Int LabelSet)) (k : LabelSet)
    (x : Int × LabelSet) : boutStats (slots ++ [(k, newHeld x)]) = boutStats slots := by
  apply DedupStats.ext
  · simp [boutStats, newHeld]
  · funext q
    simp [boutStats, newHeld]

/-- A list with its element at one place changed. -/
theorem getElem?_middle {γ : Type*} {before after : List γ} (p : γ) {p' q : γ} {idx : Nat}
    (h : (before ++ p' :: after)[idx]? = some q) :
    (idx = before.length ∧ q = p') ∨
      (idx ≠ before.length ∧ (before ++ p :: after)[idx]? = some q) := by
  by_cases hidx : idx = before.length
  · left
    subst hidx
    simp only [List.getElem?_append_right le_rfl, Nat.sub_self, List.getElem?_cons_zero,
      Option.some.injEq] at h
    exact ⟨rfl, h.symm⟩
  · right
    have hset : before ++ p' :: after = (before ++ p :: after).set before.length p' := by simp
    rw [hset, List.getElem?_set_ne (Ne.symm hidx)] at h
    exact ⟨hidx, h⟩

/-- A bout in a bucket, whose holder is beaten or not. -/
theorem Tracks.bout (hfull : Function.Injective fingerprint)
    (hfast : Function.Injective fastFingerprint) {x : Int × LabelSet}
    {before after : List (LabelSet × Held Int LabelSet)} {b : Held Int LabelSet}
    (hn : ((before ++ (reducedLabelSet x.2 ignore, b) :: after).map Prod.fst).Nodup)
    {st : LabelSetState Fingerprint}
    (h : Tracks fingerprint fastFingerprint ignore
      (before ++ (reducedLabelSet x.2 ignore, b) :: after) st) (hx : x.2 ∉ st.result) :
    Tracks fingerprint fastFingerprint ignore
      (before ++ (reducedLabelSet x.2 ignore, addHeld b x) :: after)
      (mergeLabelSet fingerprint fastFingerprint ignore st x.1 x.2) := by
  have hnew : ¬(st.fullFPIndex (fingerprint x.2)).isSome := fun hsome => hx (h.full x.2 hsome)
  have hheld : (before ++ (reducedLabelSet x.2 ignore, b) :: after)[before.length]? =
      some (reducedLabelSet x.2 ignore, b) := by simp
  have hred : ∀ ls, reducedFingerprintLS fastFingerprint ls ignore =
      reducedFingerprintLS fastFingerprint x.2 ignore ↔
        reducedLabelSet ls ignore = reducedLabelSet x.2 ignore := fun ls => hfast.eq_iff
  have hkeys : (before ++ (reducedLabelSet x.2 ignore, addHeld b x) :: after).map Prod.fst =
      (before ++ (reducedLabelSet x.2 ignore, b) :: after).map Prod.fst := by simp
  -- another bucket has another key
  have hother : ∀ idx k c, idx ≠ before.length →
      (before ++ (reducedLabelSet x.2 ignore, b) :: after)[idx]? = some (k, c) →
      k ≠ reducedLabelSet x.2 ignore := by
    intro idx k c hne hidx hk
    subst hk
    refine hne ((List.getElem?_inj ?_ hn).mp ?_)
    · rw [List.length_map]
      exact (List.getElem?_eq_some_iff.mp hidx).1
    · rw [List.getElem?_map, List.getElem?_map, hidx, hheld]
      rfl
  rw [mergeLabelSet, if_neg hnew]
  simp only [h.entry _ _ b hheld x.2 rfl]
  by_cases hlt : x.1 < b.1.1
  · -- the holder is beaten
    have hdefend : defend b.1 x = x := if_pos hlt
    have hresult : st.result.set before.length x.2 =
        (before ++ (reducedLabelSet x.2 ignore, addHeld b x) :: after).map fun p => p.2.1.2 := by
      rw [h.result]
      simp [addHeld, hdefend]
    rw [if_pos hlt]
    refine ⟨hresult, fun ls hls => ?_, fun idx k c hidx ls hls => ?_, fun ls hls => ?_, ?_⟩
    · simp only [Function.update_apply] at hls
      split at hls
      · rename_i heq
        rw [hresult, hfull heq]
        exact List.mem_map.mpr ⟨_, List.mem_append_right _ List.mem_cons_self,
          by simp [addHeld, hdefend]⟩
      · split at hls
        · cases hls
        · rename_i hne hold
          have hmem := h.full ls hls
          rw [h.result, List.getD_eq_getElem?_getD] at hold
          rw [h.result] at hmem
          rw [hresult]
          obtain ⟨p, hp, rfl⟩ := List.mem_map.mp hmem
          rcases List.mem_append.mp hp with hp | hp
          · exact List.mem_map_of_mem (List.mem_append_left _ hp)
          · rcases List.mem_cons.mp hp with rfl | hp
            · exact absurd (by simp) hold
            · exact List.mem_map_of_mem (List.mem_append_right _ (List.mem_cons_of_mem _ hp))
    · simp only [Function.update_apply]
      rcases getElem?_middle (reducedLabelSet x.2 ignore, b) hidx with ⟨rfl, heq⟩ | ⟨hne, hidx⟩
      · cases heq
        rw [if_pos ((hred ls).mpr hls), addHeld, hdefend]
      · rw [if_neg fun heq => hother idx k c hne hidx (hls ▸ (hred ls).mp heq)]
        exact h.entry idx k c hidx ls hls
    · rw [hkeys] at hls
      simp only [Function.update_apply]
      rw [if_neg, h.absent ls hls]
      intro heq
      exact hls (by simp [(hred ls).mp heq])
    · rw [boutStats_bout, min_eq_right hlt.le, max_eq_left hlt.le, h.stats]
  · have hdefend : defend b.1 x = b.1 := if_neg hlt
    have hle : b.1.1 ≤ x.1 := not_lt.mp hlt
    rw [if_neg hlt]
    refine ⟨?_, h.full, fun idx k c hidx ls hls => ?_, fun ls hls => ?_, ?_⟩
    · rw [h.result]
      simp [addHeld, hdefend]
    · rcases getElem?_middle (reducedLabelSet x.2 ignore, b) hidx with ⟨rfl, heq⟩ | ⟨hne, hidx⟩
      · cases heq
        rw [addHeld, hdefend]
        exact h.entry _ _ b hheld ls hls
      · exact h.entry idx k c hidx ls hls
    · rw [hkeys] at hls
      exact h.absent ls hls
    · rw [boutStats_bout, min_eq_left hle, max_eq_right hle, h.stats]

theorem mergeLabelSet_tracks (hfull : Function.Injective fingerprint)
    (hfast : Function.Injective fastFingerprint)
    {slots : List (LabelSet × Held Int LabelSet)} (hn : (slots.map Prod.fst).Nodup)
    {st : LabelSetState Fingerprint} (h : Tracks fingerprint fastFingerprint ignore slots st)
    (x : Int × LabelSet) (hx : x.2 ∉ st.result) :
    Tracks fingerprint fastFingerprint ignore
      (insertWith (fun x : Int × LabelSet => reducedLabelSet x.2 ignore) newHeld addHeld x slots)
      (mergeLabelSet fingerprint fastFingerprint ignore st x.1 x.2) := by
  by_cases hk : reducedLabelSet x.2 ignore ∈ slots.map Prod.fst
  · obtain ⟨before, b, after, rfl, hbefore⟩ := exists_slot hk
    rw [insertWith_append (by exact hbefore)]
    exact h.bout hfull hfast hn hx
  · have hnew : ¬(st.fullFPIndex (fingerprint x.2)).isSome := fun hsome => hx (h.full x.2 hsome)
    have hred : ∀ ls, reducedLabelSet ls ignore ≠ reducedLabelSet x.2 ignore →
        reducedFingerprintLS fastFingerprint ls ignore ≠
          reducedFingerprintLS fastFingerprint x.2 ignore := fun ls hne heq => hne (hfast heq)
    rw [insertWith_of_notMem (by exact hk), mergeLabelSet, if_neg hnew]
    simp only [h.absent x.2 hk]
    refine ⟨?_, fun ls hls => ?_, fun idx k b hidx ls hls => ?_, fun ls hls => ?_, ?_⟩
    · rw [h.result, List.map_append]
      rfl
    · simp only [Function.update_apply] at hls
      rw [List.mem_append, List.mem_singleton]
      split at hls
      · rename_i heq
        exact .inr (hfull heq)
      · exact .inl (h.full ls hls)
    · rw [List.getElem?_append] at hidx
      split at hidx
      · have hold := h.entry idx k b hidx ls hls
        have hmem : k ∈ slots.map Prod.fst :=
          List.mem_map_of_mem (f := Prod.fst) (List.mem_of_getElem? hidx)
        dsimp only
        rw [Function.update_of_ne (hred ls fun heq => hk (heq ▸ hls ▸ hmem)), hold]
      · rename_i hge
        rw [List.getElem?_singleton] at hidx
        split at hidx
        · rename_i hzero
          cases hidx
          have hlen : idx = st.result.length := by
            rw [h.result, List.length_map]
            omega
          have hsame : reducedFingerprintLS fastFingerprint ls ignore =
              reducedFingerprintLS fastFingerprint x.2 ignore := congrArg fastFingerprint hls
          dsimp only
          rw [hlen, hsame, Function.update_self]
          rfl
        · cases hidx
    · rw [List.map_append, List.mem_append, not_or, List.map_singleton, List.mem_singleton] at hls
      dsimp only
      rw [Function.update_of_ne (hred ls hls.2), h.absent ls hls.1]
    · rw [boutStats_new, h.stats]

/-! ## The buckets at the end -/

theorem mem_buckets {items : List (Int × LabelSet)} {k : LabelSet} {b : Held Int LabelSet} :
    (k, b) ∈ buckets ignore items ↔
      champion (items.filter fun x => reducedLabelSet x.2 ignore = k) = some b.1 ∧
        b.2 = contests ((items.filter fun x => reducedLabelSet x.2 ignore = k).map Prod.fst) := by
  rw [buckets, mem_group, foldSlot_held, Option.map_eq_some_iff]
  constructor
  · rintro ⟨v, hv, rfl⟩
    exact ⟨hv, rfl⟩
  · rintro ⟨hv, hb⟩
    exact ⟨b.1, hv, Prod.ext rfl hb.symm⟩

/-- The label set that holds a bucket is one of the bucket. -/
theorem holder_mem {items : List (Int × LabelSet)} {k : LabelSet} {b : Held Int LabelSet}
    (h : (k, b) ∈ buckets ignore items) : b.1 ∈ items ∧ reducedLabelSet b.1.2 ignore = k := by
  have hmem := (champion_eq_iff.mp (mem_buckets.mp h).1).mem
  rw [List.mem_filter, decide_eq_true_eq] at hmem
  exact hmem

/-- The loop arrives at the buckets of all label sets, if none occurs twice. -/
theorem foldl_tracks (hfull : Function.Injective fingerprint)
    (hfast : Function.Injective fastFingerprint) {items : List (Int × LabelSet)}
    (hn : (items.map Prod.snd).Nodup) :
    Tracks fingerprint fastFingerprint ignore (buckets ignore items)
      (items.foldl (fun st x => mergeLabelSet fingerprint fastFingerprint ignore st x.1 x.2)
        ⟨DedupStats.empty, fun _ => none, fun _ => none, []⟩) := by
  induction items using List.reverseRecOn with
  | nil => exact ⟨rfl, by simp, by simp [buckets, group], fun _ _ => rfl, rfl⟩
  | append_singleton items x ih =>
    rw [List.map_append, List.nodup_append] at hn
    have hst := ih hn.1
    rw [List.foldl_concat, buckets, group_concat]
    refine mergeLabelSet_tracks hfull hfast (nodup_group _) hst x ?_
    intro hx
    rw [hst.result] at hx
    obtain ⟨⟨k, b⟩, hb, heq⟩ := List.mem_map.mp hx
    have hmem : x.2 ∈ items.map Prod.snd := heq ▸ List.mem_map_of_mem (holder_mem hb).1
    exact hn.2.2 x.2 hmem x.2 (by simp) rfl

theorem map_snd_taggedSets (inputs : List OrdinalLabelSets) :
    (taggedSets inputs).map Prod.snd = inputs.flatMap OrdinalLabelSets.sets := by
  rw [taggedSets, List.map_flatMap]
  simp only [List.map_map, Function.comp_def, List.map_id']

theorem mergeLabelSetsDeterministic_eq (hfull : Function.Injective fingerprint)
    (hfast : Function.Injective fastFingerprint) {inputs : List OrdinalLabelSets}
    (hsets : (inputs.flatMap OrdinalLabelSets.sets).Nodup) :
    mergeLabelSetsDeterministic fingerprint fastFingerprint inputs ignore =
      ((buckets ignore (taggedSets inputs)).map fun p => p.2.1.2,
        boutStats (buckets ignore (taggedSets inputs))) := by
  -- the nested loops are one loop over the label sets
  have hloop : ∀ (st : LabelSetState Fingerprint) (inputs : List OrdinalLabelSets),
      inputs.foldl (fun st input => input.sets.foldl
        (fun st ls => mergeLabelSet fingerprint fastFingerprint ignore st input.ordinal ls) st) st =
      (taggedSets inputs).foldl
        (fun st x => mergeLabelSet fingerprint fastFingerprint ignore st x.1 x.2) st := by
    intro st inputs
    induction inputs generalizing st with
    | nil => rfl
    | cons input inputs ih =>
      have htagged : taggedSets (input :: inputs) =
          (input.sets.map fun ls => (input.ordinal, ls)) ++ taggedSets inputs := rfl
      rw [List.foldl_cons, ih, htagged, List.foldl_append, List.foldl_map]
  rw [← map_snd_taggedSets] at hsets
  have htracks : Tracks fingerprint fastFingerprint ignore _ _ := foldl_tracks hfull hfast hsets
  rw [mergeLabelSetsDeterministic, hloop, htracks.result, htracks.stats]

/-! ## Permutations -/

/-- The bouts of a bucket. -/
def boutsOf (ignore : List String) (items : List (Int × LabelSet)) (k : LabelSet) :
    List (Int × Int) :=
  contests ((items.filter fun x => reducedLabelSet x.2 ignore = k).map Prod.fst)

/-- The keys of the buckets. -/
def bucketKeys (ignore : List String) (items : List (Int × LabelSet)) : List LabelSet :=
  (buckets ignore items).map Prod.fst

theorem mem_bucketKeys {items : List (Int × LabelSet)} {k : LabelSet} :
    k ∈ bucketKeys ignore items ↔ ∃ x ∈ items, reducedLabelSet x.2 ignore = k :=
  mem_keys_group

theorem boutStats_buckets (items : List (Int × LabelSet)) :
    boutStats (buckets ignore items) =
      ⟨((bucketKeys ignore items).map fun k => (boutsOf ignore items k).length).sum,
        fun q => ((bucketKeys ignore items).map fun k => (boutsOf ignore items k).count q).sum⟩ := by
  have hbouts : ∀ p ∈ buckets ignore items, p.2.2 = boutsOf ignore items p.1 :=
    fun p hp => (mem_buckets.mp (show (p.1, p.2) ∈ _ from hp)).2
  apply DedupStats.ext
  · simp only [boutStats, bucketKeys, List.map_map]
    exact congrArg List.sum (List.map_congr_left fun p hp => by rw [hbouts p hp]; rfl)
  · funext q
    simp only [boutStats, bucketKeys, List.map_map]
    exact congrArg List.sum (List.map_congr_left fun p hp => by rw [hbouts p hp]; rfl)

/-- Inputs in another order have the same buckets. -/
theorem bucketKeys_perm {items items' : List (Int × LabelSet)} (h : List.Perm items' items) :
    List.Perm (bucketKeys ignore items') (bucketKeys ignore items) := by
  have hnodup : ∀ items : List (Int × LabelSet), (bucketKeys ignore items).Nodup :=
    fun items => nodup_group _
  rw [List.perm_ext_iff_of_nodup (hnodup _) (hnodup _)]
  intro k
  rw [mem_bucketKeys, mem_bucketKeys]
  simp only [h.mem_iff]

/-- The bouts of a bucket in another order are between the same ordinals. -/
theorem ordinals_perm {items items' : List (Int × LabelSet)} (h : List.Perm items' items)
    (k : LabelSet) :
    List.Perm ((items'.filter fun x => reducedLabelSet x.2 ignore = k).map Prod.fst)
      ((items.filter fun x => reducedLabelSet x.2 ignore = k).map Prod.fst) :=
  (h.filter _).map _

/-- Of the label sets in a bucket no two are above the lowest ordinal. -/
def LoneChallengers (ignore : List String) (items : List (Int × LabelSet)) : Prop :=
  ∀ x ∈ items, ∀ y ∈ items, ∀ z ∈ items,
    reducedLabelSet x.2 ignore = reducedLabelSet z.2 ignore →
    reducedLabelSet y.2 ignore = reducedLabelSet z.2 ignore → z.1 < x.1 → z.1 < y.1 → x = y

instance (ignore : List String) (items : List (Int × LabelSet)) :
    Decidable (LoneChallengers ignore items) :=
  inferInstanceAs (Decidable (∀ x ∈ items, ∀ y ∈ items, ∀ z ∈ items,
    reducedLabelSet x.2 ignore = reducedLabelSet z.2 ignore →
    reducedLabelSet y.2 ignore = reducedLabelSet z.2 ignore → z.1 < x.1 → z.1 < y.1 → x = y))

/-- The lowest ordinal of a bucket. -/
theorem exists_lowest {items : List (Int × LabelSet)} {k : LabelSet}
    (hk : k ∈ bucketKeys ignore items) :
    ∃ z ∈ items, reducedLabelSet z.2 ignore = k ∧
      ∀ x ∈ items, reducedLabelSet x.2 ignore = k → z.1 ≤ x.1 := by
  obtain ⟨⟨k', b⟩, hb, rfl⟩ := List.mem_map.mp hk
  obtain ⟨hmem, hred⟩ := holder_mem hb
  refine ⟨b.1, hmem, hred, fun x hx hxk => ?_⟩
  exact (champion_eq_iff.mp (mem_buckets.mp hb).1).lowest x
    (List.mem_filter.mpr ⟨hx, decide_eq_true hxk⟩)

theorem loneChallengers_iff {items : List (Int × LabelSet)} (hn : items.Nodup) :
    LoneChallengers ignore items ↔
      ∀ z ∈ items, (∀ x ∈ items, reducedLabelSet x.2 ignore = reducedLabelSet z.2 ignore →
          z.1 ≤ x.1) →
        ((items.filter fun x => reducedLabelSet x.2 ignore = reducedLabelSet z.2 ignore).map
          Prod.fst).countP (fun o => z.1 < o) ≤ 1 := by
  have habove : ∀ z : Int × LabelSet,
      ((items.filter fun x => reducedLabelSet x.2 ignore = reducedLabelSet z.2 ignore).map
          Prod.fst).countP (fun o => z.1 < o) =
        (items.filter fun x => reducedLabelSet x.2 ignore = reducedLabelSet z.2 ignore ∧
          z.1 < x.1).length := by
    intro z
    rw [List.countP_map, List.countP_filter, List.countP_eq_length_filter]
    congr 1
    exact List.filter_congr fun x _ => by simp [and_comm]
  constructor
  · intro h z hz _
    rw [habove]
    cases hl : items.filter fun x => reducedLabelSet x.2 ignore = reducedLabelSet z.2 ignore ∧
        z.1 < x.1 with
    | nil => simp
    | cons x rest =>
      cases rest with
      | nil => simp
      | cons y rest =>
        have hmem : ∀ w ∈ x :: y :: rest, w ∈ items ∧
            reducedLabelSet w.2 ignore = reducedLabelSet z.2 ignore ∧ z.1 < w.1 := by
          intro w hw
          rw [← hl, List.mem_filter, decide_eq_true_eq] at hw
          exact hw
        obtain ⟨hx, hxz, hlt⟩ := hmem x (by simp)
        obtain ⟨hy, hyz, hlt'⟩ := hmem y (by simp)
        have hnodup : (x :: y :: rest).Nodup := hl ▸ hn.filter _
        have hne : x ≠ y := fun heq => (List.nodup_cons.mp hnodup).1 (by simp [heq])
        exact absurd (h x hx y hy z hz hxz hyz hlt hlt') hne
  · intro h x hx y hy z hz hxz hyz hlt hlt'
    obtain ⟨m, hm, hmk, hlow⟩ := exists_lowest (mem_bucketKeys.mpr ⟨z, hz, rfl⟩)
    have hcount := h m hm fun w hw hwm => hlow w hw (hwm.trans hmk)
    have hmz := hlow z hz rfl
    rw [habove, hmk] at hcount
    have hxl : x ∈ items.filter fun x => reducedLabelSet x.2 ignore = reducedLabelSet z.2 ignore ∧
        m.1 < x.1 := List.mem_filter.mpr ⟨hx, decide_eq_true ⟨hxz, by omega⟩⟩
    have hyl : y ∈ items.filter fun x => reducedLabelSet x.2 ignore = reducedLabelSet z.2 ignore ∧
        m.1 < x.1 := List.mem_filter.mpr ⟨hy, decide_eq_true ⟨hyz, by omega⟩⟩
    cases hl : items.filter fun x => reducedLabelSet x.2 ignore = reducedLabelSet z.2 ignore ∧
        m.1 < x.1 with
    | nil =>
      rw [hl] at hxl
      cases hxl
    | cons w rest =>
      rw [hl] at hcount hxl hyl
      have hrest : rest = [] := List.length_eq_zero_iff.mp (by simpa using hcount)
      subst hrest
      rw [List.mem_singleton.mp hxl, List.mem_singleton.mp hyl]

/-- No bucket's bouts depend on the order of the inputs. -/
theorem boutStats_of_loneChallengers {items items' : List (Int × LabelSet)} (hn : items.Nodup)
    (hperm : List.Perm items' items) (hlone : LoneChallengers ignore items) :
    boutStats (buckets ignore items') = boutStats (buckets ignore items) := by
  have hbouts : ∀ k ∈ bucketKeys ignore items,
      List.Perm (boutsOf ignore items' k) (boutsOf ignore items k) := by
    intro k hk
    obtain ⟨z, hz, rfl, hlow⟩ := exists_lowest hk
    have hords : List.Perm _ ((items.filter fun x =>
        reducedLabelSet x.2 ignore = reducedLabelSet z.2 ignore).map Prod.fst) :=
      ordinals_perm hperm (reducedLabelSet z.2 ignore)
    have hone := (loneChallengers_iff hn).mp hlone z hz hlow
    have hmem : z.1 ∈ (items.filter fun x =>
        reducedLabelSet x.2 ignore = reducedLabelSet z.2 ignore).map Prod.fst :=
      List.mem_map_of_mem (List.mem_filter.mpr ⟨hz, decide_eq_true rfl⟩)
    have hle : ∀ o ∈ (items.filter fun x =>
        reducedLabelSet x.2 ignore = reducedLabelSet z.2 ignore).map Prod.fst, z.1 ≤ o := by
      intro o ho
      obtain ⟨x, hx, rfl⟩ := List.mem_map.mp ho
      obtain ⟨hx, hxz⟩ := List.mem_filter.mp hx
      exact hlow x hx (of_decide_eq_true hxz)
    have h := contests_perm hmem hle hone
    have h' := contests_perm (hords.mem_iff.mpr hmem) (fun o ho => hle o (hords.mem_iff.mp ho))
      (hords.countP_eq _ ▸ hone)
    exact h'.trans (((hords.erase z.1).map _).trans h.symm)
  have hkeys : List.Perm (bucketKeys ignore items') (bucketKeys ignore items) :=
    bucketKeys_perm hperm
  rw [boutStats_buckets, boutStats_buckets]
  apply DedupStats.ext
  · refine ((hkeys.map _).sum_eq).trans (congrArg List.sum (List.map_congr_left fun k hk => ?_))
    exact (hbouts k hk).length_eq
  · funext q
    refine ((hkeys.map _).sum_eq).trans (congrArg List.sum (List.map_congr_left fun k hk => ?_))
    exact (hbouts k hk).count_eq q

/-- The bouts won by no more than `t`, over all buckets. -/
theorem sum_countP_boutsOf {items items' : List (Int × LabelSet)} (hperm : List.Perm items' items)
    (hstats : boutStats (buckets ignore items') = boutStats (buckets ignore items)) (t : Int) :
    ((bucketKeys ignore items).map fun k =>
        (boutsOf ignore items' k).countP fun q => q.1 ≤ t).sum =
      ((bucketKeys ignore items).map fun k =>
        (boutsOf ignore items k).countP fun q => q.1 ≤ t).sum := by
  have hkeys : List.Perm (bucketKeys ignore items') (bucketKeys ignore items) :=
    bucketKeys_perm hperm
  have hcount : ∀ q, ((bucketKeys ignore items).flatMap (boutsOf ignore items')).count q =
      ((bucketKeys ignore items).flatMap (boutsOf ignore items)).count q := by
    intro q
    rw [boutStats_buckets, boutStats_buckets] at hstats
    have hq := congrFun (congrArg DedupStats.pairs hstats) q
    simp only at hq
    rw [(hkeys.map _).sum_eq] at hq
    rw [List.count_flatMap, List.count_flatMap]
    exact hq
  have hbouts := List.perm_iff_count.mpr hcount
  have htotal := hbouts.countP_eq fun q => decide (q.1 ≤ t)
  rwa [List.countP_flatMap, List.countP_flatMap] at htotal

/-- If reading by ascending and by descending ordinals records the same, no challenger could have
been beaten by another. -/
theorem loneChallengers_of_boutStats {asc desc : List (Int × LabelSet)} (hn : asc.Nodup)
    (hasc : asc.Pairwise fun x y => x.1 ≤ y.1) (hdesc : desc.Pairwise fun x y => y.1 ≤ x.1)
    (hperm : List.Perm desc asc)
    (hstats : boutStats (buckets ignore desc) = boutStats (buckets ignore asc)) :
    LoneChallengers ignore asc := by
  have hsortedAsc : ∀ k, ((asc.filter fun x => reducedLabelSet x.2 ignore = k).map
      Prod.fst).Pairwise fun o o' => o ≤ o' :=
    fun k => List.pairwise_map.mpr (hasc.sublist List.filter_sublist)
  have hsortedDesc : ∀ k, ((desc.filter fun x => reducedLabelSet x.2 ignore = k).map
      Prod.fst).Pairwise fun o o' => o' ≤ o :=
    fun k => List.pairwise_map.mpr (hdesc.sublist List.filter_sublist)
  have hkeysNodup : (bucketKeys ignore asc).Nodup := nodup_group _
  -- the lowest wins in no bucket more bouts, read by descending ordinals
  have heach : ∀ t, ∀ k ∈ bucketKeys ignore asc,
      (boutsOf ignore desc k).countP (fun q => q.1 ≤ t) =
        (boutsOf ignore asc k).countP fun q => q.1 ≤ t := by
    intro t k hk
    have hsum := sum_countP_boutsOf hperm hstats t
    rw [← List.sum_toFinset _ hkeysNodup, ← List.sum_toFinset _ hkeysNodup] at hsum
    have hle : ∀ k ∈ (bucketKeys ignore asc).toFinset,
        (boutsOf ignore desc k).countP (fun q => q.1 ≤ t) ≤
          (boutsOf ignore asc k).countP fun q => q.1 ≤ t :=
      fun k _ => countP_contests_le (hsortedAsc k) (ordinals_perm hperm k) t
    exact (Finset.sum_eq_sum_iff_of_le hle).mp hsum k (List.mem_toFinset.mpr hk)
  rw [loneChallengers_iff hn]
  intro z hz hlow
  have hkey : reducedLabelSet z.2 ignore ∈ bucketKeys ignore asc :=
    mem_bucketKeys.mpr ⟨z, hz, rfl⟩
  refine countP_lt_le_one_of_eq (hsortedAsc _) (hsortedDesc _) (ordinals_perm hperm _)
    (List.mem_map_of_mem (List.mem_filter.mpr ⟨hz, decide_eq_true rfl⟩)) ?_ (heach z.1 _ hkey)
  intro o ho
  obtain ⟨x, hx, rfl⟩ := List.mem_map.mp ho
  obtain ⟨hx, hxz⟩ := List.mem_filter.mp hx
  exact hlow x hx (of_decide_eq_true hxz)

/-! ## The inputs in another order -/

theorem taggedSets_perm {inputs inputs' : List OrdinalLabelSets} (h : List.Perm inputs' inputs) :
    List.Perm (taggedSets inputs') (taggedSets inputs) := h.flatMap_right _

theorem pairwise_taggedSets {R : Int → Int → Prop} (hrefl : ∀ o, R o o)
    {inputs : List OrdinalLabelSets}
    (h : inputs.Pairwise fun a b => R a.ordinal b.ordinal) :
    (taggedSets inputs).Pairwise fun x y => R x.1 y.1 := by
  rw [taggedSets, List.pairwise_flatMap]
  refine ⟨fun input _ => ?_, h.imp fun {a b} hab x hx y hy => ?_⟩
  · rw [List.pairwise_map]
    exact List.pairwise_of_forall fun _ _ => hrefl _
  · obtain ⟨ls, _, rfl⟩ := List.mem_map.mp hx
    obtain ⟨ls', _, rfl⟩ := List.mem_map.mp hy
    exact hab

/-- The label sets that hold the buckets do not depend on the order of the inputs. -/
theorem holders_perm {inputs inputs' : List OrdinalLabelSets}
    (hord : (inputs.map OrdinalLabelSets.ordinal).Nodup) (hperm : List.Perm inputs' inputs) :
    List.Perm ((buckets ignore (taggedSets inputs')).map fun p => p.2.1)
      ((buckets ignore (taggedSets inputs)).map fun p => p.2.1) := by
  have hchampion : ∀ k,
      champion ((taggedSets inputs').filter fun x => reducedLabelSet x.2 ignore = k) =
        champion ((taggedSets inputs).filter fun x => reducedLabelSet x.2 ignore = k) := by
    intro k
    refine champion_congr fun o => ?_
    rw [List.filter_comm, List.filter_comm _ _ (taggedSets inputs)]
    congr 1
    exact filter_blocks_perm ((hperm.map _).nodup_iff.mpr hord) hperm o
  have hholders : ∀ inputs : List OrdinalLabelSets,
      ((buckets ignore (taggedSets inputs)).map fun p => p.2.1) =
        (bucketKeys ignore (taggedSets inputs)).filterMap fun k =>
          champion ((taggedSets inputs).filter fun x => reducedLabelSet x.2 ignore = k) := by
    intro inputs
    rw [bucketKeys, List.filterMap_map, ← List.filterMap_eq_map]
    refine List.filterMap_congr fun p hp => ?_
    exact ((mem_buckets.mp (show (p.1, p.2) ∈ _ from hp)).1).symm
  rw [hholders, hholders]
  simp only [hchampion]
  exact (bucketKeys_perm (taggedSets_perm hperm)).filterMap _

/-- **The order of the backends.** `/series` returns the same label sets for every order. It records
the same collisions for every order if and only if no bucket has two label sets above its lowest
ordinal. -/
theorem mergeLabelSetsDeterministic_perm_iff (hfull : Function.Injective fingerprint)
    (hfast : Function.Injective fastFingerprint) (inputs : List OrdinalLabelSets)
    (ignore : List String) (hord : (inputs.map OrdinalLabelSets.ordinal).Nodup)
    (hsets : (inputs.flatMap OrdinalLabelSets.sets).Nodup) :
    let merge := fun inputs =>
      mergeLabelSetsDeterministic fingerprint fastFingerprint inputs ignore
    (∀ inputs', List.Perm inputs' inputs → List.Perm (merge inputs').1 (merge inputs).1) ∧
      ((∀ inputs', List.Perm inputs' inputs →
          List.Perm (merge inputs').1 (merge inputs).1 ∧ (merge inputs').2 = (merge inputs).2) ↔
        LoneChallengers ignore (taggedSets inputs)) := by
  intro merge
  have hn : (taggedSets inputs).Nodup := by
    rw [← map_snd_taggedSets] at hsets
    exact hsets.of_map
  have hmerge : ∀ inputs', List.Perm inputs' inputs → merge inputs' =
      ((buckets ignore (taggedSets inputs')).map fun p => p.2.1.2,
        boutStats (buckets ignore (taggedSets inputs'))) := by
    intro inputs' hperm
    exact mergeLabelSetsDeterministic_eq hfull hfast ((hperm.flatMap_right _).nodup_iff.mpr hsets)
  have hresult : ∀ inputs', List.Perm inputs' inputs →
      List.Perm (merge inputs').1 (merge inputs).1 := by
    intro inputs' hperm
    rw [hmerge inputs' hperm, hmerge inputs (List.Perm.refl _)]
    simpa [Function.comp_def] using (holders_perm hord hperm).map Prod.snd
  refine ⟨hresult, ?_⟩
  constructor
  · intro h
    have hascPerm : List.Perm (sortBy OrdinalLabelSets.ordinal inputs) inputs := sortBy_perm _ _
    have hdescPerm : List.Perm (sortBy OrdinalLabelSets.ordinal inputs).reverse inputs :=
      (List.reverse_perm _).trans hascPerm
    have hsorted : (sortBy OrdinalLabelSets.ordinal inputs).Pairwise
        fun a b => a.ordinal ≤ b.ordinal := sortBy_pairwise _ _
    have hasc := pairwise_taggedSets (R := fun o o' => o ≤ o') (fun _ => le_rfl) hsorted
    have hdesc := pairwise_taggedSets (R := fun o o' => o' ≤ o) (fun _ => le_rfl)
      (List.pairwise_reverse.mpr hsorted)
    have hstats := (h _ hdescPerm).2.trans (h _ hascPerm).2.symm
    rw [hmerge _ hdescPerm, hmerge _ hascPerm] at hstats
    have hperm : List.Perm (taggedSets (sortBy OrdinalLabelSets.ordinal inputs).reverse)
        (taggedSets (sortBy OrdinalLabelSets.ordinal inputs)) :=
      taggedSets_perm (List.reverse_perm _)
    have hlone := loneChallengers_of_boutStats
      ((taggedSets_perm hascPerm).nodup_iff.mpr hn) hasc hdesc hperm hstats
    intro x hx y hy z hz
    have hmem := fun w => (taggedSets_perm hascPerm).mem_iff (a := w)
    exact hlone x ((hmem x).mpr hx) y ((hmem y).mpr hy) z ((hmem z).mpr hz)
  · intro hlone inputs' hperm
    refine ⟨hresult inputs' hperm, ?_⟩
    rw [hmerge inputs' hperm, hmerge inputs (List.Perm.refl _)]
    exact boutStats_of_loneChallengers hn (taggedSets_perm hperm) hlone

end

/-- The label set of the series under the external label `dc`. -/
def groupSet (dc : String) : LabelSet := (groupSeries dc).labels.toLabelSet

/-- Two groups that both have the series. -/
theorem mergeLabelSetsDeterministic_perm_iff_two_groups :
    (mergeLabelSetsDeterministic id id [⟨1, [groupSet "us"]⟩, ⟨0, [groupSet "eu"]⟩] ["dc"]).2 =
      (mergeLabelSetsDeterministic id id [⟨0, [groupSet "eu"]⟩, ⟨1, [groupSet "us"]⟩] ["dc"]).2 := by
  have h := mergeLabelSetsDeterministic_perm_iff Function.injective_id Function.injective_id
    [⟨0, [groupSet "eu"]⟩, ⟨1, [groupSet "us"]⟩] ["dc"] (by decide) (by decide)
  exact (h.2.mpr (by decide) _ (List.Perm.swap _ _ _)).2

/-- Three groups that all have the series. Read by descending ordinals, the last one loses against the
second before that loses against the first. -/
theorem mergeLabelSetsDeterministic_three_groups :
    List.Perm [⟨2, [groupSet "ap"]⟩, ⟨1, [groupSet "us"]⟩, ⟨0, [groupSet "eu"]⟩]
        ([⟨0, [groupSet "eu"]⟩, ⟨1, [groupSet "us"]⟩, ⟨2, [groupSet "ap"]⟩] :
          List OrdinalLabelSets) ∧
      (mergeLabelSetsDeterministic id id
        [⟨2, [groupSet "ap"]⟩, ⟨1, [groupSet "us"]⟩, ⟨0, [groupSet "eu"]⟩] ["dc"]).2.pairs (1, 2) =
          1 ∧
      (mergeLabelSetsDeterministic id id
        [⟨0, [groupSet "eu"]⟩, ⟨1, [groupSet "us"]⟩, ⟨2, [groupSet "ap"]⟩] ["dc"]).2.pairs (1, 2) =
          0 := by
  refine ⟨?_, by decide, by decide⟩
  exact List.reverse_perm ([⟨0, [groupSet "eu"]⟩, ⟨1, [groupSet "us"]⟩, ⟨2, [groupSet "ap"]⟩] :
    List OrdinalLabelSets)

end Promclient
end Proxeus
