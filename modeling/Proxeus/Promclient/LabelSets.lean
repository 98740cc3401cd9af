import Proxeus.Promclient.DedupLead

/-!
# Promclient.LabelSets

The dedup of `/series` in `label.go`. It works on label sets, knows them by their fingerprints and
records a collision when it sees it; the dedup of queries works on series, and attributes the
collisions at its end. Over backends in the order of their ordinals the two go through the same
states (`Agrees`). They differ where one backend has answered: a query passes its series through.
-/

namespace Proxeus
namespace Promclient

open Lib Promhttputil

/-- `OrdinalLabelSets` -/
structure OrdinalLabelSets where
  ordinal : Int
  sets : List LabelSet

/-- `entry` of `mergeLabelSetsDeterministic`. -/
structure LabelSetEntry where
  idx : Nat
  ordinal : Int

/-- The variables of its loop. -/
structure LabelSetState (Fingerprint : Type*) where
  stats : DedupStats
  fullFPIndex : Fingerprint → Option Nat
  reducedFPEntry : Fingerprint → Option LabelSetEntry
  result : List LabelSet

/-- The copy of `ls` without the keys in `ignore`. -/
def reducedLabelSet (ls : LabelSet) (ignore : List String) : LabelSet :=
  ⟨ls.pairs.filter fun p => !ignore.contains p.name, ls.ascending.filter _⟩

section

variable {Fingerprint : Type*} [DecidableEq Fingerprint]
  (fingerprint fastFingerprint : LabelSet → Fingerprint)

def reducedFingerprintLS (ls : LabelSet) (ignore : List String) : Fingerprint :=
  fastFingerprint (reducedLabelSet ls ignore)

/-- One turn of the inner loop: `ls`, of the input `ord`. -/
def mergeLabelSet (ignore : List String) (st : LabelSetState Fingerprint) (ord : Int)
    (ls : LabelSet) : LabelSetState Fingerprint :=
  let fullFP := fingerprint ls
  if (st.fullFPIndex fullFP).isSome then st
  else
    let redFP := reducedFingerprintLS fastFingerprint ls ignore
    match st.reducedFPEntry redFP with
    | some existing =>
      if ord < existing.ordinal then
        let oldLS := st.result.getD existing.idx ls
        { stats := st.stats.record ord existing.ordinal
          fullFPIndex := Function.update
            (Function.update st.fullFPIndex (fingerprint oldLS) none) fullFP (some existing.idx)
          reducedFPEntry := Function.update st.reducedFPEntry redFP
            (some { existing with ordinal := ord })
          result := st.result.set existing.idx ls }
      else { st with stats := st.stats.record existing.ordinal ord }
    | none =>
      let idx := st.result.length
      { st with
        fullFPIndex := Function.update st.fullFPIndex fullFP (some idx)
        reducedFPEntry := Function.update st.reducedFPEntry redFP (some ⟨idx, ord⟩)
        result := st.result ++ [ls] }

def mergeLabelSetsDeterministic (inputs : List OrdinalLabelSets) (ignore : List String) :
    List LabelSet × DedupStats :=
  let st := inputs.foldl
    (fun st input => input.sets.foldl
      (fun st ls => mergeLabelSet fingerprint fastFingerprint ignore st input.ordinal ls) st)
    (⟨DedupStats.empty, fun _ => none, fun _ => none, []⟩ : LabelSetState Fingerprint)
  (st.result, st.stats)

end

/-! ## The two dedups in step -/

/-- The label sets a backend returns from `/series` for the series `set`. -/
def labelSetsOf (set : OrdinalSeriesSet) : OrdinalLabelSets :=
  ⟨set.ordinal, set.ss.series.map fun s => s.labels.toLabelSet⟩

theorem toLabelSet_injective : Function.Injective Labels.toLabelSet := fun _ _ h =>
  Labels.ext_pairs (congrArg LabelSet.pairs h)

theorem reducedLabelSet_eq_iff {l l' : Labels} {ignore : List String} :
    reducedLabelSet l.toLabelSet ignore = reducedLabelSet l'.toLabelSet ignore ↔
      l.del ignore = l'.del ignore :=
  ⟨fun h => toLabelSet_injective h, fun h => congrArg Labels.toLabelSet h⟩

/-- What the slots of the query dedup have recorded. -/
def recorded {Key : Type*} (slots : List (Key × Slot)) : DedupStats where
  collisions := (slots.map fun p => p.2.losers.length).sum
  pairs q := (slots.map fun p => if q.1 = p.2.ordinal then p.2.losers.count q.2 else 0).sum

section

variable {Key Fingerprint : Type*} [DecidableEq Key] [DecidableEq Fingerprint]
  {bytesWithoutLabels : Labels → List String → Key}
  {fingerprint fastFingerprint : LabelSet → Fingerprint} {ignore : List String}

/-- The state of one dedup next to the slots of the other. -/
structure Agrees (bytesWithoutLabels : Labels → List String → Key)
    (fingerprint fastFingerprint : LabelSet → Fingerprint) (ignore : List String)
    (slots : List (Key × Slot)) (st : LabelSetState Fingerprint) : Prop where
  result : st.result = slots.map fun p => p.2.lbls.toLabelSet
  full : ∀ ls, (st.fullFPIndex (fingerprint ls)).isSome ↔ ls ∈ st.result
  reduced : ∀ k b, (k, b) ∈ slots →
    bytesWithoutLabels b.lbls ignore = k ∧ ∃ idx, st.reducedFPEntry
      (reducedFingerprintLS fastFingerprint b.lbls.toLabelSet ignore) = some ⟨idx, b.ordinal⟩
  absent : ∀ l : Labels, bytesWithoutLabels l ignore ∉ slots.map Prod.fst →
    st.reducedFPEntry (reducedFingerprintLS fastFingerprint l.toLabelSet ignore) = none
  stats : st.stats = recorded slots

omit [DecidableEq Key] in
theorem recorded_append (slots slots' : List (Key × Slot)) :
    recorded (slots ++ slots') =
      ⟨(recorded slots).collisions + (recorded slots').collisions,
        fun q => (recorded slots).pairs q + (recorded slots').pairs q⟩ := by
  simp only [recorded, List.map_append, List.sum_append]

omit [DecidableEq Key] in
theorem recorded_newSlot (slots : List (Key × Slot)) (k : Key) (x : Tagged) :
    recorded (slots ++ [(k, newSlot false x)]) = recorded slots := by
  rw [recorded_append]
  simp [recorded, newSlot]

omit [DecidableEq Key] in
/-- One more loser in a slot is one more collision. -/
theorem recorded_loser (pre post : List (Key × Slot)) (k : Key) (b b' : Slot) (o : Int)
    (hord : b'.ordinal = b.ordinal) (hlosers : b'.losers = b.losers ++ [o]) :
    recorded (pre ++ (k, b') :: post) = (recorded (pre ++ (k, b) :: post)).record b.ordinal o := by
  apply DedupStats.ext
  · simp only [recorded, DedupStats.record, List.map_append, List.map_cons, List.sum_append,
      List.sum_cons, hlosers, List.length_append, List.length_singleton]
    omega
  · funext q
    simp only [recorded, DedupStats.record, List.map_append, List.map_cons, List.sum_append,
      List.sum_cons, hlosers, hord, List.count_append]
    by_cases hw : q.1 = b.ordinal
    · by_cases hl : q.2 = o
      · rw [if_pos hw, if_pos hw, if_pos (Prod.ext hw hl), hl, List.count_singleton_self]
        omega
      · rw [if_pos hw, if_pos hw, if_neg fun heq => hl (congrArg Prod.snd heq),
          List.count_singleton, if_neg (by simpa using Ne.symm hl)]
        omega
    · rw [if_neg hw, if_neg hw, if_neg fun heq => hw (congrArg Prod.fst heq)]

omit [DecidableEq Key] [DecidableEq Fingerprint] in
/-- A label set of the result is that of the slot of its key. -/
theorem Agrees.mem_result {slots : List (Key × Slot)} {st : LabelSetState Fingerprint}
    (h : Agrees bytesWithoutLabels fingerprint fastFingerprint ignore slots st) {l : Labels} :
    l.toLabelSet ∈ st.result ↔ ∃ b, (bytesWithoutLabels l ignore, b) ∈ slots ∧ b.lbls = l := by
  rw [h.result, List.mem_map]
  constructor
  · rintro ⟨⟨k, b⟩, hb, hl⟩
    have hlbls : b.lbls = l := toLabelSet_injective hl
    rw [← hlbls, (h.reduced k b hb).1]
    exact ⟨b, hb, rfl⟩
  · rintro ⟨b, hb, rfl⟩
    exact ⟨_, hb, rfl⟩

theorem mergeLabelSet_agrees (hsorted : ignore.Pairwise (· ≤ ·))
    (hbytes : EncodesWithout bytesWithoutLabels) (hfull : Function.Injective fingerprint)
    (hfast : Function.Injective fastFingerprint) {slots : List (Key × Slot)}
    (hn : (slots.map Prod.fst).Nodup) {st : LabelSetState Fingerprint}
    (h : Agrees bytesWithoutLabels fingerprint fastFingerprint ignore slots st) (x : Tagged)
    (hord : ∀ p ∈ slots, p.2.ordinal ≤ x.1) :
    Agrees bytesWithoutLabels fingerprint fastFingerprint ignore
      (insertWith (fun x : Tagged => bytesWithoutLabels x.2.labels ignore) (newSlot false)
        (addSlot false) x slots)
      (mergeLabelSet fingerprint fastFingerprint ignore st x.1 x.2.labels.toLabelSet) := by
  have hred : ∀ l l' : Labels,
      reducedFingerprintLS fastFingerprint l.toLabelSet ignore =
          reducedFingerprintLS fastFingerprint l'.toLabelSet ignore ↔
        bytesWithoutLabels l ignore = bytesWithoutLabels l' ignore := fun l l' => by
    rw [hbytes ignore hsorted, ← reducedLabelSet_eq_iff]
    exact hfast.eq_iff
  by_cases hk : bytesWithoutLabels x.2.labels ignore ∈ slots.map Prod.fst
  · obtain ⟨pre, b, post, rfl, hpre⟩ := exists_slot hk
    have hb : (bytesWithoutLabels x.2.labels ignore, b) ∈
        pre ++ (bytesWithoutLabels x.2.labels ignore, b) :: post :=
      List.mem_append_right _ List.mem_cons_self
    rw [insertWith_append (by exact hpre)]
    by_cases hlbls : b.lbls = x.2.labels
    · -- an exact duplicate of the winner
      have hmem : x.2.labels.toLabelSet ∈ st.result := h.mem_result.mpr ⟨b, hb, hlbls⟩
      rw [addSlot, if_pos hlbls, mergeLabelSet, if_pos ((h.full _).mpr hmem)]
      exact h
    · have hnot : x.2.labels.toLabelSet ∉ st.result := by
        rw [h.mem_result]
        rintro ⟨b', hb', heq⟩
        have hsame : b' = b := by
          have := List.inj_on_of_nodup_map hn hb' hb rfl
          exact congrArg Prod.snd this
        exact hlbls (hsame ▸ heq)
      obtain ⟨hkey, idx, hidx⟩ := h.reduced _ b hb
      have hfp := (hred b.lbls x.2.labels).mpr hkey
      have hlt : ¬x.1 < b.ordinal := not_lt.mpr (hord _ hb)
      rw [addSlot, if_neg hlbls, if_neg hlt, mergeLabelSet,
        if_neg fun hsome => hnot ((h.full _).mp hsome)]
      rw [hfp] at hidx
      simp only [hidx, if_neg hlt]
      refine ⟨?_, h.full, ?_, ?_, ?_⟩
      · rw [h.result, List.map_append, List.map_append, List.map_cons, List.map_cons]
      · intro k' b' hb'
        rcases List.mem_append.mp hb' with hb' | hb'
        · exact h.reduced k' b' (List.mem_append_left _ hb')
        · rcases List.mem_cons.mp hb' with heq | hb'
          · cases heq
            exact ⟨hkey, idx, hfp ▸ hidx⟩
          · exact h.reduced k' b' (List.mem_append_right _ (List.mem_cons_of_mem _ hb'))
      · intro l hl
        apply h.absent
        rw [List.map_append, List.map_cons] at hl ⊢
        exact hl
      · rw [h.stats]
        symm
        apply recorded_loser
        · rfl
        · rfl
  · have hnot : x.2.labels.toLabelSet ∉ st.result := by
      rw [h.mem_result]
      rintro ⟨b', hb', -⟩
      exact hk (List.mem_map_of_mem (f := Prod.fst) hb')
    rw [insertWith_of_notMem (by exact hk), mergeLabelSet, if_neg fun hsome => hnot ((h.full _).mp hsome)]
    simp only [h.absent _ hk]
    refine ⟨?_, fun ls => ?_, ?_, ?_, ?_⟩
    · rw [h.result, List.map_append]
      rfl
    · simp only [Function.update_apply, List.mem_append, List.mem_singleton]
      by_cases hls : ls = x.2.labels.toLabelSet
      · simp [hls]
      · rw [if_neg fun heq => hls (hfull heq), h.full]
        simp [hls]
    · intro k' b' hb'
      rcases List.mem_append.mp hb' with hb' | hb'
      · obtain ⟨hkey, idx, hidx⟩ := h.reduced k' b' hb'
        refine ⟨hkey, idx, ?_⟩
        simp only
        rw [Function.update_of_ne, hidx]
        rw [Ne, hred, hkey]
        rintro rfl
        exact hk (List.mem_map_of_mem (f := Prod.fst) hb')
      · rw [List.mem_singleton] at hb'
        cases hb'
        exact ⟨rfl, st.result.length, Function.update_self _ _ _⟩
    · intro l hl
      rw [List.map_append, List.mem_append, not_or, List.map_singleton, List.mem_singleton] at hl
      simp only
      rw [Function.update_of_ne, h.absent l hl.1]
      rw [Ne, hred]
      exact hl.2
    · rw [recorded_newSlot, h.stats]

omit [DecidableEq Key] [DecidableEq Fingerprint] in
/-- Where all series of a bucket have the same labels, nothing is lost. -/
theorem losers_foldSlot {items : List Tagged}
    (hsame : ∀ x ∈ items, ∀ y ∈ items, x.2.labels = y.2.labels) {b : Slot}
    (h : foldSlot (newSlot false) (addSlot false) items = some b) : b.losers = [] := by
  induction items using List.reverseRecOn generalizing b with
  | nil => cases h
  | append_singleton items x ih =>
    rw [foldSlot_concat, Option.some.injEq] at h
    cases hprev : foldSlot (newSlot false) (addSlot false) items with
    | none =>
      rw [hprev] at h
      exact h ▸ rfl
    | some b' =>
      rw [hprev] at h
      simp only at h
      obtain ⟨y, hy, hleads⟩ := foldSlot_leads false hprev
      have heq : b'.lbls = x.2.labels :=
        hleads.lbls.trans (hsame y (List.mem_append_left _ (lead_mem hy)) x (by simp))
      rw [addSlot, if_pos heq] at h
      exact h ▸ ih (fun x hx y hy => hsame x (List.mem_append_left _ hx) y
        (List.mem_append_left _ hy)) hprev

/-- Read in the order of the ordinals, the two dedups are in step to the end. -/
theorem mergeLabelSetsDeterministic_agrees (hsorted : ignore.Pairwise (· ≤ ·))
    (hbytes : EncodesWithout bytesWithoutLabels) (hfull : Function.Injective fingerprint)
    (hfast : Function.Injective fastFingerprint) {sets : List OrdinalSeriesSet}
    (hord : sets.Pairwise fun a b => a.ordinal ≤ b.ordinal) :
    ∃ st, Agrees bytesWithoutLabels fingerprint fastFingerprint ignore
        (slots bytesWithoutLabels ignore false sets) st ∧
      mergeLabelSetsDeterministic fingerprint fastFingerprint (sets.map labelSetsOf) ignore =
        (st.result, st.stats) := by
  let init : LabelSetState Fingerprint := ⟨DedupStats.empty, fun _ => none, fun _ => none, []⟩
  let step (st : LabelSetState Fingerprint) (x : Tagged) : LabelSetState Fingerprint :=
    mergeLabelSet fingerprint fastFingerprint ignore st x.1 x.2.labels.toLabelSet
  -- the nested loops are one loop over the tagged series
  have hloop : ∀ (st : LabelSetState Fingerprint) (sets : List OrdinalSeriesSet),
      (sets.map labelSetsOf).foldl (fun st input => input.sets.foldl
        (fun st ls => mergeLabelSet fingerprint fastFingerprint ignore st input.ordinal ls) st) st =
      (tagged sets).foldl step st := by
    intro st sets
    induction sets generalizing st with
    | nil => rfl
    | cons set sets ih =>
      rw [List.map_cons, List.foldl_cons, ih, tagged_cons, List.foldl_append, List.foldl_map,
        labelSetsOf, List.foldl_map]
  have hrun : ∀ items : List Tagged, items.Pairwise (fun x y => x.1 ≤ y.1) →
      Agrees bytesWithoutLabels fingerprint fastFingerprint ignore
        (group (fun x : Tagged => bytesWithoutLabels x.2.labels ignore) (newSlot false)
          (addSlot false) items) (items.foldl step init) := by
    intro items hitems
    induction items using List.reverseRecOn with
    | nil => exact ⟨rfl, fun _ => by simp [init], nofun, fun _ _ => rfl, rfl⟩
    | append_singleton items x ih =>
      rw [List.pairwise_append] at hitems
      rw [List.foldl_concat, group_concat]
      refine mergeLabelSet_agrees hsorted hbytes hfull hfast (nodup_group _) (ih hitems.1) x ?_
      rintro ⟨k, b⟩ hb
      obtain ⟨y, hy, hleads⟩ := foldSlot_leads false (mem_group.mp hb)
      exact hleads.ordinal ▸ hitems.2.2 y (List.mem_filter.mp (lead_mem hy)).1 x (by simp)
  refine ⟨(tagged sets).foldl step init, hrun _ (pairwise_tagged hord), ?_⟩
  rw [mergeLabelSetsDeterministic, hloop]

variable [Prometheus]

/-- **The two dedups agree.** Over backends in the order of their ordinals, `/series` has the label
sets of the series a query has, and records the same collisions, unless there is one backend and it
has two series of different labels in one bucket. -/
theorem mergeLabelSetsDeterministic_iff (hsorted : ignore.Pairwise (· ≤ ·))
    (hbytes : EncodesWithout bytesWithoutLabels) (hfull : Function.Injective fingerprint)
    (hfast : Function.Injective fastFingerprint) {sets : List OrdinalSeriesSet}
    (hord : sets.Pairwise fun a b => a.ordinal < b.ordinal)
    (herr : ∀ set ∈ sets, set.ss.err = none) :
    let merged := mergeLabelSetsDeterministic fingerprint fastFingerprint (sets.map labelSetsOf)
      ignore
    let queried := dedupSeriesSets bytesWithoutLabels sets ignore DedupStats.empty
    ((∀ ls, ls ∈ merged.1 ↔ ls ∈ queried.1.series.map fun s => s.labels.toLabelSet) ∧
        merged.2 = queried.2) ↔
      ∀ set, sets = [set] → ∀ s ∈ set.ss.series, ∀ s' ∈ set.ss.series,
        s.labels.del ignore = s'.labels.del ignore → s.labels = s'.labels := by
  intro merged queried
  obtain ⟨st, hst, hmerged⟩ := mergeLabelSetsDeterministic_agrees hsorted hbytes hfull hfast
    (hord.imp fun h => h.le)
  have hmerged' : merged = (st.result, st.stats) := hmerged
  rw [hmerged']
  by_cases hlen : sets.length = 1
  · obtain ⟨set, rfl⟩ := List.length_eq_one_iff.mp hlen
    have hqueried : queried = (set.ss, DedupStats.empty) := rfl
    have htagged : ∀ x, x ∈ tagged [set] ↔ x.1 = set.ordinal ∧ x.2 ∈ set.ss.series := by
      rintro ⟨o, s⟩
      rw [tagged_cons]
      simp [tagged, eq_comm, and_comm]
    rw [hqueried]
    simp only [List.cons.injEq, and_true, forall_eq']
    constructor
    · rintro ⟨hls, -⟩ s hs s' hs' hdel
      have hmem : ∀ s ∈ set.ss.series, s.labels.toLabelSet ∈ st.result := fun s hs =>
        (hls _).mpr (List.mem_map_of_mem hs)
      obtain ⟨b, hb, hlbls⟩ := hst.mem_result.mp (hmem s hs)
      obtain ⟨b', hb', hlbls'⟩ := hst.mem_result.mp (hmem s' hs')
      -- both have the labels of the one slot
      rw [(hbytes ignore hsorted _ _).mpr hdel] at hb
      have hslot : b = b' :=
        congrArg Prod.snd (List.inj_on_of_nodup_map (nodup_group _) hb hb' rfl)
      rw [← hlbls, ← hlbls', hslot]
    · intro hsame
      have hbucket : ∀ k, ∀ x ∈ (tagged [set]).filter (fun x =>
            bytesWithoutLabels x.2.labels ignore = k), ∀ y ∈ (tagged [set]).filter (fun x =>
            bytesWithoutLabels x.2.labels ignore = k), x.2.labels = y.2.labels := by
        intro k x hx y hy
        rw [List.mem_filter, htagged, decide_eq_true_eq] at hx hy
        exact hsame x.2 hx.1.2 y.2 hy.1.2
          ((hbytes ignore hsorted _ _).mp (hx.2.trans hy.2.symm))
      refine ⟨fun ls => ?_, ?_⟩
      · rw [List.mem_map]
        constructor
        · intro hls
          rw [hst.result] at hls
          obtain ⟨⟨k, b⟩, hb, rfl⟩ := List.mem_map.mp hls
          obtain ⟨x, hx, hleads⟩ := foldSlot_leads false (mem_group.mp hb)
          have hx' := lead_mem hx
          rw [List.mem_filter, htagged] at hx'
          exact ⟨x.2, hx'.1.2, congrArg Labels.toLabelSet hleads.lbls.symm⟩
        · rintro ⟨s, hs, rfl⟩
          have hx : (set.ordinal, s) ∈ tagged [set] := (htagged _).mpr ⟨rfl, hs⟩
          have hk : bytesWithoutLabels s.labels ignore ∈
              (slots bytesWithoutLabels ignore false [set]).map Prod.fst :=
            mem_keys_group.mpr ⟨_, hx, rfl⟩
          obtain ⟨⟨k, b⟩, hb, hkey⟩ := List.mem_map.mp hk
          simp only at hkey
          subst hkey
          obtain ⟨y, hy, hleads⟩ := foldSlot_leads false (mem_group.mp hb)
          refine hst.mem_result.mpr ⟨b, hb, hleads.lbls.trans ?_⟩
          exact hbucket _ y (lead_mem hy) (set.ordinal, s)
            (List.mem_filter.mpr ⟨hx, decide_eq_true rfl⟩)
      · have hlosers : ∀ p ∈ slots bytesWithoutLabels ignore false [set], p.2.losers = [] :=
          fun p hp => losers_foldSlot (hbucket p.1) (mem_group.mp hp)
        have hrec : recorded (slots bytesWithoutLabels ignore false [set]) = DedupStats.empty := by
          apply DedupStats.ext
          · refine List.sum_eq_zero fun n hn => ?_
            obtain ⟨p, hp, rfl⟩ := List.mem_map.mp hn
            rw [hlosers p hp, List.length_nil]
          · funext q
            refine List.sum_eq_zero fun n hn => ?_
            obtain ⟨p, hp, rfl⟩ := List.mem_map.mp hn
            rw [hlosers p hp, List.count_nil, ite_self]
        rw [hst.stats, hrec]
  · have hqueried : queried =
        (⟨(slots bytesWithoutLabels ignore false sets).map fun p => p.2.series, ∅, none⟩,
          recorded (slots bytesWithoutLabels ignore false sets)) := by
      show dedupSeriesSetsFillGapsBy _ _ _ _ _ _ = _
      rw [dedupSeriesSetsFillGapsBy_eq hlen herr]
      simp only [DedupStats.empty, Nat.zero_add]
      rfl
    rw [hqueried, hst.stats, hst.result]
    refine iff_of_true ⟨fun ls => ?_, rfl⟩ ?_
    · rw [List.map_map]
      refine iff_of_eq (congrArg (ls ∈ ·) ?_)
      refine List.map_congr_left fun p hp => congrArg Labels.toLabelSet ?_
      obtain ⟨v, -, hleads⟩ := foldSlot_leads false (mem_group.mp hp)
      exact hleads.lbls.trans (congrArg Series.labels hleads.series.symm)
    · rintro set rfl
      exact absurd rfl hlen

end

/-- One series of the group with the external label `dc`. -/
def groupSeries (dc : String) : Series := ⟨(Labels.empty.set "job" "a").set "dc" dc, []⟩

/-- Two groups that both have the series. -/
theorem mergeLabelSetsDeterministic_iff_two_groups :
    let sets : List OrdinalSeriesSet :=
      [⟨0, ⟨[groupSeries "eu"], ∅, none⟩⟩, ⟨1, ⟨[groupSeries "us"], ∅, none⟩⟩]
    (mergeLabelSetsDeterministic id id (sets.map labelSetsOf) ["dc"]).2 =
      (@dedupSeriesSets prometheusWithoutBuckets _ _ (fun l names => (l.del names).pairs) sets
        ["dc"] DedupStats.empty).2 := by
  intro sets
  have h := @mergeLabelSetsDeterministic_iff _ _ _ _ (fun l names => (l.del names).pairs) id id
    ["dc"] prometheusWithoutBuckets (by decide)
    (fun _ _ l l' => ⟨Labels.ext_pairs, congrArg fun m : Labels => m.pairs⟩)
    Function.injective_id Function.injective_id sets (by decide) (by decide)
  exact (h.mpr (by simp [sets])).2

/-- One group has answered, with the metric under two values of the label: `/series` lists one of
the two series a query returns. -/
theorem mergeLabelSetsDeterministic_one_group :
    let sets : List OrdinalSeriesSet := [⟨0, ⟨[groupSeries "eu", groupSeries "us"], ∅, none⟩⟩]
    let merged := mergeLabelSetsDeterministic id id (sets.map labelSetsOf) ["dc"]
    let queried := @dedupSeriesSets prometheusWithoutBuckets _ _
      (fun l names => (l.del names).pairs) sets ["dc"] DedupStats.empty
    (groupSeries "us").labels.toLabelSet ∉ merged.1 ∧ groupSeries "us" ∈ queried.1.series ∧
      merged.2.collisions = 1 ∧ queried.2.collisions = 0 := by
  decide

end Promclient
end Proxeus
