import Proxeus.Promclient.CrossGroupDedupSpec

/-!
# Promclient.EmptyBackend

What one more backend without series does to the dedup. The sets of several backends go through the
buckets, to which it has nothing to add. A set on its own is passed through whole, and a second
backend, with or without series, sends it through the buckets: there, two series of the one group
that share a reduced label set are duplicates of each other, and a set that ends in an error has no
series at all.
-/

namespace Proxeus
namespace Promclient

open Lib Promhttputil

/-- The backend `ordinal`, which returned no series. -/
def emptySet (ordinal : Int) (warnings : Finset String) : OrdinalSeriesSet :=
  ⟨ordinal, ⟨[], warnings, none⟩⟩

section

variable {Key : Type*} [DecidableEq Key] {bytesWithoutLabels : Labels → List String → Key}

theorem dedupSets_insert_emptySet (ignore : List String) (fillGaps : Bool) (ordinal : Int)
    (warnings : Finset String) (st : DedupState Key) (before after : List OrdinalSeriesSet) :
    dedupSets bytesWithoutLabels ignore fillGaps st
        (before ++ emptySet ordinal warnings :: after) =
      dedupSets bytesWithoutLabels ignore fillGaps st (before ++ after) := by
  induction before generalizing st with
  | nil => rfl
  | cons set before ih =>
    rw [List.cons_append, List.cons_append, dedupSets, dedupSets]
    cases set.ss.err with
    | some err => rfl
    | none => exact ih _

/-- The empty set has no part in what is read. -/
theorem tagged_insert_emptySet (before after : List OrdinalSeriesSet) (ordinal : Int)
    (warnings : Finset String) :
    tagged (before ++ emptySet ordinal warnings :: after) = tagged (before ++ after) := by
  simp [tagged, emptySet]

variable [Prometheus] {sortSlice : List DedupBucketMember → List DedupBucketMember}
  {sets : List OrdinalSeriesSet} {ignore : List String} {opts : DedupGapOpts} {stats : DedupStats}

/-- The buckets give every series back exactly if there is one bucket for each. -/
theorem dedupSeriesSetsFillGapsBy_eq_iff (hlen : sets.length ≠ 1)
    (herr : ∀ set ∈ sets, set.ss.err = none) :
    ((dedupSeriesSetsFillGapsBy sortSlice bytesWithoutLabels sets ignore opts stats).1.series =
        (tagged sets).map Prod.snd ∧
      (dedupSeriesSetsFillGapsBy sortSlice bytesWithoutLabels sets ignore opts stats).2 = stats) ↔
      ((tagged sets).map fun x => bytesWithoutLabels x.2.labels ignore).Nodup := by
  rw [dedupSeriesSetsFillGapsBy_eq hlen herr]
  constructor
  · rintro ⟨hseries, -⟩
    have hcount := congrArg List.length hseries
    simp only [List.length_map] at hcount
    exact length_group_eq_iff.mp hcount
  · intro hn
    rw [slots, group_of_nodup hn]
    refine ⟨?_, DedupStats.ext ?_ (funext fun q => ?_)⟩
    · simp only [List.map_map]
      refine List.map_congr_left fun x _ => ?_
      show settledBy sortSlice opts (newSlot opts.fillGaps x) = x.2
      rw [settledBy, if_neg]
      · rfl
      · cases hfill : opts.fillGaps <;> simp [newSlot, memberOf]
    · simp only [List.map_map]
      rw [List.sum_eq_zero]
      · rfl
      · intro n hn
        obtain ⟨x, -, rfl⟩ := List.mem_map.mp hn
        rfl
    · simp only [List.map_map]
      rw [List.sum_eq_zero]
      · rfl
      · intro n hn
        obtain ⟨x, -, rfl⟩ := List.mem_map.mp hn
        exact ite_self _

/-- The set `set` on its own, and among `sets`, whose others have nothing to be read. -/
theorem dedupSeriesSetsFillGapsBy_single_iff {set : OrdinalSeriesSet} (hlen : sets.length ≠ 1)
    (hset : set ∈ sets) (hothers : ∀ set' ∈ sets, set' ≠ set → set'.ss.err = none)
    (htagged : tagged sets = tagged [set]) :
    ((dedupSeriesSetsFillGapsBy sortSlice bytesWithoutLabels sets ignore opts stats).1.series =
        set.ss.series ∧
      (dedupSeriesSetsFillGapsBy sortSlice bytesWithoutLabels sets ignore opts stats).2 = stats) ↔
      (set.ss.series.map fun s => bytesWithoutLabels s.labels ignore).Nodup ∧
        (set.ss.err = none ∨ set.ss.series = []) := by
  by_cases herr : set.ss.err = none
  · have hall : ∀ set' ∈ sets, set'.ss.err = none := by
      intro set' hset'
      by_cases heq : set' = set
      · rw [heq, herr]
      · exact hothers set' hset' heq
    have hone : tagged sets = set.ss.series.map fun s => (set.ordinal, s) :=
      htagged.trans (List.append_nil _)
    have hseries : (tagged sets).map Prod.snd = set.ss.series := by
      rw [hone, List.map_map]
      exact List.map_id _
    have hkeys : (tagged sets).map (fun x => bytesWithoutLabels x.2.labels ignore) =
        set.ss.series.map fun s => bytesWithoutLabels s.labels ignore := by
      rw [hone, List.map_map]
      rfl
    rw [← hkeys, ← hseries, dedupSeriesSetsFillGapsBy_eq_iff hlen hall]
    simp only [herr, true_or, and_true]
  · obtain ⟨err, h⟩ : ∃ err, dedupSeriesSetsFillGapsBy sortSlice bytesWithoutLabels sets ignore
        opts stats = (⟨[], ∅, some err⟩, stats) := dedupSeriesSetsFillGapsBy_of_err hlen hset herr
    rw [h]
    constructor
    · rintro ⟨hseries, -⟩
      have hnil : set.ss.series = [] := hseries.symm
      rw [hnil]
      exact ⟨List.nodup_nil, Or.inr rfl⟩
    · rintro ⟨-, herr' | hnil⟩
      · exact absurd herr' herr
      · exact ⟨hnil.symm, rfl⟩

/-- **One more backend without series.** Wherever it stands among the sets and whatever its
ordinal, it leaves the emitted series, their samples and the statistics as they are, unless the
others are a single set which has two series in one bucket, or series and an error. -/
theorem dedupSeriesSetsFillGaps_emptySet (before after : List OrdinalSeriesSet) (ordinal : Int)
    (warnings : Finset String) (ignore : List String) (opts : DedupGapOpts) (stats : DedupStats) :
    let without := dedupSeriesSetsFillGaps bytesWithoutLabels (before ++ after) ignore opts stats
    let added := dedupSeriesSetsFillGaps bytesWithoutLabels
      (before ++ emptySet ordinal warnings :: after) ignore opts stats
    (added.1.series = without.1.series ∧ added.2 = without.2) ↔
      ∀ set, before ++ after = [set] →
        (set.ss.series.map fun s => bytesWithoutLabels s.labels ignore).Nodup ∧
          (set.ss.err = none ∨ set.ss.series = []) := by
  intro without added
  have hadd : (before ++ emptySet ordinal warnings :: after).length =
      (before ++ after).length + 1 := by
    simp only [List.length_append, List.length_cons]
    omega
  rcases Nat.lt_trichotomy (before ++ after).length 1 with hlen | hlen | hlen
  · -- the one that is added is passed through
    obtain ⟨rfl, rfl⟩ : before = [] ∧ after = [] :=
      List.append_eq_nil_iff.mp (List.length_eq_zero_iff.mp (by omega))
    exact iff_of_true ⟨rfl, rfl⟩ nofun
  · obtain ⟨set, hset⟩ := List.length_eq_one_iff.mp hlen
    have hwithout : without = (set.ss, stats) := by
      show dedupSeriesSetsFillGaps bytesWithoutLabels (before ++ after) ignore opts stats = _
      rw [hset]
      rfl
    have hmem : ∀ set', set' ∈ before ++ emptySet ordinal warnings :: after ↔
        set' = set ∨ set' = emptySet ordinal warnings := by
      intro set'
      rw [← List.mem_singleton (a := set'), ← hset]
      simp only [List.mem_append, List.mem_cons]
      tauto
    rw [hwithout, hset]
    simp only [List.cons.injEq, and_true, forall_eq']
    refine dedupSeriesSetsFillGapsBy_single_iff (by omega) ((hmem set).mpr (Or.inl rfl)) ?_ ?_
    · intro set' hset' hne
      rw [((hmem set').mp hset').resolve_left hne]
      rfl
    · rw [tagged_insert_emptySet, hset]
  · have hsame : added = without := by
      show dedupSeriesSetsFillGapsBy _ _ _ _ _ _ = dedupSeriesSetsFillGapsBy _ _ _ _ _ _
      rw [dedupSeriesSetsFillGapsBy_of_length (by omega),
        dedupSeriesSetsFillGapsBy_of_length (by omega), dedupSets_insert_emptySet]
    refine iff_of_true ⟨by rw [hsame], by rw [hsame]⟩ fun set hset => ?_
    rw [hset, List.length_singleton] at hlen
    exact absurd hlen (lt_irrefl 1)

end

/-- A group that scrapes one metric twice, under two values of a label the dedup ignores. -/
def twoJobsSet : OrdinalSeriesSet :=
  ⟨0, ⟨[⟨(Labels.empty.set "job" "a").set "dc" "eu", []⟩,
    ⟨(Labels.empty.set "job" "a").set "dc" "us", []⟩], ∅, none⟩⟩

/-- Whether the other backend is up decides how many series there are. -/
theorem dedupSeriesSetsFillGaps_emptySet_two_series :
    let dedup (sets : List OrdinalSeriesSet) := @dedupSeriesSetsFillGaps prometheusWithoutBuckets
      _ _ (fun l names => (l.del names).pairs) sets ["dc"] ⟨false, 0⟩ DedupStats.empty
    (dedup [twoJobsSet]).1.series.length = 2 ∧ (dedup [twoJobsSet]).2.collisions = 0 ∧
      (dedup [twoJobsSet, emptySet 1 ∅]).1.series.length = 1 ∧
      (dedup [twoJobsSet, emptySet 1 ∅]).2.collisions = 1 := by
  decide

end Promclient
end Proxeus
