import Proxeus.Promclient.MultiAPISpec
import Proxeus.Lib.Grouping

/-!
# Promclient.Exemplars

`MultiAPI.QueryExemplars` in `multi_api.go`, the one fan-out with a loop of its own. It has a channel
for each API and reads them by ordinal, so an answer that arrives early waits for its turn
(`selectChan_arrivals`). What is left is the shared loop of a fan-out without partial responses
(`exemplarsLoop_eq`), whatever the fan-out is set to: `queryExemplars_meets_iff` says which answers
make no difference.
-/

namespace Proxeus
namespace Promclient

open Lib

/-- `v1.Exemplar` -/
structure Exemplar where
  labels : LabelSet
  value : SampleValue
  timestamp : Int
deriving DecidableEq

/-- `v1.ExemplarQueryResult` -/
structure ExemplarQueryResult where
  seriesLabels : LabelSet
  exemplars : List Exemplar
deriving DecidableEq

/-! ## The loop -/

/-- What an API sends on its channel, `chanResult`. The call has no warnings. -/
abbrev ExemplarResult := RawResult (List ExemplarQueryResult)

/-- The variables of the loop. -/
structure ExemplarVars where
  outstandingRequests : Counter
  successMap : Counter
  merged : List (Fingerprint × ExemplarQueryResult)
  lastError : Option BackendError

def appendExemplars (existing qr : ExemplarQueryResult) : ExemplarQueryResult :=
  { existing with exemplars := existing.exemplars ++ qr.exemplars }

section

variable (fingerprint : LabelSet → Fingerprint)

/-- The loop over the results of one API. -/
def mergeExemplars (merged : List (Fingerprint × ExemplarQueryResult))
    (v : List ExemplarQueryResult) : List (Fingerprint × ExemplarQueryResult) :=
  v.foldl (fun merged qr =>
    insertWith (fun qr => fingerprint qr.seriesLabels) id appendExemplars qr merged) merged

variable (m : MultiAPI)

/-- The branch of an answer; the left side is a return. -/
def receiveExemplars (v : ExemplarVars) (ret : ExemplarResult) : BackendError ⊕ ExemplarVars :=
  let ls := m.ls ret.ordinal
  let outstandingRequests := v.outstandingRequests.add ls (-1)
  match ret.value with
  | .error err =>
    if outstandingRequests.get ls + v.successMap.get ls < m.requiredCount then .inl err
    else .inr { v with outstandingRequests, lastError := some err }
  | .ok results =>
    .inr { v with
      outstandingRequests
      successMap := v.successMap.add ls 1
      merged := mergeExemplars fingerprint v.merged results }

/-- After the last turn: the results, which Go returns in any order, and the error. -/
def finishExemplars (v : ExemplarVars) : List ExemplarQueryResult × Option BackendError :=
  if v.outstandingRequests.any fun p => v.successMap.get p.1 < m.requiredCount then
    ([], fetchError v.lastError)
  else (v.merged.map Prod.snd, none)

/-- The select of turn `i`: what it receives, what has arrived by then, and the events to come. -/
def selectChan {T : Type*} (i : Nat) :
    List (RawResult T) → List (Event T) → Option (Event T × List (RawResult T) × List (Event T))
  | arrived, [] =>
    (arrived.find? fun ret => ret.ordinal = i).map fun ret => (.response ret, arrived, [])
  | arrived, .ctxDone err :: events => some (.ctxDone err, arrived, events)
  | arrived, .response ret :: events =>
    match arrived.find? fun ret => ret.ordinal = i with
    | some found => some (.response found, arrived, .response ret :: events)
    | none => selectChan i (ret :: arrived) events

/-- The turns left, from turn `i` on. -/
def exemplarsLoop : Nat → Nat → ExemplarVars → List ExemplarResult →
    List (Event (List ExemplarQueryResult)) →
    Option (List ExemplarQueryResult × Option BackendError)
  | 0, _, v, _, _ => some (finishExemplars m v)
  | n + 1, i, v, arrived, events =>
    match selectChan i arrived events with
    | none => none
    | some (.ctxDone err, _, _) => some ([], some err)
    | some (.response ret, arrived, events) =>
      match receiveExemplars fingerprint m v ret with
      | .inl err => some ([], some err)
      | .inr v => exemplarsLoop n (i + 1) v arrived events

def initExemplarVars : ExemplarVars where
  outstandingRequests := m.apiFingerprints.foldl (fun outstanding fp => outstanding.add fp 1) []
  successMap := []
  merged := []
  lastError := none

/-- `QueryExemplars` -/
def queryExemplars (events : List (Event (List ExemplarQueryResult))) :
    Option (List ExemplarQueryResult × Option BackendError) :=
  exemplarsLoop fingerprint m m.apiFingerprints.length 0 (initExemplarVars m) [] events

end

/-! ## The channels -/

theorem find?_ordinal {T : Type*} {rets : List (RawResult T)} {ret : RawResult T}
    (hn : (rets.map RawResult.ordinal).Nodup) (hmem : ret ∈ rets) :
    (rets.find? fun r => r.ordinal = ret.ordinal) = some ret := by
  cases hfind : rets.find? fun r => r.ordinal = ret.ordinal with
  | none => simpa using List.find?_eq_none.mp hfind ret hmem
  | some found =>
    have hord : found.ordinal = ret.ordinal := by simpa using List.find?_some hfind
    rw [List.inj_on_of_nodup_map hn (List.mem_of_find?_eq_some hfind) hmem hord]

/-- The order of arrival does not show. -/
theorem selectChan_arrivals {T : Type*} {arrived coming : List (RawResult T)} {ret : RawResult T}
    (hn : ((arrived ++ coming).map RawResult.ordinal).Nodup) (hmem : ret ∈ arrived ++ coming) :
    ∃ arrived' coming', selectChan ret.ordinal arrived (coming.map .response) =
        some (.response ret, arrived', coming'.map .response) ∧
      List.Perm (arrived' ++ coming') (arrived ++ coming) := by
  induction coming generalizing arrived with
  | nil =>
    rw [List.append_nil] at hn hmem
    refine ⟨arrived, [], ?_, List.Perm.refl _⟩
    simp [selectChan, find?_ordinal hn hmem]
  | cons next coming ih =>
    by_cases hin : ret ∈ arrived
    · have hleft : (arrived.map RawResult.ordinal).Nodup := by
        rw [List.map_append] at hn
        exact hn.of_append_left
      refine ⟨arrived, next :: coming, ?_, List.Perm.refl _⟩
      simp [selectChan, find?_ordinal hleft hin]
    · have hperm : List.Perm (next :: arrived ++ coming) (arrived ++ next :: coming) :=
        List.perm_middle.symm
      have hnone : (arrived.find? fun r => r.ordinal = ret.ordinal) = none := by
        rw [List.find?_eq_none]
        intro r hr
        simp only [decide_eq_true_eq]
        intro hord
        have hsame := List.inj_on_of_nodup_map hn (List.mem_append_left _ hr) hmem hord
        exact hin (hsame ▸ hr)
      obtain ⟨arrived', coming', hselect, hp⟩ :=
        ih ((hperm.map _).nodup_iff.mpr hn) (hperm.mem_iff.mpr hmem)
      refine ⟨arrived', coming', ?_, hp.trans hperm⟩
      simp [selectChan, hnone, hselect]

/-! ## The shared loop -/

/-- The fan-out without partial responses. -/
def MultiAPI.strict (m : MultiAPI) : MultiAPI := { m with partialResponse := false }

theorem abortOnError_strict (m : MultiAPI) (ls : Fingerprint) (outstanding success : Counter) :
    m.strict.abortOnError ls outstanding success =
      decide (outstanding.get ls + success.get ls < m.requiredCount) := rfl

theorem missingRequired_strict (m : MultiAPI) (outstanding success : Counter) :
    m.strict.missingRequired outstanding success =
      outstanding.any fun p => success.get p.1 < m.requiredCount := rfl

section

variable {fingerprint : LabelSet → Fingerprint} {m : MultiAPI}

/-- What `QueryExemplars` makes of the end of the shared loop. -/
def exemplarsOf (fingerprint : LabelSet → Fingerprint) :
    Outcome (List ExemplarQueryResult) → List ExemplarQueryResult × Option BackendError
  | .merged results _ =>
    ((mergeExemplars fingerprint [] (results.flatMap Gathered.value)).map Prod.snd, none)
  | .aborted err _ => ([], some err)
  | .missing err _ => ([], err)
  | .cancelled err _ => ([], some err)

/-- The variables of the two loops before turn `i`. -/
structure SameTurn (fingerprint : LabelSet → Fingerprint) (i : Nat) (v : ExemplarVars)
    (w : GatherVars (List ExemplarQueryResult)) : Prop where
  outstanding : v.outstandingRequests = w.outstanding
  success : v.successMap = w.success
  lastError : v.lastError = w.lastError
  merged : v.merged = mergeExemplars fingerprint [] (w.results.flatMap Gathered.value)
  ascending : Ascending Gathered.ordinal w.results
  below : ∀ g ∈ w.results, g.ordinal < i

theorem receiveExemplars_step {v : ExemplarVars} {w : GatherVars (List ExemplarQueryResult)}
    {ret : ExemplarResult} (h : SameTurn fingerprint ret.ordinal v w) :
    (∃ err warnings, receiveExemplars fingerprint m v ret = .inl err ∧
        receive m.strict w ret = .inl (.aborted err warnings)) ∨
      ∃ v' w', receiveExemplars fingerprint m v ret = .inr v' ∧
        receive m.strict w ret = .inr w' ∧ SameTurn fingerprint (ret.ordinal + 1) v' w' := by
  have hls : m.strict.ls ret.ordinal = m.ls ret.ordinal := rfl
  cases hvalue : ret.value with
  | error err =>
    simp only [receiveExemplars, receive, hvalue, hls, abortOnError_strict, h.outstanding,
      h.success, decide_eq_true_eq]
    by_cases habort : (w.outstanding.add (m.ls ret.ordinal) (-1)).get (m.ls ret.ordinal) +
        w.success.get (m.ls ret.ordinal) < m.requiredCount
    · rw [if_pos habort, if_pos habort]
      exact .inl ⟨err, _, rfl, rfl⟩
    · rw [if_neg habort, if_neg habort]
      refine .inr ⟨_, _, rfl, rfl, ?_⟩
      exact ⟨rfl, rfl, rfl, h.merged, h.ascending, fun g hg => Nat.lt_succ_of_lt (h.below g hg)⟩
  | ok results =>
    simp only [receiveExemplars, receive, hvalue, hls]
    refine .inr ⟨_, _, rfl, rfl, ?_⟩
    have hasc : Ascending Gathered.ordinal (w.results ++ [⟨results, ret.ordinal⟩]) := by
      refine List.pairwise_append.mpr ⟨h.ascending, List.pairwise_singleton _ _, ?_⟩
      intro g hg g' hg'
      rw [List.mem_singleton] at hg'
      exact hg' ▸ h.below g hg
    refine ⟨by rw [h.outstanding], by rw [h.success], h.lastError, ?_, hasc, ?_⟩
    · rw [h.merged]
      simp [mergeExemplars, List.flatMap_append, List.foldl_append]
    · intro g hg
      rcases List.mem_append.mp hg with hg | hg
      · exact Nat.lt_succ_of_lt (h.below g hg)
      · rw [List.mem_singleton] at hg
        subst hg
        exact Nat.lt_succ_self _

theorem finishExemplars_eq {i : Nat} {v : ExemplarVars}
    {w : GatherVars (List ExemplarQueryResult)} (h : SameTurn fingerprint i v w) :
    finishExemplars m v = exemplarsOf fingerprint (finish m.strict w) := by
  have hsort : sortGathered w.results = w.results :=
    h.ascending.sortBy_eq_of_perm (List.Perm.refl _)
  rw [finishExemplars, finish, h.outstanding, h.success, h.lastError, h.merged, hsort,
    missingRequired_strict]
  cases w.outstanding.any fun p => w.success.get p.1 < m.requiredCount with
  | true => rfl
  | false => rfl

/-- The loop of `QueryExemplars` is the shared loop, on the answers by ordinal. -/
theorem exemplarsLoop_eq (apiName : String) {i : Nat} {rest arrived coming : List ExemplarResult}
    {v : ExemplarVars} {w : GatherVars (List ExemplarQueryResult)}
    (h : SameTurn fingerprint i v w)
    (hrest : rest.map RawResult.ordinal = List.range' i rest.length)
    (hn : ((arrived ++ coming).map RawResult.ordinal).Nodup)
    (hmem : ∀ r ∈ rest, r ∈ arrived ++ coming) :
    exemplarsLoop fingerprint m rest.length i v arrived (coming.map .response) =
      (gatherLoop m.strict apiName rest.length w (rest.map .response)).map
        (exemplarsOf fingerprint) := by
  induction rest generalizing i v w arrived coming with
  | nil =>
    simp only [List.length_nil, exemplarsLoop, gatherLoop, Option.map_some]
    rw [finishExemplars_eq h]
  | cons ret rest ih =>
    simp only [List.map_cons, List.length_cons, List.range'_succ, List.cons.injEq] at hrest
    obtain ⟨hord, hrest⟩ := hrest
    subst hord
    obtain ⟨arrived', coming', hselect, hp⟩ := selectChan_arrivals hn (hmem ret List.mem_cons_self)
    have hn' := (hp.map RawResult.ordinal).nodup_iff.mpr hn
    have hmem' : ∀ r ∈ rest, r ∈ arrived' ++ coming' := fun r hr =>
      hp.mem_iff.mpr (hmem r (List.mem_cons_of_mem _ hr))
    rcases receiveExemplars_step (m := m) h with
      ⟨err, warnings, hreceive, hshared⟩ | ⟨v', w', hreceive, hshared, h'⟩
    · simp only [List.length_cons, List.map_cons, exemplarsLoop, gatherLoop, hselect, hreceive,
        hshared, Option.map_some, exemplarsOf]
    · simp only [List.length_cons, List.map_cons, exemplarsLoop, gatherLoop, hselect, hreceive,
        hshared]
      exact ih h' hrest hn' hmem'

theorem queryExemplars_eq {answers arrivals : List ExemplarResult}
    (hans : answers.map RawResult.ordinal = List.range m.apiFingerprints.length)
    (hp : List.Perm arrivals answers) (apiName : String) :
    queryExemplars fingerprint m (arrivals.map .response) =
      (gather m.strict apiName (answers.map .response)).map (exemplarsOf fingerprint) := by
  have hlen : m.apiFingerprints.length = answers.length := by
    rw [← List.length_map RawResult.ordinal, hans, List.length_range]
  have hinit : SameTurn fingerprint 0 (initExemplarVars m) (initVars m.strict) :=
    ⟨rfl, rfl, rfl, rfl, ascending_nil, fun g hg => by cases hg⟩
  have hrest : answers.map RawResult.ordinal = List.range' 0 answers.length := by
    rw [hans, hlen, List.range_eq_range']
  have hn : (([] ++ arrivals).map RawResult.ordinal).Nodup :=
    (hp.map _).nodup_iff.mpr (hans ▸ List.nodup_range)
  have hmem : ∀ r ∈ answers, r ∈ [] ++ arrivals := fun r hr => hp.mem_iff.mpr hr
  have hstrict : m.strict.apiFingerprints.length = answers.length := hlen
  rw [queryExemplars, gather, hlen, hstrict]
  exact exemplarsLoop_eq apiName hinit hrest hn hmem

end

/-! ## The merged results -/

/-- `out` has the exemplars of `results` under one entry for each label set. -/
structure MergedBySeries (results out : List ExemplarQueryResult) : Prop where
  distinct : (out.map ExemplarQueryResult.seriesLabels).Nodup
  labels : ∀ ls, ls ∈ out.map ExemplarQueryResult.seriesLabels ↔
    ls ∈ results.map ExemplarQueryResult.seriesLabels
  exemplars : ∀ qr ∈ out, qr.exemplars =
    (results.filter fun x => x.seriesLabels = qr.seriesLabels).flatMap
      ExemplarQueryResult.exemplars

theorem MergedBySeries.perm {results out out' : List ExemplarQueryResult}
    (h : MergedBySeries results out) (hp : List.Perm out' out) : MergedBySeries results out' where
  distinct := (hp.map _).nodup_iff.mpr h.distinct
  labels ls := (hp.map _).mem_iff.trans (h.labels ls)
  exemplars qr hqr := h.exemplars qr (hp.mem_iff.mp hqr)

theorem foldl_appendExemplars (existing : ExemplarQueryResult) (v : List ExemplarQueryResult) :
    v.foldl appendExemplars existing =
      { existing with
        exemplars := existing.exemplars ++ v.flatMap ExemplarQueryResult.exemplars } := by
  induction v generalizing existing with
  | nil => simp
  | cons qr v ih =>
    rw [List.foldl_cons, ih]
    simp [appendExemplars]

/-- The slot of a fingerprint, once fingerprints tell the label sets apart. -/
theorem mem_mergeExemplars {fingerprint : LabelSet → Fingerprint}
    {results : List ExemplarQueryResult}
    (hfp : ∀ x ∈ results, ∀ y ∈ results,
      fingerprint x.seriesLabels = fingerprint y.seriesLabels → x.seriesLabels = y.seriesLabels)
    {p : Fingerprint × ExemplarQueryResult} (hmem : p ∈ mergeExemplars fingerprint [] results) :
    p.1 = fingerprint p.2.seriesLabels ∧ (∃ x ∈ results, x.seriesLabels = p.2.seriesLabels) ∧
      p.2.exemplars = (results.filter fun x => x.seriesLabels = p.2.seriesLabels).flatMap
        ExemplarQueryResult.exemplars := by
  have hslot : foldSlot id appendExemplars
      (results.filter fun x => fingerprint x.seriesLabels = p.1) = some p.2 := mem_group.mp hmem
  cases hfilter : results.filter fun x => fingerprint x.seriesLabels = p.1 with
  | nil =>
    rw [hfilter] at hslot
    cases hslot
  | cons first rest =>
    have hfirst : first ∈ results ∧ fingerprint first.seriesLabels = p.1 := by
      have hin : first ∈ results.filter fun x => fingerprint x.seriesLabels = p.1 :=
        hfilter ▸ List.mem_cons_self
      simpa using hin
    have hsame : results.filter (fun x => x.seriesLabels = first.seriesLabels) = first :: rest := by
      rw [← hfilter]
      refine List.filter_congr fun x hx => ?_
      rw [decide_eq_decide, ← hfirst.2]
      exact ⟨fun h => congrArg fingerprint h, hfp x hx first hfirst.1⟩
    rw [hfilter] at hslot
    simp only [foldSlot, id, foldl_appendExemplars, Option.some.injEq] at hslot
    rw [← hslot]
    refine ⟨hfirst.2.symm, ⟨first, hfirst.1, rfl⟩, ?_⟩
    simp only [hsame, List.flatMap_cons]

theorem mergeExemplars_merged {fingerprint : LabelSet → Fingerprint}
    {results : List ExemplarQueryResult}
    (hfp : ∀ x ∈ results, ∀ y ∈ results,
      fingerprint x.seriesLabels = fingerprint y.seriesLabels → x.seriesLabels = y.seriesLabels) :
    MergedBySeries results ((mergeExemplars fingerprint [] results).map Prod.snd) where
  distinct := by
    have hn : ((mergeExemplars fingerprint [] results).map Prod.fst).Nodup := nodup_group results
    have hkeys : (mergeExemplars fingerprint [] results).map Prod.fst =
        (((mergeExemplars fingerprint [] results).map Prod.snd).map
          ExemplarQueryResult.seriesLabels).map fingerprint := by
      rw [List.map_map, List.map_map]
      exact List.map_congr_left fun p hp => (mem_mergeExemplars hfp hp).1
    rw [hkeys] at hn
    exact hn.of_map
  labels ls := by
    constructor
    · intro h
      rw [List.map_map] at h
      obtain ⟨p, hp, rfl⟩ := List.mem_map.mp h
      obtain ⟨x, hx, hls⟩ := (mem_mergeExemplars hfp hp).2.1
      exact List.mem_map.mpr ⟨x, hx, hls⟩
    · intro h
      obtain ⟨x, hx, rfl⟩ := List.mem_map.mp h
      have hkey : fingerprint x.seriesLabels ∈
          (mergeExemplars fingerprint [] results).map Prod.fst :=
        mem_keys_group.mpr ⟨x, hx, rfl⟩
      obtain ⟨p, hp, hpx⟩ := List.mem_map.mp hkey
      obtain ⟨hp1, ⟨y, hy, hyp⟩, -⟩ := mem_mergeExemplars hfp hp
      have hls : x.seriesLabels = y.seriesLabels :=
        hfp x hx y hy (by rw [← hpx, hp1, hyp])
      rw [List.map_map]
      exact List.mem_map.mpr ⟨p, hp, (hls.trans hyp).symm⟩
  exemplars qr hqr := by
    obtain ⟨p, hp, rfl⟩ := List.mem_map.mp hqr
    exact (mem_mergeExemplars hfp hp).2.2

/-! ## Against the other fan-outs -/

/-- Partial responses make no difference to the answers. -/
def NoBucketShort {T : Type*} (m : MultiAPI) (answers : List (RawResult T)) : Prop :=
  m.partialResponse = true →
    (∃ ret ∈ answers, ret.ok = true) ∧
        (∀ fp ∈ m.apiFingerprints, m.requiredCount ≤ succeeded m fp answers) ∨
      (∀ ret ∈ answers, ret.ok = false) ∧ 0 < m.requiredCount

theorem succeeds_strict {T : Type*} {m : MultiAPI} {answers : List (RawResult T)} :
    Succeeds m.strict answers ↔
      ∀ fp ∈ m.apiFingerprints, m.requiredCount ≤ succeeded m fp answers := by
  simp only [Succeeds, MultiAPI.strict, Bool.false_eq_true, if_false]
  rfl

theorem succeeds_strict_iff {T : Type*} {m : MultiAPI} (hne : m.apiFingerprints ≠ [])
    {answers : List (RawResult T)} :
    (Succeeds m.strict answers ↔ Succeeds m answers) ↔ NoBucketShort m answers := by
  rw [succeeds_strict, Succeeds, NoBucketShort]
  cases m.partialResponse with
  | false => simp
  | true =>
    simp only [if_true, true_imp_iff]
    by_cases hok : ∃ ret ∈ answers, ret.ok = true
    · have hsome : ¬ ∀ ret ∈ answers, ret.ok = false := by
        intro hall
        obtain ⟨ret, hret, htrue⟩ := hok
        rw [hall ret hret] at htrue
        cases htrue
      simp only [hok, hsome, iff_true, true_and, false_and, or_false]
    · have hnone : ∀ ret ∈ answers, ret.ok = false := by
        intro ret hret
        exact Bool.eq_false_iff.mpr fun htrue => hok ⟨ret, hret, htrue⟩
      have hzero : ∀ fp, succeeded m fp answers = 0 := by
        intro fp
        refine List.countP_eq_zero.mpr fun ret hret => ?_
        simp [hnone ret hret]
      obtain ⟨fp, hfp⟩ := List.exists_mem_of_ne_nil _ hne
      simp only [hok, hzero, iff_false, false_and, false_or, Nat.cast_zero]
      constructor
      · intro h
        refine ⟨hnone, ?_⟩
        by_contra hle
        exact h fun _ _ => not_lt.mp hle
      · intro h hall
        have := hall fp hfp
        omega

/-- **Exemplars.** Whatever the order of arrival, a call that succeeds has merged the successful
answers by series. That it succeeds where the other fan-outs do holds of the answers to which partial
responses make no difference, and of no others. -/
theorem queryExemplars_meets_iff (fingerprint : LabelSet → Fingerprint) (m : MultiAPI)
    (hne : m.apiFingerprints ≠ []) (answers : List ExemplarResult)
    (hans : answers.map RawResult.ordinal = List.range m.apiFingerprints.length)
    (hfp : ∀ x ∈ (successes answers).flatMap Gathered.value,
      ∀ y ∈ (successes answers).flatMap Gathered.value,
      fingerprint x.seriesLabels = fingerprint y.seriesLabels → x.seriesLabels = y.seriesLabels) :
    (∀ arrivals, List.Perm arrivals answers →
      ∃ out err, queryExemplars fingerprint m (arrivals.map .response) = some (out, err) ∧
        (err = none ↔ Succeeds m answers) ∧
        (err = none → ∀ out', List.Perm out' out →
          MergedBySeries ((successes answers).flatMap Gathered.value) out')) ↔
      NoBucketShort m answers := by
  rw [← succeeds_strict_iff hne]
  -- the loop, for each arrival order
  have hrun : ∀ arrivals, List.Perm arrivals answers →
      ∃ out err, queryExemplars fingerprint m (arrivals.map .response) = some (out, err) ∧
        (err = none ↔ Succeeds m.strict answers) ∧
        (err = none → ∀ out', List.Perm out' out →
          MergedBySeries ((successes answers).flatMap Gathered.value) out') := by
    intro arrivals hp
    obtain ⟨hsucc, hfail⟩ := gather_complete (m := m.strict) hans (List.Perm.refl answers)
      "query_exemplars" hne
    rw [queryExemplars_eq hans hp "query_exemplars"]
    by_cases h : Succeeds m.strict answers
    · obtain ⟨w, hw⟩ := hsucc h
      rw [hw]
      exact ⟨_, none, rfl, by simp [h], fun _ out' hp' => (mergeExemplars_merged hfp).perm hp'⟩
    · obtain ⟨err, w, hw | hw⟩ := hfail h
      · rw [hw]
        exact ⟨[], some err, rfl, by simp [h], fun herr => by cases herr⟩
      · rw [hw]
        exact ⟨[], some err, rfl, by simp [h], fun herr => by cases herr⟩
  constructor
  · intro h
    obtain ⟨out, err, hq, herr, -⟩ := h answers (List.Perm.refl _)
    obtain ⟨out', err', hq', herr', -⟩ := hrun answers (List.Perm.refl _)
    rw [hq] at hq'
    cases hq'
    exact herr'.symm.trans herr
  · intro h arrivals hp
    obtain ⟨out, err, hq, herr, hmerged⟩ := hrun arrivals hp
    exact ⟨out, err, hq, herr.trans h, hmerged⟩

/-- Two backends in buckets of their own, with partial responses. -/
def partialGroups : MultiAPI where
  apiFingerprints := [1#64, 2#64]
  requiredCount := 1
  partialResponse := true
  enough fp hfp := by
    have := List.count_pos_iff.mpr hfp
    omega

def oneExemplar (trace : String) : ExemplarQueryResult where
  seriesLabels := ⟨[⟨"job", "api"⟩], by decide⟩
  exemplars := [⟨⟨[⟨"trace_id", trace⟩], List.pairwise_singleton _ _⟩, .zero, 0⟩]

/-- `model.LabelSet.Fingerprint` -/
def fnvLabelSet (ls : LabelSet) : Fingerprint :=
  ls.pairs.foldl
    (fun h l => hashAddByte (hashAdd (hashAddByte (hashAdd h l.name) 255) l.value) 255)
    14695981039346656037#64

/-- Both groups answer, the second one first. -/
theorem queryExemplars_meets_iff_both_answer :
    ∃ out err, queryExemplars fnvLabelSet partialGroups
        [.response ⟨.ok [oneExemplar "b"], ∅, 1⟩, .response ⟨.ok [oneExemplar "a"], ∅, 0⟩] =
          some (out, err) ∧
      (err = none ↔ Succeeds partialGroups
        [⟨.ok [oneExemplar "a"], ∅, 0⟩, ⟨.ok [oneExemplar "b"], ∅, 1⟩]) ∧
      (err = none → ∀ out', List.Perm out' out →
        MergedBySeries [oneExemplar "a", oneExemplar "b"] out') := by
  let answers : List ExemplarResult :=
    [⟨.ok [oneExemplar "a"], ∅, 0⟩, ⟨.ok [oneExemplar "b"], ∅, 1⟩]
  have hshort : NoBucketShort partialGroups answers := by
    intro _
    left
    simp [partialGroups, answers, succeeded, RawResult.ok, MultiAPI.ls]
  exact (queryExemplars_meets_iff fnvLabelSet partialGroups (by simp [partialGroups]) answers
    (by simp [partialGroups, answers, List.range_succ])
    (by simp [answers, successes, RawResult.gathered, oneExemplar])).mpr hshort
    answers.reverse (List.reverse_perm _)

/-- One group is down: the other fan-outs return what the other group has. -/
theorem queryExemplars_group_down :
    (queryExemplars fnvLabelSet partialGroups
        [.response ⟨.error ⟨"down", none⟩, ∅, 0⟩, .response ⟨.ok [oneExemplar "b"], ∅, 1⟩] =
          some ([], some ⟨"down", none⟩)) ∧
      Succeeds (T := List ExemplarQueryResult) partialGroups
        [⟨.error ⟨"down", none⟩, ∅, 0⟩, ⟨.ok [oneExemplar "b"], ∅, 1⟩] := by
  refine ⟨rfl, ?_⟩
  simp [Succeeds, partialGroups, RawResult.ok]

end Promclient
end Proxeus
