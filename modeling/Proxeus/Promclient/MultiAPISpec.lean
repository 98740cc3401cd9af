import Proxeus.Promclient.MultiAPI

/-!
# Promclient.MultiAPISpec

The loops of a fan-out agree with the definition that knows no order. `Succeeds` says which answers
are enough; `GatherInv` is what the counters of the loop are after the responses `seen` and before the
responses `rest`, `receive_step` advances it by one message or aborts where the answers are not
enough, and `gatherLoop_run` carries it to the end. `fanOut_spec` states the outcome for every order
of arrival, and what is handed on when the context ends in between.
-/

namespace Proxeus
namespace Promclient

open Lib

/-! ## Counters -/

namespace Counter

theorem get_add (c : Counter) (k k' : Fingerprint) (d : Int) :
    (c.add k d).get k' = c.get k' + if k = k' then d else 0 := by
  induction c with
  | nil => simp [Counter.add, Counter.get]
  | cons p c ih =>
    obtain ⟨k'', n⟩ := p
    by_cases hk : k'' = k
    · subst hk
      simp only [Counter.add, Counter.get, if_true]
      split <;> simp
    · simp only [Counter.add, Counter.get, if_neg hk]
      by_cases hk' : k'' = k'
      · have hne : k ≠ k' := fun h => hk (hk'.trans h.symm)
        simp [hk', hne]
      · simp [hk', ih]

theorem mem_keys_add (c : Counter) (k k' : Fingerprint) (d : Int) :
    k' ∈ (c.add k d).map Prod.fst ↔ k' = k ∨ k' ∈ c.map Prod.fst := by
  induction c with
  | nil => simp [Counter.add]
  | cons p c ih =>
    obtain ⟨k'', n⟩ := p
    by_cases hk : k'' = k
    · subst hk
      simp [Counter.add]
    · simp only [Counter.add, if_neg hk, List.map_cons, List.mem_cons, ih]
      tauto

theorem length_add_ne_zero (c : Counter) (k : Fingerprint) (d : Int) : (c.add k d).length ≠ 0 := by
  have hmem : k ∈ (c.add k d).map Prod.fst := (c.mem_keys_add k k d).mpr (.inl rfl)
  intro h
  rw [List.length_eq_zero_iff.mp h] at hmem
  cases hmem

end Counter

/-! ## Answers -/

section

variable {T : Type*}

def RawResult.ok (ret : RawResult T) : Bool :=
  match ret.value with
  | .ok _ => true
  | .error _ => false

def RawResult.gathered (ret : RawResult T) : Option (Gathered T) :=
  match ret.value with
  | .ok value => some ⟨value, ret.ordinal⟩
  | .error _ => none

/-- The successful answers. -/
def successes (answers : List (RawResult T)) : List (Gathered T) :=
  answers.filterMap RawResult.gathered

variable (m : MultiAPI)

/-- How many answers the bucket `fp` has. -/
def answered (fp : Fingerprint) (answers : List (RawResult T)) : Nat :=
  answers.countP fun ret => m.ls ret.ordinal = fp

/-- How many of them are successful. -/
def succeeded (fp : Fingerprint) (answers : List (RawResult T)) : Nat :=
  answers.countP fun ret => ret.ok && m.ls ret.ordinal = fp

/-- Whether the answers are enough. -/
def Succeeds (answers : List (RawResult T)) : Prop :=
  if m.partialResponse then ∃ ret ∈ answers, ret.ok = true
  else ∀ fp ∈ m.apiFingerprints, m.requiredCount ≤ succeeded m fp answers

/-- Every backend answers once. -/
def Complete (answers : List (RawResult T)) : Prop :=
  ∀ fp, answered m fp answers = m.apiFingerprints.count fp

variable {m} {answers seen rest : List (RawResult T)} {fp : Fingerprint}

theorem succeeded_le_answered : succeeded m fp answers ≤ answered m fp answers :=
  List.countP_mono_left fun _ _ h => (Bool.and_eq_true _ _ ▸ h).2

theorem succeeded_append :
    succeeded m fp (seen ++ rest) = succeeded m fp seen + succeeded m fp rest :=
  List.countP_append

theorem successes_append :
    successes (seen ++ rest) = successes seen ++ successes rest := List.filterMap_append

theorem successes_eq_nil : successes answers = [] ↔ ∀ ret ∈ answers, ret.ok = false := by
  rw [successes, List.filterMap_eq_nil_iff]
  refine forall₂_congr fun ret _ => ?_
  rw [RawResult.gathered, RawResult.ok]
  cases ret.value <;> simp

theorem Complete.of_ordinals
    (h : answers.map RawResult.ordinal = List.range m.apiFingerprints.length) :
    Complete m answers := by
  intro fp
  have hls : answers.map (fun ret => m.ls ret.ordinal) = m.apiFingerprints := by
    calc answers.map (fun ret => m.ls ret.ordinal)
        = (answers.map RawResult.ordinal).map m.ls := by rw [List.map_map]; rfl
      _ = (List.range m.apiFingerprints.length).map m.ls := by rw [h]
      _ = m.apiFingerprints := by
        refine List.ext_getElem (by simp) fun i hi _ => ?_
        simp only [List.length_map, List.length_range] at hi
        simp [MultiAPI.ls, List.getElem?_eq_getElem hi]
  rw [answered, ← hls, List.count, List.countP_map]
  exact List.countP_congr fun ret _ => by simp

theorem Complete.perm {arrivals : List (RawResult T)} (h : Complete m answers)
    (hp : arrivals.Perm answers) : Complete m arrivals :=
  fun fp => (hp.countP_eq _).trans (h fp)

theorem succeeds_perm {arrivals : List (RawResult T)} (hp : arrivals.Perm answers) :
    Succeeds m arrivals ↔ Succeeds m answers := by
  have hcount : ∀ fp, succeeded m fp arrivals = succeeded m fp answers := fun fp => hp.countP_eq _
  rw [Succeeds, Succeeds]
  split
  · simp only [hp.mem_iff]
  · simp only [hcount]

/-! ## One response -/

/-- The variables of the loop between the responses `seen` and the responses `rest`. -/
structure GatherInv (m : MultiAPI) (seen rest : List (RawResult T)) (v : GatherVars T) : Prop where
  outstanding : ∀ fp, v.outstanding.get fp = answered m fp rest
  success : ∀ fp, v.success.get fp = succeeded m fp seen
  keys : ∀ fp, fp ∈ v.outstanding.map Prod.fst ↔ fp ∈ m.apiFingerprints
  empty : v.success.length = 0 ↔ successes seen = []
  results : v.results = successes seen
  lastError : v.lastError = none → ∀ ret ∈ seen, ret.ok = true

theorem receive_step {v : GatherVars T} {ret : RawResult T}
    (hv : GatherInv m seen (ret :: rest) v) (hall : Complete m (seen ++ ret :: rest)) :
    (∃ v', receive m v ret = .inr v' ∧ GatherInv m (seen ++ [ret]) rest v') ∨
      ∃ err w, receive m v ret = .inl (.aborted err w) ∧ m.partialResponse = false ∧
        ¬ Succeeds m (seen ++ ret :: rest) := by
  have hmem : m.ls ret.ordinal ∈ m.apiFingerprints := by
    have hpos : 0 < answered m (m.ls ret.ordinal) (seen ++ ret :: rest) :=
      List.countP_pos_iff.mpr ⟨ret, by simp, decide_eq_true rfl⟩
    rw [hall] at hpos
    exact List.count_pos_iff.mp hpos
  have hout : ∀ fp, (v.outstanding.add (m.ls ret.ordinal) (-1)).get fp = answered m fp rest := by
    intro fp
    rw [Counter.get_add, hv.outstanding, answered, answered, List.countP_cons]
    by_cases hfp : m.ls ret.ordinal = fp
    · simp [hfp]
    · simp [hfp]
  have hkeys : ∀ fp, fp ∈ (v.outstanding.add (m.ls ret.ordinal) (-1)).map Prod.fst ↔
      fp ∈ m.apiFingerprints := by
    intro fp
    rw [Counter.mem_keys_add, hv.keys]
    exact ⟨fun h => h.elim (fun h => h ▸ hmem) id, .inr⟩
  cases hvalue : ret.value with
  | ok value =>
    have hok : ret.ok = true := by rw [RawResult.ok, hvalue]
    have hgathered : successes [ret] = [⟨value, ret.ordinal⟩] := by
      simp [successes, RawResult.gathered, hvalue]
    refine .inl ⟨_, by rw [receive, hvalue], hout, fun fp => ?_, hkeys, ?_, ?_, ?_⟩
    · rw [Counter.get_add, hv.success, succeeded_append]
      by_cases hfp : m.ls ret.ordinal = fp
      · simp [succeeded, hok, hfp]
      · simp [succeeded, hok, hfp]
    · rw [successes_append, hgathered]
      exact iff_of_false (Counter.length_add_ne_zero _ _ _) (by simp)
    · rw [successes_append, hgathered, ← hv.results]
    · intro hnone r hr
      rcases List.mem_append.mp hr with hr | hr
      · exact hv.lastError hnone r hr
      · rw [List.mem_singleton.mp hr, hok]
  | error err =>
    have hok : ret.ok = false := by rw [RawResult.ok, hvalue]
    have hgathered : successes [ret] = [] := by
      simp [successes, RawResult.gathered, hvalue]
    by_cases habort : m.abortOnError (m.ls ret.ordinal)
        (v.outstanding.add (m.ls ret.ordinal) (-1)) v.success = true
    · right
      refine ⟨err, _, by rw [receive, hvalue]; simp only []; rw [if_pos habort], ?_⟩
      rw [MultiAPI.abortOnError] at habort
      cases hkeepsGoing : m.partialResponse with
      | true => simp [hkeepsGoing] at habort
      | false =>
        refine ⟨rfl, fun hsucc => ?_⟩
        rw [Succeeds, hkeepsGoing] at hsucc
        simp only [hkeepsGoing, Bool.false_eq_true, if_false, decide_eq_true_eq, hout,
          hv.success] at habort hsucc
        -- even if all outstanding calls of the bucket succeed they are too few
        have hreq := hsucc _ hmem
        have hsplit : succeeded m (m.ls ret.ordinal) (seen ++ ret :: rest) =
            succeeded m (m.ls ret.ordinal) seen + succeeded m (m.ls ret.ordinal) rest := by
          rw [succeeded_append]
          simp [succeeded, hok]
        have hle : succeeded m (m.ls ret.ordinal) rest ≤ answered m (m.ls ret.ordinal) rest :=
          succeeded_le_answered
        omega
    · refine .inl ⟨_, by rw [receive, hvalue]; simp only []; rw [if_neg habort], hout,
        fun fp => ?_, hkeys, ?_, ?_, fun h => by cases h⟩
      · rw [hv.success, succeeded_append]
        simp [succeeded, hok]
      · rw [successes_append, hgathered, List.append_nil]
        exact hv.empty
      · rw [successes_append, hgathered, List.append_nil]
        exact hv.results

/-! ## The run -/

theorem finish_spec {v : GatherVars T} (hv : GatherInv m seen [] v) (hall : Complete m seen)
    (hne : m.apiFingerprints ≠ []) :
    (Succeeds m seen → finish m v = .merged (sortGathered (successes seen)) v.warnings) ∧
      (¬ Succeeds m seen → ∃ err, finish m v = .missing (some err) v.warnings) := by
  have hmissing : m.missingRequired v.outstanding v.success = true ↔ ¬ Succeeds m seen := by
    rw [MultiAPI.missingRequired, Succeeds]
    cases hkeepsGoing : m.partialResponse with
    | true =>
      simp only [if_true, decide_eq_true_eq, hv.empty, successes_eq_nil, not_exists, not_and,
        Bool.not_eq_true]
    | false =>
      simp only [Bool.false_eq_true, if_false, List.any_eq_true, decide_eq_true_eq, hv.success,
        not_forall, not_le, exists_prop]
      constructor
      · rintro ⟨p, hp, hlt⟩
        exact ⟨p.1, (hv.keys p.1).mp (List.mem_map_of_mem hp), hlt⟩
      · rintro ⟨fp, hfp, hlt⟩
        obtain ⟨p, hp, rfl⟩ := List.mem_map.mp ((hv.keys fp).mpr hfp)
        exact ⟨p, hp, hlt⟩
  constructor
  · intro hsucc
    rw [finish, if_neg fun h => hmissing.mp h hsucc, hv.results]
  · intro hfail
    rw [finish, if_pos (hmissing.mpr hfail)]
    -- somebody must have failed
    cases hlast : v.lastError with
    | some err =>
      rw [fetchError]
      split
      · exact ⟨_, rfl⟩
      · exact ⟨_, rfl⟩
    | none =>
      have hok := hv.lastError hlast
      refine absurd ?_ hfail
      have hsame : ∀ fp, succeeded m fp seen = answered m fp seen := by
        intro fp
        refine List.countP_congr fun ret hret => ?_
        simp [hok ret hret]
      rw [Succeeds]
      split
      · obtain ⟨fp, hfp⟩ := List.exists_mem_of_ne_nil _ hne
        have hpos : 0 < answered m fp seen := (hall fp).symm ▸ List.count_pos_iff.mpr hfp
        obtain ⟨ret, hret, -⟩ := List.countP_pos_iff.mp hpos
        exact ⟨ret, hret, hok ret hret⟩
      · intro fp hfp
        rw [hsame, hall]
        exact m.enough fp hfp

theorem gatherLoop_run (apiName : String) (hne : m.apiFingerprints ≠ []) {v : GatherVars T}
    (hv : GatherInv m seen rest v) (hall : Complete m (seen ++ rest)) :
    (Succeeds m (seen ++ rest) →
      ∃ w, gatherLoop m apiName rest.length v (rest.map Event.response) =
        some (.merged (sortGathered (successes (seen ++ rest))) w)) ∧
      (¬ Succeeds m (seen ++ rest) → ∃ err w,
        gatherLoop m apiName rest.length v (rest.map Event.response) = some (.aborted err w) ∨
        gatherLoop m apiName rest.length v (rest.map Event.response) =
          some (.missing (some err) w)) := by
  induction rest generalizing seen v with
  | nil =>
    rw [List.append_nil] at hall ⊢
    obtain ⟨hsucc, hfail⟩ := finish_spec hv hall hne
    constructor
    · intro h
      exact ⟨v.warnings, congrArg some (hsucc h)⟩
    · intro h
      obtain ⟨err, hfinish⟩ := hfail h
      exact ⟨err, v.warnings, .inr (congrArg some hfinish)⟩
  | cons ret rest ih =>
    rcases receive_step hv hall with ⟨v', hreceive, hv'⟩ | ⟨err, w, hreceive, -, hfail⟩
    · rw [List.append_cons] at hall ⊢
      have := ih hv' hall
      simpa only [List.length_cons, List.map_cons, gatherLoop, hreceive] using this
    · refine ⟨fun h => absurd h hfail, fun _ => ⟨err, w, .inl ?_⟩⟩
      simp only [List.length_cons, List.map_cons, gatherLoop, hreceive]

theorem initVars_inv (h : Complete m answers) : GatherInv m [] answers (initVars m) where
  outstanding := by
    have hfold : ∀ (fps : List Fingerprint) (c : Counter) (fp : Fingerprint),
        (fps.foldl (fun outstanding fp => outstanding.add fp 1) c).get fp =
          c.get fp + fps.count fp := by
      intro fps
      induction fps with
      | nil => simp
      | cons fp' fps ih =>
        intro c fp
        rw [List.foldl_cons, ih, Counter.get_add, List.count_cons]
        by_cases hfp : fp' = fp
        · simp [hfp]
          omega
        · simp [hfp]
    intro fp
    rw [initVars, hfold, h fp]
    exact Int.zero_add _
  success fp := rfl
  keys := by
    have hfold : ∀ (fps : List Fingerprint) (c : Counter) (fp : Fingerprint),
        fp ∈ (fps.foldl (fun outstanding fp => outstanding.add fp 1) c).map Prod.fst ↔
          fp ∈ fps ∨ fp ∈ c.map Prod.fst := by
      intro fps
      induction fps with
      | nil => simp
      | cons fp' fps ih =>
        intro c fp
        rw [List.foldl_cons, ih, Counter.mem_keys_add, List.mem_cons]
        tauto
    intro fp
    rw [initVars, hfold]
    simp
  empty := by simp [initVars, successes]
  results := rfl
  lastError _ ret hret := by cases hret

/-- The turns of a run whose context ends after the responses `seen`. -/
theorem gatherLoop_cancelled (apiName : String) (hkeepsGoing : m.partialResponse = true)
    {seen' : List (RawResult T)} {v : GatherVars T} (hv : GatherInv m seen (seen' ++ rest) v)
    (hall : Complete m (seen ++ (seen' ++ rest))) {n : Nat} (hn : seen'.length < n)
    (err : BackendError) (events : List (Event T)) :
    ∃ v', GatherInv m (seen ++ seen') rest v' ∧
      gatherLoop m apiName n v (seen'.map Event.response ++ Event.ctxDone err :: events) =
        some (cancel m apiName v' err) := by
  induction seen' generalizing seen v n with
  | nil =>
    obtain ⟨n, rfl⟩ := Nat.exists_eq_add_one_of_ne_zero (Nat.ne_of_gt hn)
    exact ⟨v, by rwa [List.append_nil], rfl⟩
  | cons ret seen' ih =>
    obtain ⟨n, rfl⟩ := Nat.exists_eq_add_one_of_ne_zero (Nat.ne_of_gt (Nat.zero_lt_of_lt hn))
    rcases receive_step hv hall with ⟨v', hreceive, hv'⟩ | ⟨_, _, _, hoff, _⟩
    · rw [List.cons_append, List.append_cons] at hall
      obtain ⟨v'', hv'', hloop⟩ := ih hv' hall (Nat.lt_of_succ_lt_succ hn)
      refine ⟨v'', by rwa [List.append_cons], ?_⟩
      simp only [List.map_cons, List.cons_append, gatherLoop, hreceive, hloop]
    · rw [hkeepsGoing] at hoff
      cases hoff

theorem gathered_ordinal {ret : RawResult T} {g : Gathered T} (h : ret.gathered = some g) :
    g.ordinal = ret.ordinal := by
  rw [RawResult.gathered] at h
  cases hvalue : ret.value with
  | ok value =>
    rw [hvalue] at h
    cases h
    rfl
  | error err =>
    rw [hvalue] at h
    cases h

theorem successes_ascending {n : Nat} (h : answers.map RawResult.ordinal = List.range n) :
    Ascending Gathered.ordinal (successes answers) := by
  have hasc : Ascending RawResult.ordinal answers := by
    have hrange : (answers.map RawResult.ordinal).Pairwise (· < ·) := h ▸ List.pairwise_lt_range
    exact List.pairwise_map.mp hrange
  exact hasc.filterMap fun _ _ => gathered_ordinal

/-! ## Every order of arrival -/

section

variable {arrivals : List (RawResult T)}
  (hans : answers.map RawResult.ordinal = List.range m.apiFingerprints.length)
  (hp : arrivals.Perm answers) (apiName : String)

include hans hp

theorem gather_complete (hne : m.apiFingerprints ≠ []) :
    (Succeeds m answers → ∃ w, gather m apiName (arrivals.map .response) =
      some (.merged (successes answers) w)) ∧
    (¬ Succeeds m answers → ∃ err w,
      gather m apiName (arrivals.map .response) = some (.aborted err w) ∨
      gather m apiName (arrivals.map .response) = some (.missing (some err) w)) := by
  have hall : Complete m arrivals := (Complete.of_ordinals hans).perm hp
  have hlen : arrivals.length = m.apiFingerprints.length := by
    rw [hp.length_eq, ← List.length_map RawResult.ordinal, hans, List.length_range]
  have hsort : sortGathered (successes arrivals) = successes answers :=
    (successes_ascending hans).sortBy_eq_of_perm (hp.symm.filterMap _)
  have hrun := gatherLoop_run apiName hne (initVars_inv hall) hall
  rw [List.nil_append, succeeds_perm hp, hsort, hlen] at hrun
  exact hrun

theorem gather_cancelled {seen rest : List (RawResult T)} (hsplit : arrivals = seen ++ rest)
    (hrest : rest ≠ []) (hkeepsGoing : m.partialResponse = true) (err : BackendError)
    (events : List (Event T)) :
    (successes seen = [] → ∃ w,
      gather m apiName (seen.map .response ++ .ctxDone err :: events) =
        some (.cancelled err w)) ∧
    (successes seen ≠ [] → ∃ results w,
      gather m apiName (seen.map .response ++ .ctxDone err :: events) =
        some (.merged results w) ∧
      Ascending Gathered.ordinal results ∧ results.Perm (successes seen) ∧
      ∀ g ∈ results, g ∈ successes answers) := by
  subst hsplit
  have hall : Complete m (seen ++ rest) := (Complete.of_ordinals hans).perm hp
  have hlen : seen.length < m.apiFingerprints.length := by
    have htotal : (seen ++ rest).length = m.apiFingerprints.length := by
      rw [hp.length_eq, ← List.length_map RawResult.ordinal, hans, List.length_range]
    rw [← htotal, List.length_append]
    have := List.length_pos_iff.mpr hrest
    omega
  obtain ⟨v, hv, hloop⟩ := gatherLoop_cancelled apiName hkeepsGoing
    (initVars_inv hall) hall hlen err events
  rw [List.nil_append] at hv
  constructor
  · intro hnil
    refine ⟨v.warnings, hloop.trans ?_⟩
    simp [cancel, hv.results, hnil]
  · intro hsome
    have hpos : 0 < (successes seen).length := List.length_pos_iff.mpr hsome
    have hsub : (successes seen).Sublist (successes (seen ++ rest)) := by
      rw [successes_append]
      exact List.sublist_append_left _ _
    have hperm : (successes (seen ++ rest)).Perm (successes answers) := hp.filterMap _
    have hasc : Ascending Gathered.ordinal (sortGathered (successes seen)) := by
      rw [sortGathered, ascending_sortBy_iff]
      exact ((hperm.map _).nodup_iff.mpr (successes_ascending hans).nodup_keys).sublist
        (hsub.map _)
    refine ⟨sortGathered (successes seen),
      insert (cancellationWarning m apiName (successes seen).length err) v.warnings,
      hloop.trans ?_, hasc, sortBy_perm _ _, fun g hg => ?_⟩
    · simp [cancel, hkeepsGoing, hv.results, hpos]
    · exact hperm.mem_iff.mp (hsub.subset (mem_sortBy.mp hg))

end

end

/-- The sets a merge hook is given. -/
def ordinalSets (results : List (Gathered SeriesSet)) : List OrdinalSeriesSet :=
  results.map fun r => ⟨r.ordinal, r.value⟩

/-- **The fan-out.** Whatever the order in which the answers of all backends arrive, the call
succeeds exactly if they are enough, it is then given the successful ones by ordinal, and it is
never aborted before. A context that ends before the last answer leaves, with partial responses,
those that have arrived, by ordinal. -/
theorem fanOut_spec (m : MultiAPI) (hne : m.apiFingerprints ≠ []) (apiName : String) :
    (∀ (T : Type) (answers arrivals : List (RawResult T)),
      answers.map RawResult.ordinal = List.range m.apiFingerprints.length →
      arrivals.Perm answers →
      (∃ results w err, scatterGather m apiName (arrivals.map .response) = some (results, w, err) ∧
        (err = none ↔ Succeeds m answers) ∧ (err = none → results = successes answers)) ∧
      (Succeeds m answers → ∀ err w,
        gather m apiName (arrivals.map .response) ≠ some (.aborted err w)) ∧
      ∀ seen rest, arrivals = seen ++ rest → rest ≠ [] → m.partialResponse = true →
        successes seen ≠ [] → ∀ (err : BackendError) (events : List (Event T)),
        ∃ results w, scatterGather m apiName (seen.map .response ++ .ctxDone err :: events) =
            some (results, w, none) ∧
          Ascending Gathered.ordinal results ∧ results.Perm (successes seen) ∧
          ∀ g ∈ results, g ∈ successes answers) ∧
    ∀ (mergeFn : List OrdinalSeriesSet → SeriesSet) (answers arrivals : List (RawResult SeriesSet)),
      answers.map RawResult.ordinal = List.range m.apiFingerprints.length →
      arrivals.Perm answers →
      (Succeeds m answers → ∃ w, scatterMerge m apiName mergeFn (arrivals.map .response) =
        some (withWarnings (mergeFn (ordinalSets (successes answers))) w)) ∧
      (¬ Succeeds m answers → ∃ err w, scatterMerge m apiName mergeFn (arrivals.map .response) =
        some ⟨[], w, some err⟩) ∧
      ∀ seen rest, arrivals = seen ++ rest → rest ≠ [] → m.partialResponse = true →
        successes seen ≠ [] → ∀ (err : BackendError) (events : List (Event SeriesSet)),
        ∃ results w,
          scatterMerge m apiName mergeFn (seen.map .response ++ .ctxDone err :: events) =
            some (withWarnings (mergeFn (ordinalSets results)) w) ∧
          Ascending Gathered.ordinal results ∧ results.Perm (successes seen) ∧
          ∀ g ∈ results, g ∈ successes answers := by
  constructor
  · intro T answers arrivals hans hp
    obtain ⟨hsucc, hfail⟩ := gather_complete hans hp apiName hne
    refine ⟨?_, ?_, ?_⟩
    · by_cases h : Succeeds m answers
      · obtain ⟨w, hw⟩ := hsucc h
        exact ⟨successes answers, w, none, by rw [scatterGather, hw]; rfl, by simp [h],
          fun _ => rfl⟩
      · obtain ⟨err, w, hw | hw⟩ := hfail h
        · exact ⟨[], w, some err, by rw [scatterGather, hw]; rfl, by simp [h],
            fun h => by cases h⟩
        · exact ⟨[], w, some err, by rw [scatterGather, hw]; rfl, by simp [h],
            fun h => by cases h⟩
    · intro h err w heq
      obtain ⟨w', hw⟩ := hsucc h
      rw [hw] at heq
      cases heq
    · intro seen rest hsplit hrest hkeepsGoing hsome err events
      obtain ⟨results, w, hw, hresults⟩ :=
        (gather_cancelled hans hp apiName hsplit hrest hkeepsGoing err events).2 hsome
      exact ⟨results, w, by rw [scatterGather, hw]; rfl, hresults⟩
  · intro mergeFn answers arrivals hans hp
    obtain ⟨hsucc, hfail⟩ := gather_complete hans hp apiName hne
    refine ⟨?_, ?_, ?_⟩
    · intro h
      obtain ⟨w, hw⟩ := hsucc h
      exact ⟨w, by rw [scatterMerge, hw]; rfl⟩
    · intro h
      obtain ⟨err, w, hw | hw⟩ := hfail h
      · exact ⟨err, w, by rw [scatterMerge, hw]; rfl⟩
      · exact ⟨err, w, by rw [scatterMerge, hw]; rfl⟩
    · intro seen rest hsplit hrest hkeepsGoing hsome err events
      obtain ⟨results, w, hw, hresults⟩ :=
        (gather_cancelled hans hp apiName hsplit hrest hkeepsGoing err events).2 hsome
      exact ⟨results, w, by rw [scatterMerge, hw]; rfl, hresults⟩

/-- Two replicas of a group and a group of its own. -/
def twoGroups : MultiAPI where
  apiFingerprints := [1#64, 1#64, 2#64]
  requiredCount := 1
  partialResponse := false
  enough fp hfp := by
    have := List.count_pos_iff.mpr hfp
    omega

/-- One replica fails, and the answers arrive last to first. -/
theorem fanOut_spec_replica_down :
    ∃ w, scatterGather (T := Nat) twoGroups "query"
        [.response ⟨.ok 30, ∅, 2⟩, .response ⟨.ok 20, ∅, 1⟩,
          .response ⟨.error ⟨"down", none⟩, ∅, 0⟩] =
      some ([⟨20, 1⟩, ⟨30, 2⟩], w, none) := by
  let answers : List (RawResult Nat) :=
    [⟨.error ⟨"down", none⟩, ∅, 0⟩, ⟨.ok 20, ∅, 1⟩, ⟨.ok 30, ∅, 2⟩]
  have hsucc : Succeeds twoGroups answers := by
    rw [Succeeds, if_neg (by simp [twoGroups])]
    simp [twoGroups, answers, succeeded, RawResult.ok, MultiAPI.ls]
  obtain ⟨results, w, err, hgather, herr, hresults⟩ :=
    ((fanOut_spec twoGroups (by simp [twoGroups]) "query").1 Nat answers answers.reverse
      (by simp [twoGroups, answers, List.range_succ]) (List.reverse_perm _)).1
  have hnone := herr.mpr hsucc
  subst hnone
  rw [hresults rfl] at hgather
  exact ⟨w, hgather⟩

end Promclient
end Proxeus
