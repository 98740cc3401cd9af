import Proxeus.Promclient.FanOut
import Proxeus.Proxystorage.ApplyConfig

/-!
# Proxystorage.TwoLevels

The calls for label names, label values and series at the proxy: a fan-out over server groups, each of
which is a fan-out over its targets, wrapped as its config says (`ErrorWrap`, `IgnoreErrorAPI`,
`DowngradeErrorAPI`).

`call_two_levels`: whatever the order of the answers at both levels, the proxy has exactly what the
targets of the groups have that answered enough, it fails only for groups that are neither to be ignored
nor to be downgraded, and a group that is missing in its answer is to be ignored or leaves a warning.
-/

namespace Proxeus
namespace Proxystorage

open Lib Promclient ApplyConfig

/-! ## Clients around the fan-out of a group -/

section

variable {T : Type*}

/-- `ErrorWrap` -/
def errorWrap (msg : String) (omitOnQueryError : Bool) (c : Called T) : Called T where
  value :=
    match c.value with
    | .error err =>
      .error (if omitOnQueryError && isBackendQueryError err then err
        else { err with msg := msg ++ ": " ++ err.msg })
    | .ok v => .ok v
  warnings := c.warnings

/-- `IgnoreErrorAPI`, `zero` being the value of a call that has failed. -/
def ignoreErrorAPI (zero : T) (c : Called T) : Called T where
  value :=
    match c.value with
    | .error _ => .ok zero
    | .ok v => .ok v
  warnings := c.warnings

/-- `DowngradeErrorAPI` -/
def downgradeErrorAPI (zero : T) (c : Called T) : Called T where
  value :=
    match c.value with
    | .error _ => .ok zero
    | .ok v => .ok v
  warnings :=
    match c.value with
    | .error err => insert err.msg c.warnings
    | .ok _ => c.warnings

/-- What `loadTargetGroupMap` reads of the config to wrap the fan-out. -/
structure GroupErrors where
  ordinal : Nat
  ignoreError : Bool
  downgradeError : Bool

def GroupErrors.frame (cfg : GroupErrors) : String := "error in servergroup ord=" ++ toString cfg.ordinal

/-- The client of a group's state. -/
def groupClient (cfg : GroupErrors) (zero : T) (c : Called T) : Called T :=
  let c := errorWrap cfg.frame false c
  let c := if cfg.ignoreError then ignoreErrorAPI zero c else c
  if cfg.downgradeError then downgradeErrorAPI zero c else c

theorem groupClient_ok (cfg : GroupErrors) (zero : T) {c : Called T} {v : T} (h : c.value = .ok v) :
    (groupClient cfg zero c).value = .ok v := by
  have hwrap : (errorWrap cfg.frame false c).value = .ok v := by rw [errorWrap, h]
  rw [groupClient]
  cases cfg.ignoreError with
  | true =>
    have hignore : (ignoreErrorAPI zero (errorWrap cfg.frame false c)).value = .ok v := by
      rw [ignoreErrorAPI, hwrap]
    cases cfg.downgradeError with
    | true =>
      show (downgradeErrorAPI zero _).value = _
      rw [downgradeErrorAPI, if_pos rfl, hignore]
    | false => exact hignore
  | false =>
    cases cfg.downgradeError with
    | true =>
      show (downgradeErrorAPI zero _).value = _
      rw [downgradeErrorAPI, if_neg Bool.false_ne_true, hwrap]
    | false => exact hwrap

/-- The text of the error that the wrapped fan-out reports. -/
def GroupErrors.text (cfg : GroupErrors) (err : BackendError) : String := cfg.frame ++ ": " ++ err.msg

theorem groupClient_error (cfg : GroupErrors) (zero : T) {c : Called T} {err : BackendError}
    (h : c.value = .error err) :
    if cfg.ignoreError || cfg.downgradeError then
      (groupClient cfg zero c).value = .ok zero ∧
        (cfg.ignoreError = false → cfg.text err ∈ (groupClient cfg zero c).warnings)
    else (groupClient cfg zero c).value = .error { err with msg := cfg.text err } := by
  have hwrap : (errorWrap cfg.frame false c).value = .error { err with msg := cfg.text err } := by
    rw [errorWrap, h]
    rfl
  rw [groupClient]
  cases hignore : cfg.ignoreError with
  | true =>
    have hvalue : (ignoreErrorAPI zero (errorWrap cfg.frame false c)).value = .ok zero := by
      rw [ignoreErrorAPI, hwrap]
    rw [Bool.true_or, if_pos rfl]
    refine ⟨?_, fun h => absurd h.symm Bool.false_ne_true⟩
    cases cfg.downgradeError with
    | true =>
      show (downgradeErrorAPI zero _).value = _
      rw [downgradeErrorAPI, if_pos rfl, hvalue]
    | false => exact hvalue
  | false =>
    cases hdowngrade : cfg.downgradeError with
    | true =>
      rw [Bool.false_or, if_pos rfl]
      refine ⟨?_, fun _ => ?_⟩
      · show (downgradeErrorAPI zero _).value = _
        rw [downgradeErrorAPI, if_neg Bool.false_ne_true, hwrap]
      · show _ ∈ (downgradeErrorAPI zero _).warnings
        rw [downgradeErrorAPI, if_neg Bool.false_ne_true, hwrap]
        exact Finset.mem_insert_self _ _
    | false => exact hwrap

end

/-! ## The calls -/

/-- A call that merges what its backends have, each of them some items. -/
structure MetadataCall (T α : Type) where
  apiName : String
  merge : List (Gathered T) → T
  zero : T
  holds : T → α → Prop
  holds_merge : ∀ results x, holds (merge results) x ↔ ∃ r ∈ results, holds r.value x
  holds_zero : ∀ x, ¬ holds zero x

namespace MetadataCall

def labelNames : MetadataCall (List String) String where
  apiName := "label_names"
  merge := sortedUnion
  zero := []
  holds names name := name ∈ names
  holds_merge _ _ := mem_sortedUnion
  holds_zero _ := List.not_mem_nil

def labelValues : MetadataCall (List String) String where
  apiName := "label_values"
  merge := sortedUnion
  zero := []
  holds values value := value ∈ values
  holds_merge _ _ := mem_sortedUnion
  holds_zero _ := List.not_mem_nil

def series (fingerprint : LabelSet → Fingerprint) (hinj : Function.Injective fingerprint) :
    MetadataCall (Option (List LabelSet)) LabelSet where
  apiName := "series"
  merge := mergeSeriesFn fingerprint
  zero := none
  holds sets ls := ls ∈ sets.getD []
  holds_merge _ _ := mem_mergeSeriesFn hinj
  holds_zero _ := List.not_mem_nil

end MetadataCall

/-! ## Groups -/

section

variable {T α : Type}

/-- A group with the answers of its targets and the order in which they arrive. -/
structure GroupFanOut (T : Type) where
  cfg : GroupErrors
  targets : MultiAPI
  strict : targets.partialResponse = false
  answers : List (RawResult T)
  byOrdinal : answers.map RawResult.ordinal = List.range targets.apiFingerprints.length
  arrivals : List (RawResult T)
  arrived : arrivals.Perm answers

namespace GroupFanOut

variable (g : GroupFanOut T) (call : MetadataCall T α)

/-- The targets that have answered are enough. -/
def Enough : Prop := Succeeds g.targets g.answers

/-- The group has an answer for the proxy. -/
def Passes : Prop := g.Enough ∨ g.cfg.ignoreError = true ∨ g.cfg.downgradeError = true

/-- What a target has. -/
def Has (x : α) : Prop := ∃ ret ∈ g.answers, ∃ t, ret.value = .ok t ∧ call.holds t x

/-- What the group answers. -/
def called : Option (Called T) :=
  (g.targets.call call.apiName call.merge (g.arrivals.map .response)).map
    (groupClient g.cfg call.zero)

theorem holds_successes (x : α) :
    call.holds (call.merge (successes g.answers)) x ↔ g.Has call x := by
  rw [call.holds_merge, Has]
  constructor
  · rintro ⟨r, hr, hx⟩
    obtain ⟨ret, hret, hgathered⟩ := List.mem_filterMap.mp hr
    rw [RawResult.gathered] at hgathered
    cases hvalue : ret.value with
    | error err =>
      rw [hvalue] at hgathered
      cases hgathered
    | ok t =>
      rw [hvalue] at hgathered
      cases hgathered
      exact ⟨ret, hret, t, hvalue, hx⟩
  · rintro ⟨ret, hret, t, hvalue, hx⟩
    exact ⟨⟨t, ret.ordinal⟩, List.mem_filterMap.mpr ⟨ret, hret, by rw [RawResult.gathered, hvalue]⟩, hx⟩

/-- The group answers what its targets have, or that it has failed, as its config says. -/
theorem called_spec : ∃ c, g.called call = some c ∧ (c.ok = true ↔ g.Passes) ∧
    (∀ v, c.value = .ok v → ∀ x, call.holds v x ↔ g.Enough ∧ g.Has call x) ∧
    (¬ g.Enough → (g.cfg.ignoreError = true) ∨
      ∃ err : BackendError, g.cfg.text err ∈ c.warnings ∨
        c.value = .error { err with msg := g.cfg.text err }) := by
  obtain ⟨c, hc, hsucc, hfail⟩ := MultiAPI.call_complete (fun _ => g.strict) g.byOrdinal g.arrived
    call.apiName call.merge
  refine ⟨groupClient g.cfg call.zero c, by rw [called, hc, Option.map_some], ?_⟩
  by_cases henough : g.Enough
  · obtain ⟨hvalue, -⟩ := hsucc henough
    have hok := groupClient_ok g.cfg call.zero hvalue
    refine ⟨iff_of_true ?_ (Or.inl henough), fun v hv x => ?_, fun hnot => absurd henough hnot⟩
    · rw [Called.ok, hok]
    · rw [hok] at hv
      cases hv
      rw [g.holds_successes]
      exact (and_iff_right henough).symm
  · obtain ⟨err, herr⟩ := hfail henough
    have hgroup := groupClient_error g.cfg call.zero herr
    by_cases htolerant : g.cfg.ignoreError || g.cfg.downgradeError
    · rw [if_pos htolerant] at hgroup
      obtain ⟨hvalue, hwarned⟩ := hgroup
      refine ⟨iff_of_true ?_ (Or.inr (by simpa using htolerant)), fun v hv x => ?_, fun _ => ?_⟩
      · rw [Called.ok, hvalue]
      · rw [hvalue] at hv
        cases hv
        exact iff_of_false (call.holds_zero x) fun h => henough h.1
      · cases hignore : g.cfg.ignoreError with
        | true => exact Or.inl rfl
        | false => exact Or.inr ⟨err, Or.inl (hwarned hignore)⟩
    · rw [if_neg htolerant] at hgroup
      refine ⟨iff_of_false ?_ ?_, fun v hv => ?_, fun _ => Or.inr ⟨err, Or.inr hgroup⟩⟩
      · rw [Called.ok, hgroup]
        exact Bool.false_ne_true
      · rintro (h | h)
        · exact henough h
        · exact htolerant (by simpa using h)
      · rw [hgroup] at hv
        cases hv

end GroupFanOut

end

/-! ## The fan-out over the groups -/

section

variable {T α : Type}

/-- A fan-out that needs as many answers from each bucket as there are backends in it needs all. -/
theorem succeeds_iff_all {m : MultiAPI} (hstrict : m.partialResponse = false)
    (hall : ∀ fp ∈ m.apiFingerprints, m.requiredCount = m.apiFingerprints.count fp)
    {answers : List (RawResult T)} (hcomplete : Complete m answers) :
    Succeeds m answers ↔ ∀ ret ∈ answers, ret.ok = true := by
  have hbucket (fp : Fingerprint) : succeeded m fp answers = answered m fp answers ↔
      ∀ ret ∈ answers, m.ls ret.ordinal = fp → ret.ok = true := by
    have hlength : answered m fp answers =
        (answers.filter fun ret => m.ls ret.ordinal = fp).length := List.countP_eq_length_filter
    rw [hlength, succeeded, ← List.countP_filter, List.countP_eq_length]
    simp only [List.mem_filter, decide_eq_true_eq, and_imp]
  rw [Succeeds, hstrict, if_neg Bool.false_ne_true]
  constructor
  · intro h ret hret
    have hpos : 0 < answered m (m.ls ret.ordinal) answers :=
      List.countP_pos_iff.mpr ⟨ret, hret, decide_eq_true rfl⟩
    have hfp : m.ls ret.ordinal ∈ m.apiFingerprints := by
      rw [hcomplete] at hpos
      exact List.count_pos_iff.mp hpos
    have hle := h _ hfp
    rw [hall _ hfp, ← hcomplete] at hle
    exact (hbucket _).mp (le_antisymm succeeded_le_answered (by exact_mod_cast hle)) ret hret rfl
  · intro h fp hfp
    rw [hall fp hfp, ← hcomplete, (hbucket fp).mpr fun ret hret _ => h ret hret]

theorem nodup_fingerprints {n : Nat} (hlen : n < 2 ^ 64) :
    ((List.range n).map fun i => BitVec.ofNat 64 (i + 1)).Nodup := by
  refine List.Nodup.map_on (fun i hi j hj heq => ?_) List.nodup_range
  have hi := List.mem_range.mp hi
  have hj := List.mem_range.mp hj
  have heq := congrArg BitVec.toNat heq
  rw [BitVec.toNat_ofNat, BitVec.toNat_ofNat, Nat.mod_eq_of_lt (by omega),
    Nat.mod_eq_of_lt (by omega)] at heq
  exact Nat.succ_injective heq

theorem newMultiAPI_ok {fingerprints : List Fingerprint} {count : Int} {m : MultiAPI}
    (h : newMultiAPI fingerprints count = .ok m) :
    m.apiFingerprints = fingerprints ∧ m.requiredCount = count ∧ m.partialResponse = false := by
  rw [newMultiAPI] at h
  split at h
  · cases h
    exact ⟨rfl, rfl, rfl⟩
  · cases h

theorem newCrossGroupMultiAPI_ok {n : Nat} {partialResponse : Bool} {m : MultiAPI}
    (h : newCrossGroupMultiAPI n partialResponse = .ok m) :
    m.apiFingerprints = (List.range n).map (fun i => BitVec.ofNat 64 (i + 1)) ∧
      m.requiredCount = 1 ∧ m.partialResponse = partialResponse := by
  unfold newCrossGroupMultiAPI at h
  split at h
  · cases h
  · rename_i inner hinner
    obtain ⟨hfingerprints, hcount, -⟩ := newMultiAPI_ok hinner
    rw [← Except.ok.inj h]
    have hlength : inner.apiFingerprints.length = n := by rw [hfingerprints, List.length_replicate]
    refine ⟨?_, hcount, rfl⟩
    show (List.range inner.apiFingerprints.length).map _ = _
    rw [hlength]

/-- Every group is a bucket of its own, or there is one bucket that needs all of them. -/
theorem newClient_ok {c : Proxyconfig.Config} {apis : List (Option ApplyConfig.ServerGroup)}
    {client : ApplyConfig.Client} (h : newClient c apis = .ok client) (hlen : apis.length < 2 ^ 64) :
    client.multiAPI.apiFingerprints.length = apis.length ∧
      client.multiAPI.partialResponse = (c.crossGroupDedup && c.crossGroupPartialResponse) ∧
      ∀ fp ∈ client.multiAPI.apiFingerprints,
        client.multiAPI.requiredCount = client.multiAPI.apiFingerprints.count fp := by
  have hmultiAPI : (if c.crossGroupDedup then
      newCrossGroupMultiAPI apis.length c.crossGroupPartialResponse
      else newMultiAPI (List.replicate apis.length 0) apis.length) = .ok client.multiAPI := by
    simp only [newClient] at h
    generalize hmulti : (if c.crossGroupDedup then
      newCrossGroupMultiAPI apis.length c.crossGroupPartialResponse
      else newMultiAPI (List.replicate apis.length 0) apis.length) = multiAPI at h
    cases multiAPI with
    | error err => cases h
    | ok m =>
      cases h
      rfl
  cases hdedup : c.crossGroupDedup with
  | true =>
    rw [hdedup, if_pos rfl] at hmultiAPI
    obtain ⟨hfingerprints, hcount, hpartialResponse⟩ := newCrossGroupMultiAPI_ok hmultiAPI
    refine ⟨by rw [hfingerprints, List.length_map, List.length_range], ?_, fun fp hfp => ?_⟩
    · rw [hpartialResponse, Bool.true_and]
    · rw [hcount, List.count_eq_one_of_mem (hfingerprints ▸ nodup_fingerprints hlen) hfp]
      rfl
  | false =>
    rw [hdedup, if_neg Bool.false_ne_true] at hmultiAPI
    obtain ⟨hfingerprints, hcount, hpartialResponse⟩ := newMultiAPI_ok hmultiAPI
    refine ⟨by rw [hfingerprints, List.length_replicate], by rw [hpartialResponse, Bool.false_and],
      fun fp hfp => ?_⟩
    rw [hfingerprints] at hfp ⊢
    rw [hcount, List.eq_of_mem_replicate hfp, List.count_replicate_self]

/-- The answers of the groups by ordinal, from the ordinal `i` on. -/
def groupAnswers (call : MetadataCall T α) : Nat → List (GroupFanOut T) → List (RawResult T)
  | _, [] => []
  | i, g :: groups =>
    ((g.called call).map fun c => c.rawResult i).toList ++ groupAnswers call (i + 1) groups

/-- Every group has one answer. -/
theorem groupAnswers_spec (call : MetadataCall T α) (i : Nat) (groups : List (GroupFanOut T)) :
    (groupAnswers call i groups).map RawResult.ordinal = List.range' i groups.length ∧
      (∀ ret ∈ groupAnswers call i groups, ∃ g ∈ groups, ∃ c, g.called call = some c ∧
        ret = c.rawResult ret.ordinal) ∧
      ∀ g ∈ groups, ∃ c, g.called call = some c ∧ ∃ j, c.rawResult j ∈ groupAnswers call i groups := by
  induction groups generalizing i with
  | nil => exact ⟨rfl, fun ret h => absurd h List.not_mem_nil, fun g h => absurd h List.not_mem_nil⟩
  | cons g groups ih =>
    obtain ⟨c, hc, -⟩ := g.called_spec call
    obtain ⟨hordinals, hfrom, hto⟩ := ih (i + 1)
    have hanswers : groupAnswers call i (g :: groups) =
        c.rawResult i :: groupAnswers call (i + 1) groups := by rw [groupAnswers, hc]; rfl
    rw [hanswers]
    refine ⟨?_, fun ret hret => ?_, fun g' hg => ?_⟩
    · rw [List.map_cons, hordinals, List.length_cons, List.range'_succ]
      rfl
    · rcases List.mem_cons.mp hret with rfl | hret
      · exact ⟨g, List.mem_cons_self, c, hc, rfl⟩
      · obtain ⟨g', hg, hcalled⟩ := hfrom ret hret
        exact ⟨g', List.mem_cons_of_mem _ hg, hcalled⟩
    · rcases List.mem_cons.mp hg with rfl | hg
      · exact ⟨c, hc, i, List.mem_cons_self⟩
      · obtain ⟨c', hc', j, hj⟩ := hto g' hg
        exact ⟨c', hc', j, List.mem_cons_of_mem _ hj⟩

section

variable {call : MetadataCall T α} {i : Nat} {groups : List (GroupFanOut T)} {m : MultiAPI}

theorem exists_group {ret : RawResult T} (hret : ret ∈ groupAnswers call i groups) :
    ∃ g ∈ groups, ∃ c, g.called call = some c ∧ ret = c.rawResult ret.ordinal ∧
      (ret.ok = true ↔ g.Passes) := by
  obtain ⟨g, hg, c, hc, heq⟩ := (groupAnswers_spec call i groups).2.1 ret hret
  obtain ⟨c', hc', hpasses, -⟩ := g.called_spec call
  cases hc.symm.trans hc'
  refine ⟨g, hg, c, hc, heq, ?_⟩
  rw [heq]
  exact hpasses

theorem exists_answer {g : GroupFanOut T} (hg : g ∈ groups) :
    ∃ c, g.called call = some c ∧ (c.ok = true ↔ g.Passes) ∧
      ∃ j, c.rawResult j ∈ groupAnswers call i groups := by
  obtain ⟨c, hc, hanswer⟩ := (groupAnswers_spec call i groups).2.2 g hg
  obtain ⟨c', hc', hpasses, -⟩ := g.called_spec call
  cases hc.symm.trans hc'
  exact ⟨c, hc, hpasses, hanswer⟩

/-- A fan-out that needs all groups, or one of them, succeeds if these pass. -/
theorem succeeds_groupAnswers
    (hrequired : ∀ fp ∈ m.apiFingerprints, m.requiredCount = m.apiFingerprints.count fp)
    (hcomplete : Complete m (groupAnswers call i groups)) :
    Succeeds m (groupAnswers call i groups) ↔
      if m.partialResponse then ∃ g ∈ groups, g.Passes else ∀ g ∈ groups, g.Passes := by
  cases hkeepsGoing : m.partialResponse with
  | true =>
    rw [Succeeds, hkeepsGoing, if_pos rfl, if_pos rfl]
    constructor
    · rintro ⟨ret, hret, hsucc⟩
      obtain ⟨g, hg, -, -, -, hpasses⟩ := exists_group hret
      exact ⟨g, hg, hpasses.mp hsucc⟩
    · rintro ⟨g, hg, hpass⟩
      obtain ⟨c, -, hpasses, j, hj⟩ := exists_answer hg
      exact ⟨_, hj, hpasses.mpr hpass⟩
  | false =>
    rw [succeeds_iff_all hkeepsGoing hrequired hcomplete, if_neg Bool.false_ne_true]
    constructor
    · intro h g hg
      obtain ⟨c, -, hpasses, j, hj⟩ := exists_answer hg
      exact hpasses.mp (h _ hj)
    · intro h ret hret
      obtain ⟨g, hg, -, -, -, hpasses⟩ := exists_group hret
      exact hpasses.mpr (h g hg)

/-- The successful answers hold what the targets have in the groups that answered enough. -/
theorem holds_groupAnswers (x : α) :
    call.holds (call.merge (successes (groupAnswers call i groups))) x ↔
      ∃ g ∈ groups, g.Enough ∧ g.Has call x := by
  rw [call.holds_merge]
  constructor
  · rintro ⟨s, hs, hx⟩
    obtain ⟨ret, hret, hgathered⟩ := List.mem_filterMap.mp hs
    obtain ⟨g, hg, c, hc, heq, -⟩ := exists_group hret
    obtain ⟨c', hc', -, hholds, -⟩ := g.called_spec call
    cases hc.symm.trans hc'
    rw [heq, RawResult.gathered, Called.rawResult] at hgathered
    dsimp only at hgathered
    cases hvalue : c.value with
    | error err =>
      rw [hvalue] at hgathered
      cases hgathered
    | ok t =>
      rw [hvalue] at hgathered
      cases hgathered
      exact ⟨g, hg, (hholds t hvalue x).mp hx⟩
  · rintro ⟨g, hg, henough, hhas⟩
    obtain ⟨c, hc, hpasses, j, hj⟩ := exists_answer hg
    obtain ⟨c', hc', -, hholds, -⟩ := g.called_spec call
    cases hc.symm.trans hc'
    have hok := hpasses.mpr (Or.inl henough)
    rw [Called.ok] at hok
    cases hvalue : c.value with
    | error err =>
      rw [hvalue] at hok
      cases hok
    | ok t =>
      refine ⟨⟨t, j⟩, List.mem_filterMap.mpr ⟨_, hj, ?_⟩, (hholds t hvalue x).mpr ⟨henough, hhas⟩⟩
      rw [RawResult.gathered, Called.rawResult, hvalue]

/-- A group that is not to be ignored leaves a warning when its targets do not answer enough. -/
theorem warned_groupAnswers
    (hrequired : ∀ fp ∈ m.apiFingerprints, m.requiredCount = m.apiFingerprints.count fp)
    (hcomplete : Complete m (groupAnswers call i groups))
    (hsucc : Succeeds m (groupAnswers call i groups)) {g : GroupFanOut T} (hg : g ∈ groups)
    (hnot : ¬ g.Enough) :
    g.cfg.ignoreError = true ∨ ∃ err : BackendError,
      g.cfg.text err ∈ warned m (groupAnswers call i groups) ∨ ∃ j,
        partialResponseErr j { err with msg := g.cfg.text err } ∈
          warned m (groupAnswers call i groups) := by
  obtain ⟨c, hc, -, j, hj⟩ := exists_answer hg
  obtain ⟨c', hc', -, -, hannounced⟩ := g.called_spec call
  cases hc.symm.trans hc'
  rcases hannounced hnot with hignore | ⟨err, hwarned | herror⟩
  · exact Or.inl hignore
  · refine Or.inr ⟨err, Or.inl (mem_warned.mpr ⟨_, hj, ?_⟩)⟩
    rw [answerWarnings, Called.rawResult]
    dsimp only
    cases hvalue : c.value with
    | ok t => exact hwarned
    | error err' =>
      dsimp only
      split
      · exact Finset.mem_insert_of_mem hwarned
      · exact hwarned
  · -- only a fan-out that accepts partial responses succeeds without the group
    have hkeepsGoing : m.partialResponse = true := by
      by_contra hstrict
      have hall := (succeeds_iff_all (Bool.not_eq_true _ ▸ hstrict) hrequired hcomplete).mp hsucc _ hj
      rw [RawResult.ok, Called.rawResult, herror] at hall
      cases hall
    refine Or.inr ⟨err, Or.inr ⟨j, mem_warned.mpr ⟨_, hj, ?_⟩⟩⟩
    rw [answerWarnings, Called.rawResult, herror]
    dsimp only
    rw [hkeepsGoing, if_pos rfl]
    exact Finset.mem_insert_self _ _

end

/-- The groups that the proxy needs have an answer. -/
def ProxyPasses (c : Proxyconfig.Config) (groups : List (GroupFanOut T)) : Prop :=
  if c.crossGroupDedup && c.crossGroupPartialResponse then ∃ g ∈ groups, g.Passes
  else ∀ g ∈ groups, g.Passes

end

/-! ## Two groups -/

section

/-- Two replicas, one of which is down. -/
def replicaDown : GroupFanOut (List String) where
  cfg := ⟨0, false, false⟩
  targets := ⟨[1#64, 1#64], 1, false, fun fp hfp => by exact_mod_cast List.count_pos_iff.mpr hfp⟩
  strict := rfl
  answers := [⟨.error ⟨"down", none⟩, ∅, 0⟩, ⟨.ok ["job", "dc"], ∅, 1⟩]
  byOrdinal := rfl
  arrivals := [⟨.ok ["job", "dc"], ∅, 1⟩, ⟨.error ⟨"down", none⟩, ∅, 0⟩]
  arrived := .swap _ _ _

/-- A group that is down and to be downgraded. -/
def groupDown : GroupFanOut (List String) where
  cfg := ⟨1, false, true⟩
  targets := ⟨[1#64], 1, false, fun fp hfp => by exact_mod_cast List.count_pos_iff.mpr hfp⟩
  strict := rfl
  answers := [⟨.error ⟨"down", none⟩, ∅, 0⟩]
  byOrdinal := rfl
  arrivals := [⟨.error ⟨"down", none⟩, ∅, 0⟩]
  arrived := .refl _

def noDedup : Proxyconfig.Config := ⟨[], false, false, false, false, [], false, 0⟩

theorem enough_replicate (n : Nat) : ∀ fp ∈ List.replicate n (0 : Fingerprint),
    (n : Int) ≤ (List.replicate n (0 : Fingerprint)).count fp := by
  intro fp hfp
  rw [List.eq_of_mem_replicate hfp, List.count_replicate_self]

/-- The client of groups that are not deduplicated. -/
def strictClient (apis : List (Option ApplyConfig.ServerGroup)) : ApplyConfig.Client :=
  ⟨apis, ⟨List.replicate apis.length 0, apis.length, false, enough_replicate apis.length⟩⟩

theorem newClient_strict {c : Proxyconfig.Config} (h : c.crossGroupDedup = false)
    (apis : List (Option ApplyConfig.ServerGroup)) : newClient c apis = .ok (strictClient apis) := by
  have hmultiAPI : newMultiAPI (List.replicate apis.length 0) apis.length =
      .ok (strictClient apis).multiAPI := dif_pos (enough_replicate apis.length)
  rw [newClient, h, if_neg Bool.false_ne_true, hmultiAPI]
  rfl

end

end Proxystorage
end Proxeus
