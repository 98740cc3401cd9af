import Proxeus.Proxystorage.ApplyConfig

/-!
# Proxystorage.ApplyConfigSpec

What a reload leaves behind. `Live` is the invariant of a storage: its groups were all created, and
none has been cancelled. Every call keeps it (`applyConfig_live`). A call that returns does what it
should (`CallSpec`); it panics exactly if the config is accepted and one of its server groups cannot
be created, since the groups that were are cancelled by a walk over all of them.
-/

namespace Proxeus
namespace Proxystorage
namespace ApplyConfig

open Lib Promclient

/-- The groups among `sgs`. -/
def ids (sgs : List (Option ServerGroup)) : List Nat := sgs.filterMap fun sg => sg.map ServerGroup.id

/-- The groups of the stored state. -/
def ProxyStorage.groups (p : ProxyStorage) : List Nat := ids p.getState.sgs

/-- The stored state is running. -/
structure Live (p : ProxyStorage) : Prop where
  created : none ∉ p.getState.sgs
  running : ∀ id ∈ p.groups, id < p.next ∧ id ∉ p.cancelled
  cancelled : ∀ id ∈ p.cancelled, id < p.next

/-- What the call `r` of `ApplyConfig c` on `p` should do. -/
structure CallSpec (p : ProxyStorage) (c : Proxyconfig.Config) (r : ProxyStorage × CallResult) :
    Prop where
  noPanic : r.2 ≠ .panic
  failed : ∀ err, r.2 = .error err →
    r.1.state = p.state ∧ (∀ id ∈ p.groups, id ∉ r.1.cancelled) ∧
      ∀ id, p.next ≤ id → id < r.1.next → id ∈ r.1.cancelled
  succeeded : r.2 = .ok →
    (∃ s, r.1.state = some s ∧
      s.sgs = c.serverGroups.mapIdx (fun i cfg => some ⟨p.next + i, some (assignOrdinal i cfg)⟩) ∧
      s.client.map Client.apis = some s.sgs ∧ s.cfg = some (assignOrdinals c)) ∧
    (∀ id, p.next ≤ id → id < r.1.next → id ∈ r.1.groups) ∧
    ∀ id, id ∈ r.1.cancelled ↔ id ∈ p.cancelled ∨ id ∈ p.groups

/-! ## Creating and cancelling -/

/-- `createLoop` creates the groups it has a place for, with new numbers. -/
theorem createLoop_spec (env : Outcomes) (i : Nat) (groups : List Servergroup.Config)
    (next : Nat) :
    let r := createLoop env i groups next
    r.1.length = groups.length ∧ next ≤ r.2.1 ∧
      (∀ id, id ∈ ids r.1 ↔ next ≤ id ∧ id < r.2.1) ∧
      (none ∈ r.1 ↔ ∃ j < groups.length, env.newServerGroup (i + j) ≠ none) ∧
      (none ∈ r.1 → r.2.2 = true) := by
  induction groups generalizing i next with
  | nil => simp [createLoop, ids]
  | cons cfg groups ih =>
    have hex : (∃ j < (cfg :: groups).length, env.newServerGroup (i + j) ≠ none) ↔
        env.newServerGroup i ≠ none ∨
          ∃ j < groups.length, env.newServerGroup (i + 1 + j) ≠ none := by
      constructor
      · rintro ⟨j, hj, hne⟩
        cases j with
        | zero => exact Or.inl hne
        | succ j =>
          refine Or.inr ⟨j, by simpa using hj, ?_⟩
          rwa [Nat.add_assoc, Nat.add_comm 1 j]
      · rintro (hne | ⟨j, hj, hne⟩)
        · exact ⟨0, by simp, hne⟩
        · refine ⟨j + 1, by simpa using hj, ?_⟩
          rwa [Nat.add_assoc, Nat.add_comm 1 j] at hne
    rw [hex]
    simp only [createLoop]
    cases hnew : env.newServerGroup i with
    | some err =>
      obtain ⟨hlen, hnext, hids, -, -⟩ := ih (i + 1) next
      refine ⟨by simp [hlen], hnext, fun id => ?_, by simp, fun _ => rfl⟩
      simpa [ids] using hids id
    | none =>
      obtain ⟨hlen, hnext, hids, hnone, hfailed⟩ := ih (i + 1) (next + 1)
      refine ⟨by simp [hlen], by simp only; omega, fun id => ?_, by simpa using hnone, ?_⟩
      · have hmem : id ∈ ids (some ⟨next, some cfg⟩ :: (createLoop env (i + 1) groups (next + 1)).1) ↔
            id = next ∨ id ∈ ids (createLoop env (i + 1) groups (next + 1)).1 := by
          simp [ids]
        simp only [hmem, hids]
        omega
      · intro hmem
        simp only [List.mem_cons, reduceCtorEq, false_or] at hmem
        simp [hfailed hmem]

/-- Where nothing fails, there is a group for every config. -/
theorem createLoop_of_ok (env : Outcomes) (i : Nat) (groups : List Servergroup.Config)
    (next : Nat) (h : (createLoop env i groups next).2.2 = false) :
    (createLoop env i groups next).1 =
      groups.mapIdx fun j cfg => some ⟨next + j, some cfg⟩ := by
  induction groups generalizing i next with
  | nil => rfl
  | cons cfg groups ih =>
    simp only [createLoop] at h ⊢
    cases hnew : env.newServerGroup i with
    | some err =>
      rw [hnew] at h
      simp at h
    | none =>
      rw [hnew] at h
      simp only [Bool.or_eq_false_iff] at h
      simp only [List.mapIdx_cons, Nat.add_zero, ih _ _ h.2]
      simp only [Nat.add_comm, Nat.add_left_comm]

/-- `Cancel` walks over all groups, unless it meets one that was not created. -/
theorem cancelLoop_eq {sgs : List (Option ServerGroup)} (h : none ∉ sgs) :
    cancelLoop sgs = (ids sgs, false) := by
  induction sgs with
  | nil => rfl
  | cons sg sgs ih =>
    rw [List.mem_cons, not_or] at h
    cases sg with
    | none => exact absurd rfl h.1
    | some sg => rw [cancelLoop, ih h.2, ids, ids, List.filterMap_cons]; rfl

theorem cancelLoop_panics_iff (sgs : List (Option ServerGroup)) :
    (cancelLoop sgs).2 = true ↔ none ∈ sgs := by
  induction sgs with
  | nil => simp [cancelLoop]
  | cons sg sgs ih =>
    cases sg with
    | none => simp [cancelLoop]
    | some sg => simp [cancelLoop, ih]

theorem mem_ids_of_mem_cancelLoop {sgs : List (Option ServerGroup)} {id : Nat}
    (h : id ∈ (cancelLoop sgs).1) : id ∈ ids sgs := by
  induction sgs with
  | nil => cases h
  | cons sg sgs ih =>
    cases sg with
    | none => cases h
    | some sg =>
      rcases List.mem_cons.mp h with rfl | h
      · simp [ids]
      · have := ih h
        simp only [ids, List.filterMap_cons, Option.map_some] at this ⊢
        exact List.mem_cons_of_mem _ this

/-! ## One call -/

variable [ModelPackage]

/-- The check of the groups that have been given their ordinals is that of the config. -/
theorem unique_assignOrdinals {c : Proxyconfig.Config} (h : c.validate = .ok ()) :
    (if (assignOrdinals c).crossGroupDedup then
      Proxyconfig.validateUniqueServerGroupLabels (assignOrdinals c).serverGroups
      else .ok ()) = .ok () := by
  split
  · rename_i hdedup
    have hlabels : (assignOrdinals c).serverGroups.map (·.labels) =
        c.serverGroups.map (·.labels) := by
      rw [assignOrdinals]
      exact List.ext_getElem (by simp) fun i _ _ => by simp [assignOrdinal]
    rw [Proxyconfig.validateUniqueServerGroupLabels_congr hlabels]
    exact Proxyconfig.Config.unique_of_validate h hdedup
  · rfl

omit [ModelPackage] in
theorem newClient_apis {c : Proxyconfig.Config} {apis : List (Option ServerGroup)}
    {client : Client} (h : newClient c apis = .ok client) : client.apis = apis := by
  simp only [newClient] at h
  split at h
  · cases h
  · cases h
    rfl

/-- The branches of a call. -/
theorem applyConfig_cases (p : ProxyStorage) (c : Proxyconfig.Config) (env : Outcomes) :
    (∃ err, c.validate = .error err ∧ p.applyConfig c env = (p, .error err)) ∨
    c.validate = .ok () ∧
      let r := createLoop env 0 (assignOrdinals c).serverGroups p.next
      let p' : ProxyStorage := { p with next := r.2.1 }
      (∃ err, p.applyConfig c env = p'.cancel r.1 (.error err)) ∨
      r.2.2 = false ∧
        (p.applyConfig c env = (p', .blocked) ∨
          ∃ client : Client, client.apis = r.1 ∧ p.applyConfig c env =
            ProxyStorage.cancel { p' with state := some ⟨r.1, some client, some (assignOrdinals c)⟩ }
              p.getState.sgs .ok) := by
  cases hv : c.validate with
  | error err => exact Or.inl ⟨err, rfl, by rw [ProxyStorage.applyConfig, hv]⟩
  | ok u =>
    refine Or.inr ⟨rfl, ?_⟩
    rw [ProxyStorage.applyConfig, hv]
    simp only [unique_assignOrdinals hv]
    cases hfailed : (createLoop env 0 (assignOrdinals c).serverGroups p.next).2.2 with
    | true => exact Or.inl ⟨_, rfl⟩
    | false =>
      cases hclient : newClient (assignOrdinals c)
          (createLoop env 0 (assignOrdinals c).serverGroups p.next).1 with
      | error err => exact Or.inl ⟨err, rfl⟩
      | ok client =>
        refine Or.inr ⟨rfl, ?_⟩
        by_cases hready : (List.range (createLoop env 0 (assignOrdinals c).serverGroups
            p.next).1.length).all env.ready
        · exact Or.inr ⟨client, newClient_apis hclient, if_pos hready⟩
        · exact Or.inl (if_neg hready)

theorem applyConfig_live {p : ProxyStorage} (h : Live p) (c : Proxyconfig.Config)
    (env : Outcomes) : Live (p.applyConfig c env).1 := by
  obtain ⟨-, hnext, hids, -, hfailed⟩ :=
    createLoop_spec env 0 (assignOrdinals c).serverGroups p.next
  rcases applyConfig_cases p c env with ⟨err, -, heq⟩ | ⟨-, ⟨err, heq⟩ | ⟨hok, heq | ⟨client, -, heq⟩⟩⟩
  · rw [heq]
    exact h
  · rw [heq]
    refine ⟨h.created, fun id hid => ?_, fun id hid => ?_⟩
    · obtain ⟨hlt, hnot⟩ := h.running id hid
      refine ⟨hlt.trans_le hnext, fun hmem => ?_⟩
      rcases List.mem_append.mp hmem with hmem | hmem
      · exact hnot hmem
      · have := (hids id).mp (mem_ids_of_mem_cancelLoop hmem)
        omega
    · rcases List.mem_append.mp hid with hid | hid
      · exact (h.cancelled id hid).trans_le hnext
      · exact ((hids id).mp (mem_ids_of_mem_cancelLoop hid)).2
  · rw [heq]
    exact ⟨h.created, fun id hid => ⟨(h.running id hid).1.trans_le hnext, (h.running id hid).2⟩,
      fun id hid => (h.cancelled id hid).trans_le hnext⟩
  · rw [heq]
    refine ⟨fun hnone => ?_, fun id hid => ?_, fun id hid => ?_⟩
    · have := hfailed hnone
      rw [hok] at this
      cases this
    · obtain ⟨hle, hlt⟩ := (hids id).mp hid
      refine ⟨hlt, fun hmem => ?_⟩
      rcases List.mem_append.mp hmem with hmem | hmem
      · have := h.cancelled id hmem
        omega
      · have := (h.running id (mem_ids_of_mem_cancelLoop hmem)).1
        omega
    · rcases List.mem_append.mp hid with hid | hid
      · exact (h.cancelled id hid).trans_le hnext
      · exact (h.running id (mem_ids_of_mem_cancelLoop hid)).1.trans_le hnext

/-- A call does what it should exactly if its config is rejected or all groups can be created. -/
theorem applyConfig_spec_iff {p : ProxyStorage} (h : Live p) (c : Proxyconfig.Config)
    (env : Outcomes) :
    CallSpec p c (p.applyConfig c env) ↔
      (c.validate = .ok () → ∀ i < c.serverGroups.length, env.newServerGroup i = none) := by
  obtain ⟨-, hnext, hids, hnone, hfailed⟩ :=
    createLoop_spec env 0 (assignOrdinals c).serverGroups p.next
  have hlen : (assignOrdinals c).serverGroups.length = c.serverGroups.length := by
    simp [assignOrdinals]
  simp only [hlen, Nat.zero_add] at hnone
  rcases applyConfig_cases p c env with ⟨err, hv, heq⟩ | ⟨hv, ⟨err, heq⟩ | ⟨hok, heq | ⟨client, hapis, heq⟩⟩⟩
  · rw [heq]
    refine iff_of_true ⟨nofun, fun err _ => ?_, nofun⟩ fun hv' => ?_
    · exact ⟨rfl, fun id hid => (h.running id hid).2, fun id hle hlt => by simp only at hlt; omega⟩
    · rw [hv] at hv'
      cases hv'
  · rw [heq]
    have hall : (c.validate = .ok () → ∀ i < c.serverGroups.length, env.newServerGroup i = none) ↔
        none ∉ (createLoop env 0 (assignOrdinals c).serverGroups p.next).1 := by
      rw [hnone]
      push Not
      exact ⟨fun h => h hv, fun h _ => h⟩
    rw [hall]
    constructor
    · intro hspec hmem
      exact hspec.noPanic (if_pos ((cancelLoop_panics_iff _).mpr hmem))
    · intro hmem
      rw [ProxyStorage.cancel, cancelLoop_eq hmem]
      refine ⟨nofun, fun err _ => ⟨rfl, fun id hid hmem' => ?_, fun id hle hlt => ?_⟩, nofun⟩
      · obtain ⟨hlt, hnot⟩ := h.running id hid
        rcases List.mem_append.mp hmem' with hmem' | hmem'
        · exact hnot hmem'
        · have := (hids id).mp hmem'
          omega
      · exact List.mem_append_right _ ((hids id).mpr ⟨hle, hlt⟩)
  · have hmem : none ∉ (createLoop env 0 (assignOrdinals c).serverGroups p.next).1 := fun hmem => by
      have := hfailed hmem
      rw [hok] at this
      cases this
    rw [heq]
    refine iff_of_true ⟨nofun, nofun, nofun⟩ fun _ => ?_
    rw [hnone] at hmem
    push Not at hmem
    exact hmem
  · have hmem : none ∉ (createLoop env 0 (assignOrdinals c).serverGroups p.next).1 := fun hmem => by
      have := hfailed hmem
      rw [hok] at this
      cases this
    rw [heq, ProxyStorage.cancel, cancelLoop_eq h.created]
    refine iff_of_true ⟨nofun, nofun, fun _ => ⟨⟨_, rfl, ?_, ?_, rfl⟩, fun id hle hlt => ?_,
      fun id => List.mem_append⟩⟩ fun _ => ?_
    · simp only [createLoop_of_ok env 0 _ _ hok]
      rw [assignOrdinals]
      exact List.ext_getElem (by simp) fun i _ _ => by simp
    · simp [hapis]
    · exact (hids id).mpr ⟨hle, hlt⟩
    · rw [hnone] at hmem
      push Not at hmem
      exact hmem

omit [ModelPackage] in
theorem newProxyStorage_live : Live newProxyStorage where
  created := List.not_mem_nil
  running := fun _ hid => absurd hid List.not_mem_nil
  cancelled := fun _ hid => absurd hid List.not_mem_nil

/-! ## Runs -/

theorem after_live {p p' : ProxyStorage} (h : Live p) {calls : List Call}
    (hafter : p.after calls = some p') : Live p' := by
  induction calls generalizing p with
  | nil =>
    cases hafter
    exact h
  | cons call calls ih =>
    have hlive := applyConfig_live h call.cfg call.env
    rw [ProxyStorage.after] at hafter
    split at hafter
    · rename_i q heq
      rw [heq] at hlive
      exact ih hlive hafter
    · rename_i q err heq
      rw [heq] at hlive
      exact ih hlive hafter
    · cases hafter
    · cases hafter

/-- **Reloads.** In every sequence of calls, every call that is made leaves the storage as it
should, exactly if none of the calls made has an accepted config with a server group that cannot be
created. -/
theorem applyConfig_runs (calls : List Call) :
    (∀ before call later, calls = before ++ call :: later →
      ∀ p, newProxyStorage.after before = some p →
        Live p ∧ CallSpec p call.cfg (p.applyConfig call.cfg call.env)) ↔
      ∀ before call later, calls = before ++ call :: later →
        (newProxyStorage.after before).isSome → call.cfg.validate = .ok () →
          ∀ i < call.cfg.serverGroups.length, call.env.newServerGroup i = none := by
  constructor
  · intro h before call later heq hsome
    obtain ⟨p, hp⟩ := Option.isSome_iff_exists.mp hsome
    obtain ⟨hlive, hspec⟩ := h before call later heq p hp
    exact (applyConfig_spec_iff hlive _ _).mp hspec
  · intro h before call later heq p hp
    have hlive := after_live newProxyStorage_live hp
    exact ⟨hlive, (applyConfig_spec_iff hlive _ _).mpr
      (h before call later heq (Option.isSome_iff_exists.mpr ⟨p, hp⟩))⟩

/-- Label sets as their own fingerprints. -/
abbrev plainPackage : ModelPackage where
  Fingerprint := LabelSet
  decEqFingerprint := inferInstance
  fastFingerprint := id
  labelSetString := fun _ => ""
  isValidLabelName := fun _ => true
  quote := id

/-- Two server groups of which the first cannot be created. -/
def firstNotCreated : Call where
  cfg :=
    { serverGroups := [⟨0, "a", ⟨[], ascending_nil⟩⟩, ⟨0, "b", ⟨[], ascending_nil⟩⟩]
      crossGroupDedup := false, crossGroupExact := false, crossGroupDedupMetadata := false
      crossGroupPartialResponse := false, crossGroupDedupIgnoreLabels := []
      crossGroupDedupFillGaps := false, crossGroupDedupGap := 0 }
  env :=
    { newServerGroup := fun i => if i = 0 then some "failed to create discovery manager" else none
      applyConfig := fun _ => none
      ready := fun _ => true }

omit [ModelPackage] in
/-- The clean-up meets the missing group: it panics, and the other one is left running. -/
theorem applyConfig_panics :
    let r := @ProxyStorage.applyConfig plainPackage newProxyStorage firstNotCreated.cfg
      firstNotCreated.env
    r.2 = .panic ∧ r.1.next = 1 ∧ 0 ∉ r.1.cancelled := by
  decide

end ApplyConfig
end Proxystorage
end Proxeus
