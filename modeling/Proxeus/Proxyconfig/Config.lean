import Proxeus.Lib.Grouping
import Proxeus.Model.Labels

/-!
# Proxyconfig.Config

`config.go`: the checks of the proxeus section that do not need a backend. The label sets of the
server groups are told apart by their fingerprints, so the fingerprint, and how a label set and a
label name are printed, are parameters.
-/

namespace Proxeus

/-- What `prometheus/common/model` does with label sets and names. -/
class ModelPackage where
  Fingerprint : Type
  decEqFingerprint : DecidableEq Fingerprint
  /-- `model.LabelSet.FastFingerprint` -/
  fastFingerprint : LabelSet → Fingerprint
  /-- `model.LabelSet.String` -/
  labelSetString : LabelSet → String
  /-- `model.LabelName.IsValid` -/
  isValidLabelName : String → Bool
  /-- `strconv.Quote`, the verb `%q` -/
  quote : String → String

instance [ModelPackage] : DecidableEq ModelPackage.Fingerprint := ModelPackage.decEqFingerprint

namespace Servergroup

/-- `servergroup.Config`, as far as the checks across groups read it. -/
structure Config where
  ordinal : Int
  name : String
  labels : LabelSet
deriving DecidableEq

end Servergroup

namespace Proxyconfig

open Lib

/-- `ProxeusConfig` -/
structure Config where
  serverGroups : List Servergroup.Config
  crossGroupDedup : Bool
  crossGroupExact : Bool
  crossGroupDedupMetadata : Bool
  crossGroupPartialResponse : Bool
  crossGroupDedupIgnoreLabels : List String
  crossGroupDedupFillGaps : Bool
  crossGroupDedupGap : Int

variable [ModelPackage]

open ModelPackage

/-- `entry` -/
structure GroupEntry where
  name : String
  labels : LabelSet

def groupName (i : Nat) (name : String) : String :=
  if name = "" then "sg-" ++ toString i else name

def emptyLabelsError (name : String) : String :=
  "server_group label collision: group " ++ name ++
    " has empty labels — every server_group must declare a unique non-empty 'labels' set"

def sameLabelsError (entries : List GroupEntry) : String :=
  let parts := entries.map fun e => e.name ++ " (labels=" ++ labelSetString e.labels ++ ")"
  "server_group label collision: groups [" ++ String.intercalate ", " parts ++
    "] share the same labels — every server_group must declare a unique non-empty 'labels' set"

/-- The first loop, which fills `seen`. -/
def seenLoop : Nat → List Servergroup.Config → List (Fingerprint × List GroupEntry) →
    Except String (List (Fingerprint × List GroupEntry))
  | _, [], seen => .ok seen
  | i, cfg :: groups, seen =>
    let name := groupName i cfg.name
    if cfg.labels.pairs = [] then .error (emptyLabelsError name)
    else
      seenLoop (i + 1) groups
        (insertWith (fun e : GroupEntry => fastFingerprint e.labels) (fun e => [e])
          (fun entries e => entries ++ [e]) ⟨name, cfg.labels⟩ seen)

/-- `ValidateUniqueServerGroupLabels`. Of several collisions the source reports the one its map
yields first, which is any of them. -/
def validateUniqueServerGroupLabels (groups : List Servergroup.Config) : Except String Unit :=
  if groups.length < 2 then .ok ()
  else
    match seenLoop 0 groups [] with
    | .error err => .error err
    | .ok seen =>
      match seen.find? fun p => 2 ≤ p.2.length with
      | some p => .error (sameLabelsError p.2)
      | none => .ok ()

/-- `validateCrossGroupDedupIgnoreLabels`, with the names `seen`. -/
def ignoreLabelsLoop : List String → List String → Except String Unit
  | [], _ => .ok ()
  | name :: names, seen =>
    if name = "" then .error "cross_group_dedup_ignore_labels: empty label name"
    else if name = metricNameLabel then
      .error ("cross_group_dedup_ignore_labels: " ++ quote metricNameLabel ++ " cannot be ignored")
    else if !isValidLabelName name then
      .error ("cross_group_dedup_ignore_labels: " ++ quote name ++ " is not a valid label name")
    else if name ∈ seen then
      .error ("cross_group_dedup_ignore_labels: duplicate label name " ++ quote name)
    else ignoreLabelsLoop names (name :: seen)

/-- `ProxeusConfig.Validate` -/
def Config.validate (c : Config) : Except String Unit :=
  if c.crossGroupDedupMetadata && !c.crossGroupDedup then
    .error "cross_group_dedup_metadata: true requires cross_group_dedup: true"
  else if c.crossGroupExact && !c.crossGroupDedup then
    .error "cross_group_exact: true requires cross_group_dedup: true"
  else if c.crossGroupPartialResponse && !c.crossGroupDedup then
    .error "cross_group_partial_response: true requires cross_group_dedup: true"
  else if 0 < c.crossGroupDedupIgnoreLabels.length && !c.crossGroupDedup then
    .error "cross_group_dedup_ignore_labels: requires cross_group_dedup: true"
  else
    match ignoreLabelsLoop c.crossGroupDedupIgnoreLabels [] with
    | .error err => .error err
    | .ok () =>
      if c.crossGroupDedupGap ≠ 0 && !c.crossGroupDedupFillGaps then
        .error "cross_group_dedup_gap: requires cross_group_dedup_fill_gaps: true"
      else if c.crossGroupDedupGap < 0 then
        .error "cross_group_dedup_gap: must not be negative"
      else if c.crossGroupDedup then validateUniqueServerGroupLabels c.serverGroups
      else .ok ()

/-! ## Which groups are accepted -/

theorem seenLoop_eq (i : Nat) (groups : List Servergroup.Config)
    (seen : List (Fingerprint × List GroupEntry)) :
    (∃ entries : List GroupEntry, entries.map GroupEntry.labels = groups.map (·.labels) ∧
        (∀ cfg ∈ groups, cfg.labels.pairs ≠ []) ∧
        seenLoop i groups seen = .ok (entries.foldl (fun seen e =>
          insertWith (fun e : GroupEntry => fastFingerprint e.labels) (fun e => [e])
            (fun entries e => entries ++ [e]) e seen) seen)) ∨
      (∃ cfg ∈ groups, cfg.labels.pairs = []) ∧ ∃ err, seenLoop i groups seen = .error err := by
  induction groups generalizing i seen with
  | nil => exact Or.inl ⟨[], rfl, nofun, rfl⟩
  | cons cfg groups ih =>
    rw [seenLoop]
    by_cases hempty : cfg.labels.pairs = []
    · rw [if_pos hempty]
      exact Or.inr ⟨⟨cfg, List.mem_cons_self, hempty⟩, _, rfl⟩
    · rw [if_neg hempty]
      rcases ih (i + 1) _ with ⟨entries, hlabels, hall, heq⟩ | ⟨⟨g, hg, hg'⟩, herr⟩
      · refine Or.inl ⟨⟨groupName i cfg.name, cfg.labels⟩ :: entries, ?_, ?_, heq⟩
        · rw [List.map_cons, List.map_cons, hlabels]
        · intro g hg
          rcases List.mem_cons.mp hg with rfl | hg
          · exact hempty
          · exact hall g hg
      · exact Or.inr ⟨⟨g, List.mem_cons_of_mem _ hg, hg'⟩, herr⟩

/-- The entries of a fingerprint, of which none has two exactly if the fingerprints are distinct. -/
theorem find?_seen_eq_none_iff (entries : List GroupEntry) :
    (group (fun e : GroupEntry => fastFingerprint e.labels) (fun e => [e])
        (fun entries e => entries ++ [e]) entries).find? (fun p => 2 ≤ p.2.length) = none ↔
      (entries.map fun e => fastFingerprint e.labels).Nodup := by
  have hslot : ∀ items : List GroupEntry, ∀ b,
      foldSlot (fun e => [e]) (fun entries e => entries ++ [e]) items = some b → b = items := by
    intro items
    induction items using List.reverseRecOn with
    | nil => nofun
    | append_singleton items x ih =>
      intro b hb
      rw [foldSlot_concat, Option.some.injEq] at hb
      cases hprev : foldSlot (fun e => [e]) (fun entries e => entries ++ [e]) items with
      | none =>
        rw [hprev] at hb
        cases items with
        | nil => exact hb.symm
        | cons y items => cases hprev
      | some b' =>
        rw [hprev] at hb
        rw [← hb, ih b' hprev]
  constructor
  · intro h
    rw [List.nodup_iff_count_le_one]
    intro fp
    by_contra hcount
    have hlen : 2 ≤ (entries.filter fun e => fastFingerprint e.labels = fp).length := by
      rw [not_le, List.count, List.countP_map, List.countP_eq_length_filter] at hcount
      exact hcount
    have hmem : fp ∈ (group (fun e : GroupEntry => fastFingerprint e.labels) (fun e => [e])
        (fun entries e => entries ++ [e]) entries).map Prod.fst := by
      obtain ⟨e, he⟩ := List.exists_mem_of_length_pos (Nat.lt_of_lt_of_le Nat.zero_lt_two hlen)
      rw [List.mem_filter, decide_eq_true_eq] at he
      exact mem_keys_group.mpr ⟨e, he⟩
    obtain ⟨⟨_, b⟩, hb, rfl⟩ := List.mem_map.mp hmem
    have hnone := List.find?_eq_none.mp h _ hb
    rw [hslot _ b (mem_group.mp hb)] at hnone
    simp only [decide_eq_true_eq] at hnone
    exact hnone hlen
  · intro hn
    rw [group_of_nodup hn, List.find?_eq_none]
    intro p hp
    obtain ⟨e, -, rfl⟩ := List.mem_map.mp hp
    simp

theorem validateUniqueServerGroupLabels_ok_iff (groups : List Servergroup.Config) :
    validateUniqueServerGroupLabels groups = .ok () ↔
      groups.length < 2 ∨ (∀ cfg ∈ groups, cfg.labels.pairs ≠ []) ∧
        (groups.map fun cfg => fastFingerprint cfg.labels).Nodup := by
  rw [validateUniqueServerGroupLabels]
  by_cases hlen : groups.length < 2
  · simp [hlen]
  · rw [if_neg hlen, or_iff_right hlen]
    rcases seenLoop_eq 0 groups [] with ⟨entries, hlabels, hall, heq⟩ | ⟨⟨cfg, hcfg, hempty⟩, err, heq⟩
    · have hfp : (entries.map fun e => fastFingerprint e.labels) =
          groups.map fun cfg => fastFingerprint cfg.labels := by
        have := congrArg (List.map fastFingerprint) hlabels
        rwa [List.map_map, List.map_map] at this
      rw [heq, ← hfp, ← find?_seen_eq_none_iff]
      simp only [group]
      cases hfind : (entries.foldl (fun seen e =>
          insertWith (fun e : GroupEntry => fastFingerprint e.labels) (fun e => [e])
            (fun entries e => entries ++ [e]) e seen) []).find? fun p => 2 ≤ p.2.length with
      | none => exact iff_of_true rfl ⟨hall, rfl⟩
      | some p => simp
    · rw [heq]
      constructor
      · intro h
        cases h
      · rintro ⟨hall, -⟩
        exact absurd hempty (hall cfg hcfg)

/-- Accepted are groups by their labels alone. -/
theorem validateUniqueServerGroupLabels_congr {groups groups' : List Servergroup.Config}
    (h : groups.map (·.labels) = groups'.map (·.labels)) :
    validateUniqueServerGroupLabels groups = .ok () ↔
      validateUniqueServerGroupLabels groups' = .ok () := by
  have hlen : groups.length = groups'.length := by
    simpa using congrArg List.length h
  have hall : ∀ gs : List Servergroup.Config, (∀ cfg ∈ gs, cfg.labels.pairs ≠ []) ↔
      ∀ ls ∈ gs.map (·.labels), ls.pairs ≠ [] := by
    simp
  have hfp : ∀ gs : List Servergroup.Config, (gs.map fun cfg => fastFingerprint cfg.labels) =
      (gs.map (·.labels)).map fastFingerprint := by
    simp [Function.comp_def]
  rw [validateUniqueServerGroupLabels_ok_iff, validateUniqueServerGroupLabels_ok_iff, hlen,
    hall groups, hall groups', hfp groups, hfp groups', h]

theorem Config.unique_of_validate {c : Config} (h : c.validate = .ok ())
    (hdedup : c.crossGroupDedup = true) :
    validateUniqueServerGroupLabels c.serverGroups = .ok () := by
  simp only [Config.validate, hdedup, Bool.not_true, Bool.and_false, Bool.false_eq_true,
    if_false, if_true] at h
  split at h
  · cases h
  · split at h
    · cases h
    · split at h
      · cases h
      · exact h

end Proxyconfig
end Proxeus
