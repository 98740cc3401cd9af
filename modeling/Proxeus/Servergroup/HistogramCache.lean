import Proxeus.Proxystorage.TwoLevels
import Proxeus.Servergroup.Sync

/-!
# Servergroup.HistogramCache

The names of the metrics that a server group has histograms of, which a goroutine of its own reads from
the metadata of the targets, again and again. A refresh takes the clients of the state that the group has
when it begins; `Sync` may replace that state before the answers are there, and `start` may be called any
number of times.

`cache_runs`: there is one such goroutine at most, and what the group says of a metric is what the last
refresh without an error has read: of the targets that answered, the first one that knows the metric has
histograms of it.
-/

namespace Proxeus
namespace Servergroup

open Lib Promclient Proxystorage

/-- `v1.MetricType` -/
inductive MetricType where
  | counter
  | gauge
  | histogram
  | gaugehistogram
  | summary
  | info
  | stateset
  | unknown
deriving DecidableEq, Repr

/-- `map[string][]v1.Metadata`, by the types of the entries. -/
abbrev Metadata := List (String × List MetricType)

/-! ## The cache -/

/-- Where a goroutine of the cache is. -/
inductive Refresh where
  /-- before `getAPI` -/
  | due
  /-- in `Metadata` of the clients of a state -/
  | fetching (st : ServerGroupState)
  /-- at the `select` -/
  | waiting
  | returned

/-- `histogramMetadataCache`; the goroutines are those that `start` has launched. -/
structure HistogramMetadataCache where
  names : Option (List String)
  started : Bool
  goroutines : List Refresh

/-- `Contains` -/
def HistogramMetadataCache.contains (c : HistogramMetadataCache) (name : String) : Bool :=
  match c.names with
  | none => false
  | some names => names.contains name

/-- The entries of a metric. -/
def entries (md : Option Metadata) (name : String) : List MetricType :=
  ((md.getD []).lookup name).getD []

/-- The `names` of `refresh`. -/
def histogramNames (md : Option Metadata) : List String :=
  ((md.getD []).map Prod.fst).filter fun name => (entries md name).contains .histogram

/-- A server group with its cache, and the options that wrap the clients of its state. -/
structure CachedGroup where
  sg : ServerGroup
  errors : GroupErrors
  cache : HistogramMetadataCache

def newCachedGroup (cfg : TargetOpts) (errors : GroupErrors) : CachedGroup where
  sg := newServerGroup cfg
  errors
  cache := ⟨none, false, []⟩

/-! ## Steps -/

inductive CacheEvent where
  /-- of the group -/
  | group (e : Event)
  /-- `start`, with `metadata_refresh` -/
  | start (refresh : Int)
  | getAPI (i : Nat)
  /-- what the fan-out of `Metadata` receives, until the loop is at its end -/
  | answer (i : Nat) (events : List (Promclient.Event (Option Metadata)))
  | tick (i : Nat)
  /-- `ctx.Done()` -/
  | done (i : Nat)

/-- A refresh that has replaced the names. -/
structure Refreshed where
  st : ServerGroupState
  events : List (Promclient.Event (Option Metadata))
  metadata : Option Metadata

/-- `Metadata` of the client of a state. -/
def metadataOf (errors : GroupErrors) (st : ServerGroupState)
    (events : List (Promclient.Event (Option Metadata))) : Option (Called (Option Metadata)) :=
  (st.multiAPI.metadata events).map (groupClient errors none)

def CachedGroup.move (g : CachedGroup) (i : Nat) (refresh : Refresh) : CachedGroup :=
  { g with cache := { g.cache with goroutines := g.cache.goroutines.set i refresh } }

variable (fastFingerprint : LabelSet → Fingerprint)

/-- A step, and the refresh that it ends. What cannot happen changes nothing. -/
def cacheStep (g : CachedGroup) : CacheEvent → Option Refreshed × CachedGroup
  | .group e => (none, { g with sg := (step fastFingerprint g.sg e).2 })
  | .start refresh =>
    if refresh ≤ 0 || g.cache.started then (none, g)
    else
      (none, { g with cache := { g.cache with
        started := true
        goroutines := g.cache.goroutines ++ [.due] } })
  | .getAPI i =>
    match g.cache.goroutines[i]? with
    | some .due =>
      match g.sg.state with
      | none => (none, g.move i .waiting)
      | some st => (none, g.move i (.fetching st))
    | _ => (none, g)
  | .answer i events =>
    match g.cache.goroutines[i]? with
    | some (.fetching st) =>
      match metadataOf g.errors st events with
      | none => (none, g)
      | some ⟨.error _, _⟩ => (none, g.move i .waiting)
      | some ⟨.ok md, _⟩ =>
        (some ⟨st, events, md⟩,
          { g with cache := { g.cache with
            names := some (histogramNames md)
            goroutines := g.cache.goroutines.set i .waiting } })
    | _ => (none, g)
  | .tick i =>
    match g.cache.goroutines[i]? with
    | some .waiting => (none, g.move i .due)
    | _ => (none, g)
  | .done i =>
    match g.cache.goroutines[i]? with
    | some .waiting => (none, if g.sg.done then g.move i .returned else g)
    | _ => (none, g)

/-! ## The invariant -/

/-- The state is that of one of the updates. -/
def Loaded (cfg : TargetOpts) (updates : List Update) (st : ServerGroupState) : Prop :=
  ∃ update ∈ updates, st.targets = hosts update ∧
    loadTargetGroupMap fastFingerprint cfg update = .ok st.multiAPI

structure CacheInv (cfg : TargetOpts) (errors : GroupErrors) (updates : List Update)
    (refreshes : List Refreshed) (g : CachedGroup) : Prop where
  sync : Inv fastFingerprint g.sg updates
  opts : g.sg.cfg = cfg
  wrapped : g.errors = errors
  once : g.cache.goroutines.length = if g.cache.started then 1 else 0
  names : g.cache.names = refreshes.getLast?.map fun r => histogramNames r.metadata
  fetching : ∀ st, Refresh.fetching st ∈ g.cache.goroutines → Loaded fastFingerprint cfg updates st
  refreshes : ∀ r ∈ refreshes, Loaded fastFingerprint cfg updates r.st ∧
    ∃ c, metadataOf errors r.st r.events = some c ∧ c.value = .ok r.metadata

theorem cacheInv_newCachedGroup (cfg : TargetOpts) (errors : GroupErrors) :
    CacheInv fastFingerprint cfg errors [] [] (newCachedGroup cfg errors) where
  sync := inv_newServerGroup fastFingerprint cfg
  opts := rfl
  wrapped := rfl
  once := rfl
  names := rfl
  fetching _ h := absurd h List.not_mem_nil
  refreshes _ h := absurd h List.not_mem_nil

variable {fastFingerprint} {cfg : TargetOpts} {errors : GroupErrors} {updates : List Update}
  {refreshes : List Refreshed} {g : CachedGroup}

theorem Loaded.append {st : ServerGroupState} (h : Loaded fastFingerprint cfg updates st)
    (more : List Update) : Loaded fastFingerprint cfg (updates ++ more) st := by
  obtain ⟨update, hupdate, hst⟩ := h
  exact ⟨update, List.mem_append_left _ hupdate, hst⟩

theorem step_cfg (sg : ServerGroup) (e : Event) : (step fastFingerprint sg e).2.cfg = sg.cfg := by
  cases e with
  | finish err =>
    rw [step]
    split
    · split
      · rfl
      · rfl
    · rfl
  | stop =>
    rw [step]
    split
    · split <;> rfl
    · split <;> rfl
    · rfl
  | cancel => rfl
  | _ =>
    rw [step]
    split <;> rfl

/-- A goroutine that moves on, without a refresh that has ended. -/
theorem CacheInv.move (h : CacheInv fastFingerprint cfg errors updates refreshes g) (i : Nat)
    {refresh : Refresh} (hfetching : ∀ st, refresh = .fetching st →
      Loaded fastFingerprint cfg updates st) :
    CacheInv fastFingerprint cfg errors updates refreshes (g.move i refresh) where
  sync := h.sync
  opts := h.opts
  wrapped := h.wrapped
  once := by
    rw [CachedGroup.move, List.length_set]
    exact h.once
  names := h.names
  fetching st hst := by
    rcases List.mem_or_eq_of_mem_set hst with hst | hst
    · exact h.fetching st hst
    · exact hfetching st hst.symm
  refreshes := h.refreshes

theorem CacheInv.group (h : CacheInv fastFingerprint cfg errors updates refreshes g) (e : Event) :
    CacheInv fastFingerprint cfg errors (updates ++ (step fastFingerprint g.sg e).1.toList) refreshes
      { g with sg := (step fastFingerprint g.sg e).2 } where
  sync := inv_step h.sync e
  opts := (step_cfg g.sg e).trans h.opts
  wrapped := h.wrapped
  once := h.once
  names := h.names
  fetching st hst := (h.fetching st hst).append _
  refreshes r hr := ⟨(h.refreshes r hr).1.append _, (h.refreshes r hr).2⟩

theorem CacheInv.start (h : CacheInv fastFingerprint cfg errors updates refreshes g)
    (hnot : g.cache.started = false) :
    CacheInv fastFingerprint cfg errors updates refreshes
      { g with cache := { g.cache with
        started := true
        goroutines := g.cache.goroutines ++ [.due] } } where
  sync := h.sync
  opts := h.opts
  wrapped := h.wrapped
  once := by
    have honce := h.once
    rw [hnot, if_neg Bool.false_ne_true] at honce
    rw [List.length_append, honce]
    rfl
  names := h.names
  fetching st hst := by
    rcases List.mem_append.mp hst with hst | hst
    · exact h.fetching st hst
    · cases List.mem_singleton.mp hst
  refreshes := h.refreshes

theorem CacheInv.refreshed (h : CacheInv fastFingerprint cfg errors updates refreshes g) {i : Nat}
    {st : ServerGroupState} (hst : g.cache.goroutines[i]? = some (.fetching st))
    {events : List (Promclient.Event (Option Metadata))} {c : Called (Option Metadata)}
    (hc : metadataOf errors st events = some c) {md : Option Metadata} (hmd : c.value = .ok md) :
    CacheInv fastFingerprint cfg errors updates (refreshes ++ [⟨st, events, md⟩])
      { g with cache := { g.cache with
        names := some (histogramNames md)
        goroutines := g.cache.goroutines.set i .waiting } } where
  sync := h.sync
  opts := h.opts
  wrapped := h.wrapped
  once := by
    rw [List.length_set]
    exact h.once
  names := by rw [List.getLast?_concat]; rfl
  fetching st hst := by
    rcases List.mem_or_eq_of_mem_set hst with hst | hst
    · exact h.fetching st hst
    · cases hst
  refreshes r hr := by
    rcases List.mem_append.mp hr with hr | hr
    · exact h.refreshes r hr
    · rw [List.mem_singleton.mp hr]
      exact ⟨h.fetching st (List.mem_of_getElem? hst), c, hc, hmd⟩

/-- The event of the group, if it is one. -/
def CacheEvent.group? : CacheEvent → Option Event
  | .group e => some e
  | _ => none

/-- What becomes of the refreshes when a step ends none. -/
theorem CacheInv.not_refreshed (h : CacheInv fastFingerprint cfg errors updates refreshes g) :
    CacheInv fastFingerprint cfg errors (updates ++ ([] : List Update))
      (refreshes ++ (none : Option Refreshed).toList) g := by
  rw [Option.toList_none, List.append_nil, List.append_nil]
  exact h

theorem cacheInv_step (h : CacheInv fastFingerprint cfg errors updates refreshes g) (e : CacheEvent) :
    CacheInv fastFingerprint cfg errors
      (updates ++ updatesTaken fastFingerprint g.sg e.group?.toList)
      (refreshes ++ (cacheStep fastFingerprint g e).1.toList) (cacheStep fastFingerprint g e).2 := by
  cases e with
  | group e =>
    have htaken : updatesTaken fastFingerprint g.sg [e] =
        (step fastFingerprint g.sg e).1.toList := by
      rw [updatesTaken, outputs, outputs]
      cases (step fastFingerprint g.sg e).1 <;> rfl
    show CacheInv _ _ _ (updates ++ updatesTaken fastFingerprint g.sg [e]) (refreshes ++ []) _
    rw [htaken, List.append_nil]
    exact h.group e
  | start refresh =>
    rw [cacheStep]
    split
    · exact h.not_refreshed
    · rename_i hstart
      rw [Bool.or_eq_true, not_or] at hstart
      exact (h.start (Bool.eq_false_iff.mpr hstart.2)).not_refreshed
  | getAPI i =>
    rw [cacheStep]
    split
    · split
      · exact (h.move i fun st hst => by cases hst).not_refreshed
      · rename_i st hst
        refine (h.move i fun st' hst' => ?_).not_refreshed
        cases hst'
        have htaken := h.sync.taken st hst
        rw [h.opts] at htaken
        exact htaken
    · exact h.not_refreshed
  | answer i events =>
    rw [cacheStep]
    split
    · rename_i st hst
      split
      · exact h.not_refreshed
      · exact (h.move i fun st hst => by cases hst).not_refreshed
      · rename_i hc
        rw [h.wrapped] at hc
        have hrefreshed := h.refreshed hst hc rfl
        show CacheInv _ _ _ (updates ++ []) _ _
        rw [List.append_nil]
        exact hrefreshed
    · exact h.not_refreshed
  | tick i =>
    rw [cacheStep]
    split
    · exact (h.move i fun st hst => by cases hst).not_refreshed
    · exact h.not_refreshed
  | done i =>
    rw [cacheStep]
    split
    · split
      · exact (h.move i fun st hst => by cases hst).not_refreshed
      · exact h.not_refreshed
    · exact h.not_refreshed

/-! ## Runs -/

theorem cacheStep_sg (g : CachedGroup) (e : CacheEvent) :
    (cacheStep fastFingerprint g e).2.sg = final (step fastFingerprint) g.sg e.group?.toList := by
  cases e with
  | group e => rfl
  | getAPI i =>
    rw [cacheStep]
    split
    · split <;> rfl
    · rfl
  | answer i events =>
    rw [cacheStep]
    split
    · split <;> rfl
    · rfl
  | done i =>
    rw [cacheStep]
    split
    · split <;> rfl
    · rfl
  | _ =>
    rw [cacheStep]
    split <;> rfl

/-- The refreshes that replace the names, in order. -/
def refreshesOf (fastFingerprint : LabelSet → Fingerprint) (g : CachedGroup)
    (events : List CacheEvent) : List Refreshed :=
  (outputs (cacheStep fastFingerprint) g events).filterMap id

theorem cacheInv_final (h : CacheInv fastFingerprint cfg errors updates refreshes g)
    (events : List CacheEvent) :
    CacheInv fastFingerprint cfg errors
      (updates ++ updatesTaken fastFingerprint g.sg (events.filterMap CacheEvent.group?))
      (refreshes ++ refreshesOf fastFingerprint g events)
      (final (cacheStep fastFingerprint) g events) := by
  induction events generalizing g updates refreshes with
  | nil =>
    rw [List.filterMap_nil, updatesTaken, outputs, List.filterMap_nil, refreshesOf, outputs,
      List.filterMap_nil, List.append_nil, List.append_nil]
    exact h
  | cons e events ih =>
    have hnext := ih (cacheInv_step h e)
    rw [List.append_assoc, List.append_assoc, cacheStep_sg] at hnext
    have hrefreshes : refreshesOf fastFingerprint g (e :: events) =
        (cacheStep fastFingerprint g e).1.toList ++
          refreshesOf fastFingerprint (cacheStep fastFingerprint g e).2 events := by
      rw [refreshesOf, outputs, List.filterMap_cons]
      cases (cacheStep fastFingerprint g e).1 <;> rfl
    have hupdates : updatesTaken fastFingerprint g.sg ((e :: events).filterMap CacheEvent.group?) =
        updatesTaken fastFingerprint g.sg e.group?.toList ++
          updatesTaken fastFingerprint (final (step fastFingerprint) g.sg e.group?.toList)
            (events.filterMap CacheEvent.group?) := by
      rw [List.filterMap_cons]
      cases e.group? with
      | none => rfl
      | some e =>
        rw [updatesTaken, updatesTaken, outputs, Option.toList_some, outputs, outputs,
          ← List.singleton_append, List.filterMap_append]
        rfl
    rw [hrefreshes, hupdates]
    exact hnext

/-! ## What the names are -/

/-- What the first target knows of a metric that knows it, of those that have answered. -/
def firstKnown (answers : List (RawResult (Option Metadata))) (name : String) :
    Option (List MetricType) :=
  (successes answers).findSome? fun r => (r.value.getD []).lookup name

theorem mem_histogramNames {md : Option Metadata} {name : String} :
    name ∈ histogramNames md ↔ MetricType.histogram ∈ entries md name := by
  rw [histogramNames, List.mem_filter, List.contains_iff_mem]
  refine and_iff_right_of_imp fun h => ?_
  by_contra hnot
  rw [entries, lookup_eq_none_of_notMem hnot] at h
  cases h

theorem entries_metadataOf {st : ServerGroupState} (hst : Loaded fastFingerprint cfg updates st)
    {answers arrivals : List (RawResult (Option Metadata))}
    (hans : answers.map RawResult.ordinal = List.range st.multiAPI.apiFingerprints.length)
    (hp : arrivals.Perm answers) {c : Called (Option Metadata)}
    (hc : metadataOf errors st (arrivals.map .response) = some c) {md : Option Metadata}
    (hmd : c.value = .ok md) (name : String) :
    entries md name = (firstKnown answers name).getD [] := by
  obtain ⟨update, -, -, hload⟩ := hst
  have hpartialResponse := (apiFingerprints_loadTargets hload).2.2
  obtain ⟨called, hcalled, hsucc, hfail⟩ := MultiAPI.call_complete (fun _ => hpartialResponse) hans hp
    "metadata" mergeMetadata
  rw [metadataOf, MultiAPI.metadata, hcalled] at hc
  obtain rfl := Option.some.inj hc
  by_cases h : Succeeds st.multiAPI answers
  · have hvalue := groupClient_ok errors none (c := { called with warnings := ∅ }) (hsucc h).1
    rw [hvalue] at hmd
    rw [← Except.ok.inj hmd, entries, lookup_mergeMetadata]
    rfl
  · obtain ⟨err, herr⟩ := hfail h
    have hwrapped := groupClient_error errors none (c := { called with warnings := ∅ }) herr
    have hnone : successes answers = [] := by
      rw [succeeds_loadTargets hload, not_or] at h
      refine List.filterMap_eq_nil_iff.mpr fun ret hret => ?_
      have hnot : ret.ok ≠ true := fun hok => h.2 ⟨ret, hret, hok⟩
      rw [RawResult.ok] at hnot
      rw [RawResult.gathered]
      cases hvalue : ret.value with
      | error err => rfl
      | ok value =>
        rw [hvalue] at hnot
        exact absurd rfl hnot
    split at hwrapped
    · rw [hwrapped.1] at hmd
      rw [← Except.ok.inj hmd, firstKnown, hnone]
      rfl
    · rw [hwrapped] at hmd
      cases hmd

variable (fastFingerprint)

end Servergroup
end Proxeus
