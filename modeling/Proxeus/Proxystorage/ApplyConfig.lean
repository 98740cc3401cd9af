import Proxeus.Promclient.MultiAPI
import Proxeus.Proxyconfig.Config

/-!
# Proxystorage.ApplyConfig

`ProxyStorage.ApplyConfig`: every server group of a new config is created and configured; if all
that succeeds the new state replaces the old one, whose groups are cancelled, else the groups that
were created are cancelled. A group runs goroutines from its creation to its `Cancel`, so the groups
are numbered by their creations, and the ones that have been cancelled are kept. What creating,
configuring and waiting for a group come to is not decided here (`Outcomes`).
-/

namespace Proxeus
namespace Proxystorage
namespace ApplyConfig

open Lib Promclient

/-- `servergroup.ServerGroup` -/
structure ServerGroup where
  id : Nat
  cfg : Option Servergroup.Config
deriving DecidableEq

/-- The client of a state: a fan-out over the server groups. -/
structure Client where
  apis : List (Option ServerGroup)
  multiAPI : MultiAPI

/-- `proxyStorageState` -/
structure ProxyStorageState where
  sgs : List (Option ServerGroup)
  client : Option Client
  cfg : Option Proxyconfig.Config

/-- A `ProxyStorage`, the number of server groups created so far and those cancelled, in order. -/
structure ProxyStorage where
  state : Option ProxyStorageState
  next : Nat
  cancelled : List Nat

/-- What happens to the server groups of a call, by their index in the config: the error of
`NewServerGroup`, the error of `ServerGroup.ApplyConfig`, and whether it is ever ready. -/
structure Outcomes where
  newServerGroup : Nat → Option String
  applyConfig : Nat → Option String
  ready : Nat → Bool

/-- How a call ends, if it does. -/
inductive CallResult where
  | ok
  | error (err : String)
  /-- a nil pointer is dereferenced -/
  | panic
  /-- a server group is never ready -/
  | blocked
deriving DecidableEq

def ProxyStorage.getState (p : ProxyStorage) : ProxyStorageState :=
  p.state.getD ⟨[], none, none⟩

/-- The loop of `proxyStorageState.Cancel`: the groups it cancels, and whether it meets one that
was not created. -/
def cancelLoop : List (Option ServerGroup) → List Nat × Bool
  | [] => ([], false)
  | none :: _ => ([], true)
  | some sg :: sgs => (sg.id :: (cancelLoop sgs).1, (cancelLoop sgs).2)

/-- `Cancel` on the groups `sgs`, before the return of `result`. -/
def ProxyStorage.cancel (p : ProxyStorage) (sgs : List (Option ServerGroup))
    (result : CallResult) : ProxyStorage × CallResult :=
  ({ p with cancelled := p.cancelled ++ (cancelLoop sgs).1 },
    if (cancelLoop sgs).2 then .panic else result)

/-- The ordinal and the default name of the `i`-th group. -/
def assignOrdinal (i : Nat) (cfg : Servergroup.Config) : Servergroup.Config :=
  { cfg with ordinal := i, name := if cfg.name = "" then "sg-" ++ toString i else cfg.name }

def assignOrdinals (c : Proxyconfig.Config) : Proxyconfig.Config :=
  { c with serverGroups := c.serverGroups.mapIdx assignOrdinal }

/-- The loop that creates and configures the groups: the slice `sgs`, the number of groups created
and `failed`. -/
def createLoop (env : Outcomes) :
    Nat → List Servergroup.Config → Nat → List (Option ServerGroup) × Nat × Bool
  | _, [], next => ([], next, false)
  | i, cfg :: groups, next =>
    match env.newServerGroup i with
    | some _ =>
      let r := createLoop env (i + 1) groups next
      (none :: r.1, r.2.1, true)
    | none =>
      let r := createLoop env (i + 1) groups (next + 1)
      (some ⟨next, some cfg⟩ :: r.1, r.2.1, (env.applyConfig i).isSome || r.2.2)

theorem requiredCount_newMultiAPI {fingerprints : List Fingerprint} {count : Int} {m : MultiAPI}
    (h : newMultiAPI fingerprints count = .ok m) : m.requiredCount = count := by
  rw [newMultiAPI] at h
  split at h
  · cases h
    rfl
  · cases h

/-- `NewCrossGroupMultiAPI` over `n` server groups, which have no `Key`. -/
def newCrossGroupMultiAPI (n : Nat) (partialResponse : Bool) : Except String MultiAPI :=
  match h : newMultiAPI (List.replicate n 0) 1 with
  | .error err => .error err
  | .ok m =>
    .ok { m.isolateFingerprints (requiredCount_newMultiAPI h).le with partialResponse }

/-- The fan-out over the groups. -/
def newClient (c : Proxyconfig.Config) (apis : List (Option ServerGroup)) :
    Except String Client :=
  let multiAPI :=
    if c.crossGroupDedup then newCrossGroupMultiAPI apis.length c.crossGroupPartialResponse
    else newMultiAPI (List.replicate apis.length 0) apis.length
  match multiAPI with
  | .error err => .error err
  | .ok m => .ok ⟨apis, m⟩

variable [ModelPackage]

def ProxyStorage.applyConfig (p : ProxyStorage) (c : Proxyconfig.Config) (env : Outcomes) :
    ProxyStorage × CallResult :=
  match c.validate with
  | .error err => (p, .error err)
  | .ok () =>
    let oldState := p.getState
    let c := assignOrdinals c
    let unique :=
      if c.crossGroupDedup then Proxyconfig.validateUniqueServerGroupLabels c.serverGroups
      else .ok ()
    match unique with
    | .error err => (p, .error err)
    | .ok () =>
      let r := createLoop env 0 c.serverGroups p.next
      let p := { p with next := r.2.1 }
      if r.2.2 then p.cancel r.1 (.error "error applying config to one or more server group(s)")
      else
        match newClient c r.1 with
        | .error err => p.cancel r.1 (.error err)
        | .ok client =>
          if (List.range r.1.length).all env.ready then
            let p := { p with state := some ⟨r.1, some client, some c⟩ }
            p.cancel oldState.sgs .ok
          else (p, .blocked)

/-- A call of a run. -/
structure Call where
  cfg : Proxyconfig.Config
  env : Outcomes

/-- The storage after the calls, one after the other; there is none where one of them has not
returned. -/
def ProxyStorage.after : ProxyStorage → List Call → Option ProxyStorage
  | p, [] => some p
  | p, call :: calls =>
    match p.applyConfig call.cfg call.env with
    | (p', .ok) => p'.after calls
    | (p', .error _) => p'.after calls
    | (_, .panic) => none
    | (_, .blocked) => none

/-- `NewProxyStorage`, before any server group. -/
def newProxyStorage : ProxyStorage := ⟨none, 0, []⟩

end ApplyConfig
end Proxystorage
end Proxeus
