import Proxeus.Promclient.CrossGroupDedup

/-!
# Promclient.MultiAPI

`multi_api.go`: a call is fanned out to several APIs and the responses are gathered in the order of
their arrival. Every API belongs to the bucket of its fingerprint. Each bucket has to answer
`requiredCount` times, unless partial responses are accepted. `scatterGather` and `scatterMerge` run the
same loop over the events they select on, a response or the end of the caller's context.
-/

namespace Proxeus
namespace Promclient

open Lib

/-- `model.Fingerprint` -/
abbrev Fingerprint := BitVec 64

/-! ## Errors -/

/-- The types `promhttputil.ErrorBadData` and `promhttputil.ErrorExec`. -/
def isBackendQueryError (err : BackendError) : Bool :=
  err.errorType = some "bad_data" || err.errorType = some "execution"

/-- Wrapping no error gives no error. -/
def fetchError : Option BackendError → Option BackendError
  | none => none
  | some err =>
    if isBackendQueryError err then some err
    else some { err with msg := "Unable to fetch from downstream servers: " ++ err.msg }

def partialResponseErr (i : Nat) (err : BackendError) : String :=
  if isBackendQueryError err then
    "partial_response: backend[" ++ toString i ++ "] rejected the query: " ++ err.msg
  else "partial_response: backend[" ++ toString i ++ "] unavailable: " ++ err.msg

/-! ## Counters -/

/-- `map[model.Fingerprint]int` -/
abbrev Counter := List (Fingerprint × Int)

namespace Counter

/-- The entry of `k`, or Go's zero for a missing one. -/
def get (k : Fingerprint) : Counter → Int
  | [] => 0
  | (k', n) :: c => if k' = k then n else Counter.get k c

/-- `c[k] += d` -/
def add (k : Fingerprint) (d : Int) : Counter → Counter
  | [] => [(k, d)]
  | (k', n) :: c => if k' = k then (k', n + d) :: c else (k', n) :: Counter.add k d c

end Counter

/-! ## The fan-out -/

/-- `MultiAPI`, as far as the gathering loops read it. The field `enough` is what `NewMultiAPI`
checks. -/
structure MultiAPI where
  apiFingerprints : List Fingerprint
  requiredCount : Int
  partialResponse : Bool
  enough : ∀ fp ∈ apiFingerprints, requiredCount ≤ apiFingerprints.count fp

def newMultiAPI (apiFingerprints : List Fingerprint) (requiredCount : Int) :
    Except String MultiAPI :=
  if h : ∀ fp ∈ apiFingerprints, requiredCount ≤ apiFingerprints.count fp then
    .ok ⟨apiFingerprints, requiredCount, false, h⟩
  else .error "unable to create multiAPI as the APIs aren't unique"

namespace MultiAPI

/-- `isolateFingerprints`, on a fan-out that requires one answer for each bucket. -/
def isolateFingerprints (m : MultiAPI) (h : m.requiredCount ≤ 1) : MultiAPI where
  apiFingerprints := (List.range m.apiFingerprints.length).map fun i => BitVec.ofNat 64 (i + 1)
  requiredCount := m.requiredCount
  partialResponse := m.partialResponse
  enough fp hfp := by
    have := List.count_pos_iff.mpr hfp
    omega

def abortOnError (m : MultiAPI) (ls : Fingerprint) (outstanding success : Counter) : Bool :=
  if m.partialResponse then false else outstanding.get ls + success.get ls < m.requiredCount

def missingRequired (m : MultiAPI) (outstanding success : Counter) : Bool :=
  if m.partialResponse then success.length = 0
  else outstanding.any fun p => success.get p.1 < m.requiredCount

end MultiAPI

/-- `gathered` -/
structure Gathered (T : Type*) where
  value : T
  ordinal : Nat
deriving DecidableEq

/-- What a backend's goroutine sends: `rawResult`, and `chanResult` for a series set. -/
structure RawResult (T : Type*) where
  value : Except BackendError T
  warnings : Finset String
  ordinal : Nat

/-- What the select of a turn can receive. -/
inductive Event (T : Type*) where
  | ctxDone (err : BackendError)
  | response (ret : RawResult T)

/-- The variables of the loop. -/
structure GatherVars (T : Type*) where
  outstanding : Counter
  success : Counter
  results : List (Gathered T)
  warnings : Finset String
  lastError : Option BackendError

/-- How the loop ends. -/
inductive Outcome (T : Type*) where
  /-- the results handed on -/
  | merged (results : List (Gathered T)) (warnings : Finset String)
  /-- the early abort -/
  | aborted (err : BackendError) (warnings : Finset String)
  /-- the final check, with the error it returns -/
  | missing (err : Option BackendError) (warnings : Finset String)
  | cancelled (err : BackendError) (warnings : Finset String)

section

variable {T : Type*} (m : MultiAPI) (apiName : String)

def sortGathered (results : List (Gathered T)) : List (Gathered T) :=
  sortBy Gathered.ordinal results

def cancellationWarning (gathered : Nat) (err : BackendError) : String :=
  "partial_response: " ++ apiName ++ " returning " ++ toString gathered ++ "/" ++
    toString m.apiFingerprints.length ++ " backends after cancellation: " ++ err.msg

/-- The bucket of a backend. -/
def MultiAPI.ls (ordinal : Nat) : Fingerprint := m.apiFingerprints.getD ordinal 0

/-- The branch of `ctx.Done()`. -/
def cancel (v : GatherVars T) (err : BackendError) : Outcome T :=
  if m.partialResponse && 0 < v.results.length then
    .merged (sortGathered v.results)
      (insert (cancellationWarning m apiName v.results.length err) v.warnings)
  else .cancelled err v.warnings

/-- The branch of a response; the left side is a return. -/
def receive (v : GatherVars T) (ret : RawResult T) : Outcome T ⊕ GatherVars T :=
  let warnings := v.warnings ∪ ret.warnings
  let outstanding := v.outstanding.add (m.ls ret.ordinal) (-1)
  match ret.value with
  | .error err =>
    if m.abortOnError (m.ls ret.ordinal) outstanding v.success then .inl (.aborted err warnings)
    else
      .inr { v with
        outstanding, lastError := some err
        warnings :=
          if m.partialResponse then insert (partialResponseErr ret.ordinal err) warnings
          else warnings }
  | .ok value =>
    .inr { v with
      outstanding, warnings
      success := v.success.add (m.ls ret.ordinal) 1
      results := v.results ++ [⟨value, ret.ordinal⟩] }

/-- After the last turn. -/
def finish (v : GatherVars T) : Outcome T :=
  if m.missingRequired v.outstanding v.success then .missing (fetchError v.lastError) v.warnings
  else .merged (sortGathered v.results) v.warnings

/-- The turns left, on the events still to come. A loop that waits for an event that never comes
has no outcome. -/
def gatherLoop : Nat → GatherVars T → List (Event T) → Option (Outcome T)
  | 0, v, _ => some (finish m v)
  | _ + 1, _, [] => none
  | _ + 1, v, .ctxDone err :: _ => some (cancel m apiName v err)
  | n + 1, v, .response ret :: events =>
    match receive m v ret with
    | .inl outcome => some outcome
    | .inr v => gatherLoop n v events

def initVars : GatherVars T where
  outstanding := m.apiFingerprints.foldl (fun outstanding fp => outstanding.add fp 1) []
  success := []
  results := []
  warnings := ∅
  lastError := none

def gather (events : List (Event T)) : Option (Outcome T) :=
  gatherLoop m apiName m.apiFingerprints.length (initVars m) events

/-- `scatterGather`: the results, the warnings and the error it returns. -/
def scatterGather (events : List (Event T)) :
    Option (List (Gathered T) × Finset String × Option BackendError) :=
  (gather m apiName events).map fun
    | .merged results warnings => (results, warnings, none)
    | .aborted err warnings => ([], warnings, some err)
    | .missing err warnings => ([], warnings, err)
    | .cancelled err warnings => ([], warnings, some err)

end

/-- The message of a backend that answered with the series set `ss`. -/
def chanResult (ordinal : Nat) (ss : SeriesSet) : RawResult SeriesSet where
  value :=
    match ss.err with
    | some err => .error err
    | none => .ok ss
  warnings := ss.warnings
  ordinal := ordinal

/-- `WithWarnings` -/
def withWarnings (ss : SeriesSet) (w : Finset String) : SeriesSet :=
  { ss with warnings := ss.warnings ∪ w }

/-- `scatterMerge`, with the hook `seriesSetMergeFn`. -/
def scatterMerge (m : MultiAPI) (op : String)
    (seriesSetMergeFn : List OrdinalSeriesSet → SeriesSet) (events : List (Event SeriesSet)) :
    Option SeriesSet :=
  (gather m op events).map fun
    | .merged results warnings =>
      withWarnings (seriesSetMergeFn (results.map fun r => ⟨r.ordinal, r.value⟩)) warnings
    | .aborted err warnings => ⟨[], warnings, some err⟩
    | .missing err warnings => ⟨[], warnings, err⟩
    | .cancelled err warnings => ⟨[], warnings, some err⟩

end Promclient
end Proxeus
