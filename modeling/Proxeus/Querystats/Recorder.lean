import Mathlib.Data.BitVec
import Proxeus.Lib.Ascending
import Proxeus.Lib.Machine

/-!
# Querystats.Recorder

`querystats.go`: a recorder of the requests that a query makes of the server groups. `Begin` gives a
request its place, `Finish` adds what it returned to the row of its group and, for the first hundred, to
the list. What it is to report is said by a `Ledger`, the requests in the order of `Begin`, each with
the outcome of its first `Finish`.

The calls are the critical sections under the mutex of the recorder, and the `Once` of an entry. The
durations are not recorded. An `int64` is its bits, so that sums wrap around as they do in the program.
-/

namespace Proxeus
namespace Querystats

open Lib

/-! ## Data -/

/-- `Group` -/
structure Group where
  name : String
  ordinal : Int
  labels : Option (List (String × String))

/-- `Request` -/
structure Request where
  groupOrdinal : Int
  op : String
  path : String
  query : String
  start : Int
  stop : Int
  step : Int
deriving DecidableEq, Repr

/-- The arguments of `Finish`. -/
structure Outcome where
  series : BitVec 64
  samples : BitVec 64
  err : Option String
deriving DecidableEq, Repr

/-- `GroupStats` -/
structure GroupStats where
  name : String
  ordinal : Int
  labels : List (String × String)
  requests : Nat
  errors : Nat
  series : BitVec 64
  samples : BitVec 64
deriving DecidableEq, Repr

/-- `RequestStats` -/
structure RequestStats where
  group : String
  op : String
  path : String
  query : String
  start : Int
  stop : Int
  step : Int
  series : BitVec 64
  samples : BitVec 64
  status : String
  error : String
deriving DecidableEq, Repr

/-- `Stats` -/
structure Stats where
  groups : List GroupStats
  requests : List RequestStats
  requestsTruncated : Nat
deriving DecidableEq, Repr

def maxRequests : Nat := 100

def statusSuccess : String := "success"

def statusError : String := "error"

/-! ## The recorder -/

structure Recorder where
  groups : List GroupStats
  byOrdinal : Int → Option Nat
  begun : Nat
  requests : List (Option RequestStats)
  truncated : Nat

/-- The row of a group without requests. -/
def emptyRow (name : String) (ordinal : Int) (labels : List (String × String)) : GroupStats :=
  ⟨name, ordinal, labels, 0, 0, 0, 0⟩

/-- The loop that fills `byOrdinal`, from the row `i` on. -/
def indexRows : List GroupStats → Nat → (Int → Option Nat) → Int → Option Nat
  | [], _, byOrdinal => byOrdinal
  | g :: groups, i, byOrdinal =>
    indexRows groups (i + 1) (Function.update byOrdinal g.ordinal (some i))

def newRecorder (groups : List Group) : Recorder :=
  let rows := sortBy GroupStats.ordinal
    (groups.map fun g => emptyRow g.name g.ordinal (g.labels.getD []))
  { groups := rows
    byOrdinal := indexRows rows 0 fun _ => none
    begun := 0
    requests := []
    truncated := 0 }

namespace Recorder

/-- `Recorder.group`: the index of the row, which is added if it is missing. -/
def group (r : Recorder) (ordinal : Int) : Nat × Recorder :=
  match r.byOrdinal ordinal with
  | some i => (i, r)
  | none =>
    (r.groups.length,
      { r with
        groups := r.groups ++ [emptyRow "" ordinal []]
        byOrdinal := Function.update r.byOrdinal ordinal (some r.groups.length) })

def stats (r : Recorder) : Stats where
  groups := sortBy GroupStats.ordinal r.groups
  requests := r.requests.filterMap id
  requestsTruncated := r.truncated

end Recorder

/-- `Entry`, with whether its `Once` is done. -/
structure Entry where
  seq : Nat
  req : Request
  once : Bool

def requestStats (group : String) (req : Request) (o : Outcome) : RequestStats where
  group := group
  op := req.op
  path := req.path
  query := req.query
  start := req.start
  stop := req.stop
  step := req.step
  series := o.series
  samples := o.samples
  status := if o.err.isSome then statusError else statusSuccess
  error := o.err.getD ""

/-- A group's row after a request. -/
def GroupStats.add (g : GroupStats) (o : Outcome) : GroupStats :=
  { g with
    requests := g.requests + 1
    series := g.series + o.series
    samples := g.samples + o.samples
    errors := if o.err.isSome then g.errors + 1 else g.errors }

/-- `Entry.finish` -/
def Entry.finish (e : Entry) (o : Outcome) (r : Recorder) : Recorder :=
  let (i, r) := r.group e.req.groupOrdinal
  match r.groups[i]? with
  -- the index of the row is in range
  | none => r
  | some g =>
    let r := { r with groups := r.groups.set i (g.add o) }
    if maxRequests ≤ e.seq then { r with truncated := r.truncated + 1 }
    else
      let requests := r.requests ++ List.replicate (e.seq + 1 - r.requests.length) none
      { r with requests := requests.set e.seq (some (requestStats g.name e.req o)) }

/-! ## Calls -/

/-- The calls of the users of a recorder. An entry is known by its place in the order of `Begin`. -/
inductive Call where
  | begin (req : Request)
  | finish (entry : Nat) (o : Outcome)

/-- The recorder and the entries that it has handed out. -/
structure Session where
  recorder : Recorder
  entries : List Entry

/-- The calls answer nothing that a recorder is asked for. -/
def call (s : Session) : Call → Unit × Session
  | .begin req =>
    ((), { recorder := { s.recorder with begun := s.recorder.begun + 1 }
           entries := s.entries ++ [⟨s.recorder.begun, req, false⟩] })
  | .finish i o =>
    match s.entries[i]? with
    | none => ((), s)
    | some e =>
      if e.once then ((), s)
      else
        ((), { recorder := e.finish o s.recorder
               entries := s.entries.set i { e with once := true } })

/-- The recorder after the calls. -/
def record (groups : List Group) (calls : List Call) : Recorder :=
  (final call ⟨newRecorder groups, []⟩ calls).recorder

/-! ## The ledger -/

/-- The requests that have begun, with the outcome of those that have finished. -/
abbrev Ledger := List (Request × Option Outcome)

/-- The first `Finish` of an entry settles its outcome. -/
def Ledger.call (l : Ledger) : Call → Unit × Ledger
  | .begin req => ((), l ++ [(req, none)])
  | .finish i o =>
    match l[i]? with
    | some (req, none) => ((), l.set i (req, some o))
    | _ => ((), l)

def ledger (calls : List Call) : Ledger := final Ledger.call [] calls

namespace Ledger

/-- The outcomes of the finished requests of a group. -/
def outcomes (l : Ledger) (ordinal : Int) : List Outcome :=
  l.filterMap fun p => if p.1.groupOrdinal = ordinal then p.2 else none

/-- The groups of the finished requests. -/
def finishedOrdinals (l : Ledger) : List Int :=
  l.filterMap fun p => p.2.map fun _ => p.1.groupOrdinal

end Ledger

/-- The name and the labels of a group of the snapshot, none for another group. -/
def groupName (groups : List Group) (ordinal : Int) : String :=
  ((groups.find? fun g => g.ordinal = ordinal).map Group.name).getD ""

def groupLabels (groups : List Group) (ordinal : Int) : List (String × String) :=
  ((groups.find? fun g => g.ordinal = ordinal).bind Group.labels).getD []

/-- The row that a group is to have: the totals of its finished requests. -/
def groupRow (groups : List Group) (l : Ledger) (ordinal : Int) : GroupStats where
  name := groupName groups ordinal
  ordinal := ordinal
  labels := groupLabels groups ordinal
  requests := (l.outcomes ordinal).length
  errors := (l.outcomes ordinal).countP fun o => o.err.isSome
  series := ((l.outcomes ordinal).map Outcome.series).sum
  samples := ((l.outcomes ordinal).map Outcome.samples).sum

/-- How a request of the ledger is to be listed. -/
def ledgerStats (groups : List Group) (p : Request × Option Outcome) : Option RequestStats :=
  p.2.map (requestStats (groupName groups p.1.groupOrdinal) p.1)

/-- What is to be reported of a ledger: a row for each group of the snapshot and each group of a finished
request, in the order of the ordinals; the finished ones of the first hundred requests, in the order of
`Begin`; and the number of the others that have finished. -/
structure Reports (groups : List Group) (l : Ledger) (s : Stats) : Prop where
  sorted : Ascending GroupStats.ordinal s.groups
  ordinals : ∀ ordinal, ordinal ∈ s.groups.map GroupStats.ordinal ↔
    ordinal ∈ groups.map Group.ordinal ∨ ordinal ∈ l.finishedOrdinals
  rows : ∀ g ∈ s.groups, g = groupRow groups l g.ordinal
  requests : s.requests = (l.take maxRequests).filterMap (ledgerStats groups)
  truncated : s.requestsTruncated = ((l.drop maxRequests).filterMap Prod.snd).length

end Querystats
end Proxeus
