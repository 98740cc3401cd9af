import Proxeus.Promclient.CrossGroupDedup
import Proxeus.Promclient.MergeSeriesSets

/-!
# Federate.Federate

`federate.go`: the handler selects the series of every `match[]`, merges what has been selected,
and writes the newest sample of each merged series. The merge, by `storage.NewMergeSeriesSet` and
`storage.ChainedSeriesMerge`, leaves open in which order equal heads are taken, and which of several
samples at one time is kept, so what is written is a relation (`Serves`).

`ProxyQuerier.Select`, which the handler calls, does not sort: what it returns with cross-group
dedup is in the order in which the backends, one after the other, list the series.
-/

namespace Proxeus

namespace Proxyquerier

open Promclient Promhttputil Promql

variable [Prometheus] {Key : Type*} [DecidableEq Key]

/-- `ProxyQuerier.Select` of samples over the server groups, each with what it answers for some
matchers, when all of them answer. -/
def select (sortSlice : List DedupBucketMember → List DedupBucketMember)
    (bytesWithoutLabels : Labels → List String → Key) (ignoreNames : List String)
    (opts : DedupGapOpts) (backends : List (List Matcher → List Series))
    (matchers : List Matcher) : List Series :=
  (dedupSeriesSetsFillGapsBy sortSlice bytesWithoutLabels
    (backends.zipIdx.map fun b => ⟨b.2, ⟨b.1 matchers, ∅, none⟩⟩) ignoreNames opts
    DedupStats.empty).1.series

end Proxyquerier

namespace Federate

open Lib Promclient

/-- `floatSample` -/
structure FloatSample where
  metric : Labels
  t : Int
  f : SampleValue
deriving DecidableEq

/-! ## Merged series -/

/-- A series that `storage.ChainedSeriesMerge` may make of the series of a group, in whatever order
they are: it has their samples, one for each time. A series that is alone is not merged. -/
def IsChained (group : List Series) (s : Series) : Prop :=
  group = [s] ∨
    1 < group.length ∧ (∃ x ∈ group, x.labels = s.labels) ∧ Ascending Sample.t s.samples ∧
      (∀ y ∈ s.samples, ∃ x ∈ group, y ∈ x.samples) ∧
      ∀ x ∈ group, ∀ y ∈ x.samples, ∃ y' ∈ s.samples, y'.t = y.t

/-! ## The newest sample -/

/-- What the buffered iterator is left at by `Seek(maxt)`, or `PeekBack(1)` once it has run out. -/
def seekOrPeekBack (delta maxt : Int) (samples : List Sample) : Option Sample :=
  let window := samples.dropWhile fun x => x.t < maxt - delta
  match window.find? fun x => maxt ≤ x.t with
  | some x => some x
  | none => window.getLast?

/-- The turn of the loop over the merged series. -/
def newestFloat (delta maxt : Int) (s : Series) : Option FloatSample :=
  match seekOrPeekBack delta maxt s.samples with
  | some (.float t f) => if f.isStaleNaN then none else some ⟨s.labels, t, f⟩
  | _ => none

/-! ## The handler -/

/-- The samples that the handler may collect from the selected sets. -/
def Collects (delta maxt : Int) (sets : List (List Series)) (vec : List FloatSample) : Prop :=
  ∃ groups merged, MergeRun seriesKey sets groups ∧
    List.Forall₂ (fun g s => IsChained g.2 s) groups merged ∧
    vec = merged.filterMap (newestFloat delta maxt)

/-- The samples that `ServeHTTP` may write: what is collected, sorted by the metric name. -/
def Serves (delta maxt : Int) (sets : List (List Series)) (written : List FloatSample) : Prop :=
  ∃ vec, Collects delta maxt sets vec ∧ written.Perm vec ∧
    written.Pairwise fun s s' => s.metric.get metricNameLabel ≤ s'.metric.get metricNameLabel

end Federate
end Proxeus
