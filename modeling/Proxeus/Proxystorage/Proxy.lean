import Proxeus.Lib.Ascending
import Proxeus.Promql.Eval

/-!
# Proxystorage.Proxy

The responses that `NodeReplacer` hands to the engine, over any type `V` of values, and what
`proxy.go` and `histogram_routing.go` do with them. A selector that has been given a response looks
its samples up by the lookback of the engine (`Response.lookup`).
-/

namespace Proxeus
namespace Proxystorage

open Lib Promql

/-- `metricNameWorkaroundLabel` -/
def metricNameWorkaroundLabel : String := "__name"

/-! ## Responses -/

/-- What a sample holds. `staleNaN` is the float that marks a series as stale. -/
inductive Point (V : Type) where
  | float (v : V)
  | staleNaN
  | histogram (v : V)
deriving DecidableEq

namespace Point

variable {V : Type}

def value : Point V → Option V
  | float v => some v
  | staleNaN => none
  | histogram v => some v

def isHistogram : Point V → Bool
  | histogram _ => true
  | _ => false

end Point

structure ResponseSeries (V : Type) where
  labels : Labels
  samples : List (Int × Point V)
deriving DecidableEq

/-- A `storage.SeriesSet` with the samples of a query. -/
structure Response (V : Type) where
  series : List (ResponseSeries V)
  err : Bool
deriving DecidableEq

section

variable {V : Type}

/-- `containsLossyHistogram`, by what it reports about the response. -/
def containsLossyHistogram (ss : Response V) : Bool :=
  ss.series.any fun s => s.samples.any fun p => p.2.isHistogram

/-- The times from `start` to `stop`, `step` apart. -/
def stepTimes (start stop step : Int) : List Int :=
  if step ≤ 0 ∨ stop < start then []
  else (List.range (((stop - start) / step).toNat + 1)).map fun i : Nat => start + i * step

theorem nodup_stepTimes (start stop step : Int) : (stepTimes start stop step).Nodup := by
  rw [stepTimes]
  split
  · exact List.nodup_nil
  · rename_i hno
    refine List.nodup_range.map fun i j hij => ?_
    have hstep : step ≠ 0 := by omega
    have hmul : (i : Int) * step = j * step := by simpa using hij
    exact_mod_cast mul_right_cancel₀ hstep hmul

theorem le_of_mem_stepTimes {start stop step t : Int} (h : t ∈ stepTimes start stop step) :
    0 < step ∧ start ≤ stop := by
  rw [stepTimes] at h
  split at h
  · cases h
  · omega

/-- `vectorToStepMatrix` -/
def vectorToStepMatrix (vec : Response V) (start stop step : Int) : Response V :=
  if step ≤ 0 ∨ stop < start then ⟨[], vec.err⟩
  else
    ⟨vec.series.map fun src =>
      ⟨src.labels,
        match src.samples.getLast? with
        | some p => (stepTimes start stop step).map fun ts => (ts, p.2)
        | none => []⟩,
      vec.err⟩

/-- `fillStaleNaNGaps` -/
def fillStaleNaNGaps (ss : Response V) (startTs endTs interval : Int) : Response V :=
  if interval ≤ 0 then ss
  else
    ⟨ss.series.map fun s =>
      let present := s.samples.map Prod.fst
      let expected := (endTs - startTs).tdiv interval + 1
      ⟨s.labels,
        if 0 < expected ∧ expected ≤ present.dedup.length + 10000 then
          sortBy Prod.fst (s.samples ++
            ((stepTimes startTs endTs interval).filter fun ts => ts ∉ present).map fun ts =>
              (ts, Point.staleNaN))
        else s.samples⟩,
      ss.err⟩

/-! ## The lookups of the engine -/

/-- The latest sample after `time - lookback`, up to `time`. -/
def latest (lookback : Int) (samples : List (Int × Point V)) (time : Int) :
    Option (Int × Point V) :=
  (samples.filter fun p => time - lookback < p.1 ∧ p.1 ≤ time).getLast?

/-- The value of a series at a time, which it does not have if its latest sample is stale. -/
def ResponseSeries.lookup (lookback : Int) (s : ResponseSeries V) (time : Int) : Option V :=
  (latest lookback s.samples time).bind fun p => p.2.value

def Response.lookup (lookback : Int) (ss : Response V) (time : Int) : Option (InstantVector V) :=
  if ss.err then none
  else some (ss.series.filterMap fun s => (s.lookup lookback time).map fun v => ⟨s.labels, v⟩)

/-- The result of an instant query. -/
def instantResponse (ts : Int) : Option (InstantVector V) → Response V
  | none => ⟨[], true⟩
  | some v => ⟨v.map fun s => ⟨s.metric, [(ts, Point.float s.value)]⟩, false⟩

theorem lookup_instantResponse {lookback : Int} (h : 0 < lookback) (ts : Int)
    (answer : Option (InstantVector V)) :
    (instantResponse ts answer).lookup lookback ts = answer := by
  cases answer with
  | none => rfl
  | some v =>
    have hvalue : ∀ s ∈ v, (ResponseSeries.lookup lookback ⟨s.metric, [(ts, Point.float s.value)]⟩
        ts).map (fun x => (⟨s.metric, x⟩ : VectorSample V)) = some s := by
      intro s _
      simp [ResponseSeries.lookup, latest, h, Point.value]
    rw [instantResponse, Response.lookup, if_neg (by simp), List.filterMap_map,
      Function.comp_def, List.filterMap_congr hvalue, List.filterMap_some]

end

end Proxystorage
end Proxeus
