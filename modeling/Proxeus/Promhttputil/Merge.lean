import Proxeus.Promhttputil.GapFill

/-!
# Promhttputil.Merge

`MergeSampleStream` and `mergeHistogramSamples` of `merge.go`: one pass over the longer of two
sample lists that takes from the shorter one what is further than the anti-affinity buffer from
its neighbours. Both passes are `mergePass`, which takes how a sample of the longer list is
emitted as a parameter: `preferLoop` may replace its value, the histograms are emitted as they
are.
-/

namespace Proxeus
namespace Promhttputil

open Lib

section

variable {α : Type*} (time : α → Int) (buffer : Int)

/-- The first loop over `b`: the points emitted and the value `bOffset` is left with, which is the
index of the last point seen, emitted or not. -/
def prefixLoop (aStartBuffered : Int) : List α → Nat → Nat → List α × Nat
  | [], _, bOffset => ([], bOffset)
  | bValue :: rest, i, _ =>
    if time bValue < aStartBuffered then
      let r := prefixLoop aStartBuffered rest (i + 1) i
      (bValue :: r.1, r.2)
    else ([], i)

/-- The loop over `b` inside the hole before `aTime`, from `bOffset` on. -/
def betweenLoop (lastTime aTime : Int) : List α → Nat → List α × Nat
  | [], bOffset => ([], bOffset)
  | bValue :: rest, bOffset =>
    if aTime ≤ time bValue then ([], bOffset)
    else
      let r := betweenLoop lastTime aTime rest (bOffset + 1)
      if lastTime + buffer < time bValue && time bValue < aTime - buffer then
        (bValue :: r.1, r.2)
      else r

/-- The variables of the loop over `a`. -/
structure MergeVars (α : Type*) where
  newValues : List α
  bOffset : Nat
  lastOffset : Nat

/-- One turn of the loop over `a`. `emit` is what is appended for `aValue`, with the new
`lastOffset`; the very first point emitted does not go through it. -/
def mergeTurn (emit : α → Nat → α × Nat) (b : List α) (v : MergeVars α) (aValue : α) :
    MergeVars α :=
  match v.newValues.getLast? with
  | none => { v with newValues := [aValue] }
  | some last =>
    let found :=
      if buffer * 2 < time aValue - time last then
        betweenLoop time buffer (time last) (time aValue) (b.drop v.bOffset) v.bOffset
      else ([], v.bOffset)
    let r := emit aValue v.lastOffset
    { newValues := v.newValues ++ found.1 ++ [r.1], bOffset := found.2, lastOffset := r.2 }

/-- The loop over `b` after the last point of `a`. -/
def finishPass (b : List α) (v : MergeVars α) : List α :=
  match v.newValues.getLast? with
  | none => []
  | some last =>
    v.newValues ++ (b.drop v.bOffset).filter fun bValue => time last + buffer < time bValue

/-- What is emitted of `b` before the first point of `a`. -/
def startPass (a b : List α) : MergeVars α :=
  match a, b with
  | a0 :: _, b0 :: _ =>
    let aStartBuffered := time a0 - buffer
    let r := if time b0 < aStartBuffered then prefixLoop time aStartBuffered b 0 0 else ([], 0)
    { newValues := r.1, bOffset := r.2, lastOffset := r.2 }
  | _, _ => { newValues := [], bOffset := 0, lastOffset := 0 }

/-- The pass over two lists that are not empty. -/
def mergePass (emit : α → Nat → α × Nat) (a b : List α) : List α :=
  finishPass time buffer b (a.foldl (mergeTurn time buffer emit b) (startPass time buffer a b))

end

def mergeHistogramSamples (antiAffinityBuffer : Int) (a b : List SampleHistogramPair) :
    List SampleHistogramPair :=
  if a = [] then b
  else if b = [] then a
  else
    let (a, b) := if a.length < b.length then (b, a) else (a, b)
    mergePass SampleHistogramPair.timestamp antiAffinityBuffer Prod.mk a b

/-! ## The dynamic buffer -/

def minDynamicGaps : Nat := 3

def dynamicAntiAffinityFromTimes (a b : List Int) : Option Int :=
  let gaps := positiveGaps a
  let gaps := if gaps.length < minDynamicGaps then gaps ++ positiveGaps b else gaps
  if gaps.length < minDynamicGaps then none
  else (sortBy id gaps)[gaps.length / 2]?.map fun median => median / 2

def dynamicAntiAffinity (a b : List SamplePair) : Option Int :=
  dynamicAntiAffinityFromTimes (a.map SamplePair.timestamp) (b.map SamplePair.timestamp)

def histogramTimestamps (s : List SampleHistogramPair) : List Int :=
  s.map SampleHistogramPair.timestamp

def dynamicBufferForStream (a b : SampleStream) : Option Int :=
  let (fa, fb) :=
    if a.values.length < b.values.length then (b.values, a.values) else (a.values, b.values)
  match dynamicAntiAffinity fa fb with
  | some dyn => some dyn
  | none =>
    let ha := histogramTimestamps a.histograms
    let hb := histogramTimestamps b.histograms
    let (ha, hb) := if ha.length < hb.length then (hb, ha) else (ha, hb)
    dynamicAntiAffinityFromTimes ha hb

/-! ## Merging streams -/

/-- The scan of `b` for a sample within the buffer of `aValue` and larger than it, from
`lastOffset` on; `i` is the index of the first sample of the list. -/
def preferLoop (buffer : Int) (aValue : SamplePair) (lastOffset : Nat) :
    List SamplePair → Nat → SamplePair × Nat
  | [], _ => (aValue, lastOffset)
  | bValue :: rest, i =>
    if aValue.timestamp + buffer ≤ bValue.timestamp && bValue.timestamp ≠ aValue.timestamp then
      (aValue, lastOffset)
    else if bValue.timestamp = aValue.timestamp ||
        aValue.timestamp - buffer < bValue.timestamp then
      if bValue.value.gt aValue.value then ({ bValue with timestamp := aValue.timestamp }, i)
      else (aValue, i)
    else preferLoop buffer aValue lastOffset rest (i + 1)

/-- The float half of `MergeSampleStream`, `a` being the longer side. -/
def mergeFloatSamples (antiAffinityBuffer : Int) (preferMax : Bool) (a b : List SamplePair) :
    List SamplePair :=
  let emit aValue lastOffset :=
    if preferMax then
      preferLoop antiAffinityBuffer aValue lastOffset (b.drop lastOffset) lastOffset
    else (aValue, lastOffset)
  mergePass SamplePair.timestamp antiAffinityBuffer emit a b

/-- The buffer `MergeSampleStream` merges both sample types with. -/
def effectiveBuffer (antiAffinityBuffer : Int) (dynamic : Bool) (a b : SampleStream) : Int :=
  if dynamic then (dynamicBufferForStream a b).getD antiAffinityBuffer else antiAffinityBuffer

def mergeSampleStream [Prometheus] (antiAffinityBuffer : Int) (dynamic : Bool)
    (a b : SampleStream) (preferMax : Bool) : Except String SampleStream :=
  if Prometheus.fingerprint a.metric ≠ Prometheus.fingerprint b.metric then
    .error "cannot merge mismatch fingerprints"
  else
    let buffer := effectiveBuffer antiAffinityBuffer dynamic a b
    let mergedHistograms := mergeHistogramSamples buffer a.histograms b.histograms
    if a.values = [] ∧ b.values = [] then .ok ⟨a.metric, [], mergedHistograms⟩
    else if a.values = [] then .ok ⟨b.metric, b.values, mergedHistograms⟩
    else if b.values = [] then .ok ⟨a.metric, a.values, mergedHistograms⟩
    else
      let (a, b) := if a.values.length < b.values.length then (b, a) else (a, b)
      .ok ⟨a.metric, mergeFloatSamples buffer preferMax a.values b.values, mergedHistograms⟩

end Promhttputil
end Proxeus
