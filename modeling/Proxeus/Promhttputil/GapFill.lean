import Proxeus.Model.Sample

/-!
# Promhttputil.GapFill

`gap_fill.go`: every sample of the base stream is kept, and the fillers are consulted, in order,
inside the gaps of the streams before them. `fill` recurses into the next stream for every gap of
the current one; the cursors and the `Filled` counters of the source are the state it threads.
-/

namespace Proxeus
namespace Promhttputil

open Lib

/-- A float sample or a histogram one; the source tells them apart by `h` being set. -/
inductive TimelineValue where
  | float (f : SampleValue)
  | histogram (h : SampleHistogram)
deriving DecidableEq, Repr

/-- `timelineSample` -/
structure TimelineSample where
  t : Int
  v : TimelineValue
deriving DecidableEq, Repr

def TimelineSample.stale (p : TimelineSample) : Bool :=
  match p.v with
  | .float f => f.isStaleNaN
  | .histogram h => h.sum.isStaleNaN

def SamplePair.point (p : SamplePair) : TimelineSample := ⟨p.timestamp, .float p.value⟩

def SampleHistogramPair.point (p : SampleHistogramPair) : TimelineSample :=
  ⟨p.timestamp, .histogram p.histogram⟩

/-- The turns of the loop of `timeline` up to the one that takes the float `v`; `rest` is the loop
after it. -/
def timelineStep (v : SamplePair) (rest : List SampleHistogramPair → List TimelineSample) :
    List SampleHistogramPair → List TimelineSample
  | [] => SamplePair.point v :: rest []
  | h :: hs =>
    if v.timestamp ≤ h.timestamp then SamplePair.point v :: rest (h :: hs)
    else SampleHistogramPair.point h :: timelineStep v rest hs

def timelineLoop : List SamplePair → List SampleHistogramPair → List TimelineSample
  | [] => fun hs => hs.map SampleHistogramPair.point
  | v :: vs => timelineStep v (timelineLoop vs)

def timeline (s : SampleStream) : List TimelineSample := timelineLoop s.values s.histograms

/-! ## The gap threshold -/

/-- The differences between neighbours that are positive. -/
def positiveGaps (ts : List Int) : List Int :=
  (List.zipWith (fun next t => next - t) ts.tail ts).filter fun d => 0 < d

def medianInterval (s : SampleStream) : Option Int :=
  let intervals := positiveGaps ((timeline s).map TimelineSample.t)
  (sortBy id intervals)[intervals.length / 2]?

def gapThreshold (override : Int) (base : SampleStream) (fillerHint : Option SampleStream) : Int :=
  if override > 0 then override
  else
    match medianInterval base, fillerHint.bind medianInterval with
    | some m, _ => 2 * m
    | none, some m => 2 * m
    | none, none => 0

/-! ## Filling -/

def marginBounds (lo hi : Option Int) (gap : Int) : Option Int × Option Int :=
  let margin := gap / 4
  (lo.map fun t => t + margin, hi.map fun t => t - margin)

def needsFill (stale : Bool) (subLo upper : Option Int) (gap : Int) : Bool :=
  match stale, subLo, upper with
  | false, some l, some u => gap ≤ u - l
  | _, _, _ => true

/-- The slices the calls of `fill` share. -/
structure FillState where
  filled : List Nat
  cursors : List Nat
deriving DecidableEq, Repr

def FillState.cursor (st : FillState) (lvl : Nat) : Nat := st.cursors.getD lvl 0

def FillState.setCursor (st : FillState) (lvl i : Nat) : FillState :=
  { st with cursors := st.cursors.set lvl i }

/-- `filled[lvl-1]++`, for a level above the base. -/
def FillState.count (st : FillState) (lvl : Nat) : FillState :=
  if 0 < lvl then { st with filled := st.filled.modify (lvl - 1) (· + 1) } else st

/-- The variables of one call of `fill` over its main loop. -/
structure FillVars where
  out : List TimelineSample
  i : Nat
  subLo : Option Int
  stale : Bool
  live : Bool
  st : FillState

/-- A call into the next level. -/
abbrev FillBelow := Option Int → Option Int → FillState → List TimelineSample × FillState

/-- The first loop of `fill`: past the samples at or before `effLo`. -/
def skipLoop (effLo : Option Int) : List TimelineSample → Nat → Nat
  | [], i => i
  | p :: rest, i => if effLo.any (fun lo => p.t ≤ lo) then skipLoop effLo rest (i + 1) else i

/-- `append(out, fill(subLo, upper, …)...)` where `needsFill` asks for it. -/
def descend (below : FillBelow) (gap : Int) (upper : Option Int) (v : FillVars) : FillVars :=
  if needsFill v.stale v.subLo upper gap then
    let r := below v.subLo upper v.st
    { v with out := v.out ++ r.1, st := r.2 }
  else v

/-- Taking the sample `p` of level `lvl`: a stale marker is emitted by the base, and by a filler
that has emitted a sample since its last marker. -/
def take (lvl : Nat) (p : TimelineSample) (v : FillVars) : FillVars :=
  if p.stale then
    { v with
      out := if lvl = 0 || v.live then v.out ++ [p] else v.out
      i := v.i + 1, subLo := some p.t, stale := true, live := false }
  else
    { v with
      out := v.out ++ [p]
      i := v.i + 1, subLo := some p.t, stale := false, live := true
      st := v.st.count lvl }

/-- The main loop of `fill`, over the samples from the cursor on. -/
def fillLoop (below : FillBelow) (gap : Int) (effHi : Option Int) (lvl : Nat) :
    List TimelineSample → FillVars → FillVars
  | [], v => v
  | p :: rest, v =>
    if effHi.any (fun hi => hi ≤ p.t) then v
    else fillLoop below gap effHi lvl rest (take lvl p (descend below gap (some p.t) v))

/-- `fill`, on the streams from level `lvl` on. Below the last level there is nothing to take: the
source's guard `lvl+1 < len(seqs)` is the first equation. -/
def fill (gap : Int) : List (List TimelineSample) → Nat → FillBelow
  | [], _, _, _, st => ([], st)
  | seq :: seqs, lvl, lo, hi, st =>
    let eff := marginBounds lo hi gap
    let below := fill gap seqs (lvl + 1)
    let i := skipLoop eff.1 (seq.drop (st.cursor lvl)) (st.cursor lvl)
    let v := fillLoop below gap eff.2 lvl (seq.drop i)
      { out := [], i := i, subLo := lo, stale := false, live := false, st := st }
    let v := descend below gap hi { v with st := v.st.setCursor lvl v.i }
    (v.out, v.st)

structure FillStats where
  filled : List Nat
deriving DecidableEq, Repr

/-- The output stream of the samples taken. -/
def streamOf (metric : Labels) (merged : List TimelineSample) : SampleStream where
  metric := metric
  values := merged.filterMap fun p =>
    match p.v with
    | .float f => some ⟨p.t, f⟩
    | .histogram _ => none
  histograms := merged.filterMap fun p =>
    match p.v with
    | .float _ => none
    | .histogram h => some ⟨p.t, h⟩

/-- The threshold `PriorityMergeSampleStream` works with. -/
def effectiveGap (gap : Int) : Int := if gap ≤ 0 then 1 else gap

def priorityMergeSampleStream (base : SampleStream) (fillers : List SampleStream) (gap : Int) :
    SampleStream × FillStats :=
  let seqs := timeline base :: fillers.map timeline
  let r := fill (effectiveGap gap) seqs 0 none none
    { filled := List.replicate fillers.length 0, cursors := List.replicate seqs.length 0 }
  (streamOf base.metric r.1, { filled := r.2.filled })

end Promhttputil
end Proxeus
