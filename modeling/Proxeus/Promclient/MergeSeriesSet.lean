import Proxeus.Promhttputil.MergeSpec

/-!
# Promclient.MergeSeriesSet

`merge_seriesset.go` and `histogram_convert.go`: the series of the storage layer are merged as
sample streams, which carry the native histograms of the storage layer in the pins of
`rawHistograms`.
-/

namespace Proxeus
namespace Promclient

open Lib Promhttputil

/-! ## Histograms -/

/-- `math.IsInf(f, 1)` -/
def isPosInf (f : SampleValue) : Bool := f.bits = 0x7ff0000000000000#64

/-- `math.IsInf(f, -1)` -/
def isNegInf (f : SampleValue) : Bool := f.bits = 0xfff0000000000000#64

def bucketBoundaries (b : Bucket) : Int :=
  if b.lowerInclusive then
    if b.upperInclusive then 3 else 1
  else if b.upperInclusive then 0
  else 2

def floatHistogramToSampleHistogram [Prometheus] (h : FloatHistogram) : SampleHistogram where
  count := h.count
  sum := h.sum
  buckets := ((Prometheus.allBuckets h).filter fun b => b.count.magnitude ≠ 0).map fun b =>
    ⟨bucketBoundaries b, b.lower, b.upper, b.count⟩
  pinned := some h

/-- `histogram.CustomBucketsSchema` -/
def customBucketsSchema : Int := -53

/-- The best-effort reconstruction of a histogram that has no pin. -/
def reconstructFloatHistogram (sh : SampleHistogram) : FloatHistogram :=
  let fh : FloatHistogram :=
    { schema := customBucketsSchema, zeroThreshold := SampleValue.zero,
      zeroCount := SampleValue.zero, count := sh.count, sum := sh.sum, positiveSpans := [],
      negativeSpans := [], positiveBuckets := [], negativeBuckets := [], customValues := [] }
  match sh.buckets with
  | [] => fh
  | first :: _ =>
    let includeFirstLower := !isNegInf first.lower
    let firstLower := if includeFirstLower then [first.lower] else []
    let uppers := (sh.buckets.map HistogramBucket.upper).filter fun upper => !isPosInf upper
    let counts := sh.buckets.map HistogramBucket.count
    let offset : Int := if includeFirstLower then 1 else 0
    { fh with
      customValues := firstLower ++ uppers
      positiveBuckets := counts
      positiveSpans := [(offset, counts.length)] }

def sampleHistogramToFloatHistogram (sh : SampleHistogram) : FloatHistogram :=
  sh.pinned.getD (reconstructFloatHistogram sh)

/-! ## Series and streams -/

def floatPair : Sample → Option SamplePair
  | .float t v => some ⟨t, v⟩
  | .histogram _ _ => none

def histogramPair [Prometheus] : Sample → Option SampleHistogramPair
  | .float _ _ => none
  | .histogram t fh => some ⟨t, floatHistogramToSampleHistogram fh⟩

def seriesToSampleStream [Prometheus] (s : Series) : SampleStream where
  metric := s.labels
  values := s.samples.filterMap floatPair
  histograms := s.samples.filterMap histogramPair

def floatSample (p : SamplePair) : Sample := .float p.timestamp p.value

def histogramSample (p : SampleHistogramPair) : Sample :=
  .histogram p.timestamp (sampleHistogramToFloatHistogram p.histogram)

def sampleStreamToSeries (ss : SampleStream) (lbls : Labels) : Series where
  labels := lbls
  samples := sortBy Sample.t (ss.values.map floatSample ++ ss.histograms.map histogramSample)

/-- The turns of the loop over the series after the first. Where the source goes on with the nil
stream of a failed merge, and panics, there is no stream. -/
def mergeLoop [Prometheus] (antiAffinity : Int) (dynamic preferMax : Bool) :
    SampleStream → List Series → Option SampleStream
  | merged, [] => some merged
  | merged, s :: series =>
    match mergeSampleStream antiAffinity dynamic merged (seriesToSampleStream s) preferMax with
    | .ok merged => mergeLoop antiAffinity dynamic preferMax merged series
    | .error _ => none

/-- The merge function of the series of one label set, `none` being its nil. -/
def mergeAntiAffinity [Prometheus] (antiAffinity : Int) (dynamic preferMax : Bool) :
    List Series → Option Series
  | [] => none
  | s :: series =>
    (mergeLoop antiAffinity dynamic preferMax (seriesToSampleStream s) series).map fun merged =>
      sampleStreamToSeries merged s.labels

end Promclient
end Proxeus
