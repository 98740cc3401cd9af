import Proxeus.Model.Labels

/-!
# Model.Sample

Samples as they travel through the proxy: the JSON side (`model.SampleStream`, with floats and
histograms in two lists) and the storage side (`storage.Series`, one list of samples of either
type).

A `model.Time`, milliseconds since the epoch, is an `Int`: the program only adds buffers and gaps to
sample times and subtracts sample times from one another, far from the ends of the 64-bit range.
-/

namespace Proxeus

/-- A float64, by its bits: samples are only copied, compared, and tested for the stale marker. -/
structure SampleValue where
  bits : BitVec 64
deriving DecidableEq, Repr

namespace SampleValue

def zero : SampleValue := ⟨0#64⟩

/-- `value.StaleNaN` -/
def staleNaN : SampleValue := ⟨0x7ff0000000000002#64⟩

/-- `value.IsStaleNaN` -/
def isStaleNaN (v : SampleValue) : Bool := v = staleNaN

/-- The bits without the sign. -/
def magnitude (v : SampleValue) : Nat := v.bits.toNat % 2 ^ 63

def isNaN (v : SampleValue) : Bool := 0x7ff0000000000000 < v.magnitude

/-- Orders the floats that are not NaN. Both zeros have rank `0`. -/
def rank (v : SampleValue) : Int := if v.bits.msb then -v.magnitude else v.magnitude

/-- Go's `v > w` on float64. -/
def gt (v w : SampleValue) : Bool := !v.isNaN && !w.isNaN && decide (w.rank < v.rank)

end SampleValue

/-- `histogram.FloatHistogram` -/
structure FloatHistogram where
  schema : Int
  zeroThreshold : SampleValue
  zeroCount : SampleValue
  count : SampleValue
  sum : SampleValue
  positiveSpans : List (Int × Nat)
  negativeSpans : List (Int × Nat)
  positiveBuckets : List SampleValue
  negativeBuckets : List SampleValue
  customValues : List SampleValue
deriving DecidableEq, Repr

/-- `histogram.Bucket[float64]`, what a `FloatHistogram`'s bucket iterator yields. -/
structure Bucket where
  lower : SampleValue
  upper : SampleValue
  lowerInclusive : Bool
  upperInclusive : Bool
  count : SampleValue
deriving DecidableEq, Repr

/-- `model.HistogramBucket` -/
structure HistogramBucket where
  boundaries : Int
  lower : SampleValue
  upper : SampleValue
  count : SampleValue
deriving DecidableEq, Repr

/-- `model.SampleHistogram`. `pinned` is the entry of the side channel `rawHistograms` under this
histogram's address: the entry lives exactly as long as the histogram does. -/
structure SampleHistogram where
  count : SampleValue
  sum : SampleValue
  buckets : List HistogramBucket
  pinned : Option FloatHistogram
deriving DecidableEq, Repr

structure SamplePair where
  timestamp : Int
  value : SampleValue
deriving DecidableEq, Repr

structure SampleHistogramPair where
  timestamp : Int
  histogram : SampleHistogram
deriving DecidableEq, Repr

/-- `model.SampleStream` -/
structure SampleStream where
  metric : Labels
  values : List SamplePair
  histograms : List SampleHistogramPair
deriving DecidableEq

/-- `chunks.Sample` -/
inductive Sample where
  | float (t : Int) (v : SampleValue)
  | histogram (t : Int) (fh : FloatHistogram)
deriving DecidableEq, Repr

/-- `chunks.Sample.T` -/
def Sample.t : Sample → Int
  | .float t _ => t
  | .histogram t _ => t

/-- `storage.Series` -/
structure Series where
  labels : Labels
  samples : List Sample
deriving DecidableEq

/-- An error that came from a backend, with the error type found in its chain. -/
structure BackendError where
  msg : String
  errorType : Option String
deriving DecidableEq, Repr

/-- A `storage.SeriesSet` that has been drained: what it yields, its warnings and its error. -/
structure SeriesSet where
  series : List Series
  warnings : Finset String
  err : Option BackendError
deriving DecidableEq

/-- The two functions of the Prometheus libraries that the merge code calls and that are not part
of this repository: the hash of a metric, and the bucket iterator of a float histogram. -/
class Prometheus where
  /-- `model.Metric.Fingerprint` -/
  fingerprint : Labels → BitVec 64
  /-- `histogram.FloatHistogram.AllBucketIterator` -/
  allBuckets : FloatHistogram → List Bucket

/-! ## A concrete instance -/

/-- `hashAddByte` of FNV-1a. -/
def hashAddByte (h : BitVec 64) (b : UInt8) : BitVec 64 :=
  (h ^^^ b.toBitVec.setWidth 64) * 1099511628211#64

def hashAdd (h : BitVec 64) (s : String) : BitVec 64 := s.toUTF8.data.foldl hashAddByte h

/-- The names and values of a metric, each followed by a separator. -/
def fnvFingerprint (metric : Labels) : BitVec 64 :=
  metric.pairs.foldl
    (fun h l => hashAddByte (hashAdd (hashAddByte (hashAdd h l.name) 255) l.value) 255)
    14695981039346656037#64

/-- The libraries as far as histograms without buckets are concerned. -/
abbrev prometheusWithoutBuckets : Prometheus where
  fingerprint := fnvFingerprint
  allBuckets _ := []

end Proxeus
