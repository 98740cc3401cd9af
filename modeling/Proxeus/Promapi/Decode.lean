import Proxeus.Model.Sample
import Proxeus.Promapi.JsonReader

/-!
# Promapi.Decode

`decode.go`: the body of a response is read straight into series. Of the envelope the fields are read
in any order, and the result once its type is known. The warnings and infos are read over, and the
annotations that are made of them and of the layouts of the histograms are not kept.
-/

namespace Proxeus
namespace Promapi

open Lib

/-! ## Numbers -/

/-- What the decoders take from `strconv`, from the reader's number scanner and from the `model`
package. -/
class Scalars where
  /-- `strconv.ParseFloat(s, 64)`, where it returns no error -/
  parseFloat : String → Option SampleValue
  /-- `int64(ts * 1000)`, of the number with the literal `ts` -/
  milliseconds : String → Option Int
  /-- `Unmarshal` into a `model.SampleHistogram` -/
  unmarshalHistogram : Json → Option SampleHistogram

/-! ## Histograms -/

/-- `math.IsInf(f, 1)` -/
def isPosInf (f : SampleValue) : Bool := f.bits = 0x7ff0000000000000#64

/-- `histogram.CustomBucketsSchema` -/
def customBucketsSchema : Int := -53

/-- The bounds that are listed, of the buckets from the first on. -/
def customBounds (buckets : List HistogramBucket) : List SampleValue :=
  (buckets.map HistogramBucket.upper).filter fun upper => !isPosInf upper

def sampleHistogramToFloatHistogram (sh : SampleHistogram) : FloatHistogram :=
  let fh : FloatHistogram :=
    { schema := customBucketsSchema, zeroThreshold := SampleValue.zero,
      zeroCount := SampleValue.zero, count := sh.count, sum := sh.sum, positiveSpans := [],
      negativeSpans := [], positiveBuckets := [], negativeBuckets := [], customValues := [] }
  if sh.buckets.length = 0 then fh
  else
    let counts := sh.buckets.map HistogramBucket.count
    { fh with
      customValues := customBounds sh.buckets
      positiveBuckets := counts
      positiveSpans := [(0, counts.length)] }

/-! ## Samples -/

section

variable [Scalars]

def decodeSamplePair (r : Reader) : Except ReadError ((Int × SampleValue) × Reader) := do
  let (_, r) ← readArray r
  let (literal, r) ← readNumber r
  let (ts, r) ← orReport (Scalars.milliseconds literal) r
  let (_, r) ← readArray r
  let (vs, r) ← readString r
  -- the closing bracket
  let (_, r) ← readArray r
  let (f, r) ← orReport (Scalars.parseFloat vs) r
  .ok ((ts, f), r)

def decodeHistogramPair (r : Reader) : Except ReadError ((Int × FloatHistogram) × Reader) := do
  let (_, r) ← readArray r
  let (literal, r) ← readNumber r
  let (ts, r) ← orReport (Scalars.milliseconds literal) r
  let (_, r) ← readArray r
  let (obj, r) ← skip r
  -- the closing bracket
  let (_, r) ← readArray r
  let (sh, r) ← orReport (Scalars.unmarshalHistogram obj) r
  .ok ((ts, sampleHistogramToFloatHistogram sh), r)

/-! ## Series -/

/-- A series: its labels, as the builder has them, and its samples, of which `none` is nil. -/
structure DecodedSeries where
  labels : List Label
  samples : List (Option Sample)

def readMetric (b : List Label) (r : Reader) : Except ReadError (List Label × Reader) :=
  readFields (fun name b r => do
    let (value, r) ← readString r
    .ok (b ++ [⟨name, value⟩], r)) b r

/-- The body of the loop over the fields of an element of a vector. -/
def vectorField (k : String) (acc : List Label × Option Sample) (r : Reader) :
    Except ReadError ((List Label × Option Sample) × Reader) :=
  match k with
  | "metric" => do
    let (b, r) ← readMetric acc.1 r
    .ok ((b, acc.2), r)
  | "value" => do
    let ((t, f), r) ← decodeSamplePair r
    .ok ((acc.1, some (.float t f)), r)
  | "histogram" => do
    let ((t, fh), r) ← decodeHistogramPair r
    .ok ((acc.1, some (.histogram t fh)), r)
  | _ => do
    let (_, r) ← skip r
    .ok (acc, r)

def decodeVector (r : Reader) : Except ReadError (List DecodedSeries × Reader) :=
  readItems (fun out r => do
    let ((b, sample), r) ← readFields vectorField ([], none) r
    .ok (out ++ [⟨sortBy Label.name b, [sample]⟩], r)) [] r

/-- The variables of an element of a matrix. -/
structure MatrixVars where
  b : List Label
  samples : List Sample
  hadHist : Bool

def matrixField (k : String) (acc : MatrixVars) (r : Reader) :
    Except ReadError (MatrixVars × Reader) :=
  match k with
  | "metric" => do
    let (b, r) ← readMetric acc.b r
    .ok ({ acc with b := b }, r)
  | "values" => do
    let (samples, r) ← readItems (fun samples r => do
      let ((t, f), r) ← decodeSamplePair r
      .ok (samples ++ [.float t f], r)) acc.samples r
    .ok ({ acc with samples := samples }, r)
  | "histograms" => do
    let (samples, r) ← readItems (fun samples r => do
      let ((t, fh), r) ← decodeHistogramPair r
      .ok (samples ++ [.histogram t fh], r)) acc.samples r
    .ok ({ acc with samples := samples, hadHist := true }, r)
  | _ => do
    let (_, r) ← skip r
    .ok (acc, r)

def decodeMatrix (r : Reader) : Except ReadError (List DecodedSeries × Reader) :=
  readItems (fun out r => do
    let (vars, r) ← readFields matrixField ⟨[], [], false⟩ r
    let samples := if vars.hadHist then sortBy Sample.t vars.samples else vars.samples
    .ok (out ++ [⟨sortBy Label.name vars.b, samples.map some⟩], r)) [] r

end

/-! ## Responses -/

/-- The variables of `DecodeSeriesSet`, with the result as the value it is read from. -/
structure Envelope where
  status : String
  errType : String
  errMsg : String
  resultType : String
  result : Option Json

inductive DecodeError where
  /-- a `ResponseError` with the type `bad_response` -/
  | badResponse (err : ReadError)
  | response (errType errMsg : String)
  | unknownResultType (resultType : String)
  | result (err : ReadError)

def dataField (k : String) (e : Envelope) (r : Reader) : Except ReadError (Envelope × Reader) :=
  match k with
  | "resultType" => do
    let (s, r) ← readString r
    .ok ({ e with resultType := s }, r)
  | "result" => do
    let (v, r) ← skip r
    .ok ({ e with result := some v }, r)
  | _ => do
    let (_, r) ← skip r
    .ok (e, r)

/-- The loop over the warnings, or the infos. -/
def readAnnotations (r : Reader) : Except ReadError (Unit × Reader) :=
  readItems (fun _ r => do
    let (_, r) ← readString r
    .ok ((), r)) () r

def envelopeField (k : String) (e : Envelope) (r : Reader) : Except ReadError (Envelope × Reader) :=
  match k with
  | "status" => do
    let (s, r) ← readString r
    .ok ({ e with status := s }, r)
  | "errorType" => do
    let (s, r) ← readString r
    .ok ({ e with errType := s }, r)
  | "error" => do
    let (s, r) ← readString r
    .ok ({ e with errMsg := s }, r)
  | "warnings" | "infos" => do
    let (_, r) ← readAnnotations r
    .ok (e, r)
  | "data" => readFields dataField e r
  | _ => do
    let (_, r) ← skip r
    .ok (e, r)

def readEnvelope (body : Json) : Except ReadError (Envelope × Reader) :=
  readFields envelopeField ⟨"", "", "", "", none⟩ [.value body]

section

variable [Scalars]

/-- The series that a decoder has read, or the error of its reader. -/
def seriesOf (read : Except ReadError (List DecodedSeries × Reader)) :
    Except DecodeError (List DecodedSeries) :=
  match read with
  | .ok (series, _) => .ok series
  | .error err => .error (.result err)

def decodeScalar (r : Reader) : Except ReadError (List DecodedSeries × Reader) := do
  let ((t, f), r) ← decodeSamplePair r
  .ok ([⟨[], [some (.float t f)]⟩], r)

def decodeResult (resultType : String) (body : Option Json) :
    Except DecodeError (List DecodedSeries) :=
  match body with
  | none => .ok []
  | some v =>
    match resultType with
    | "vector" => seriesOf (decodeVector [.value v])
    | "matrix" => seriesOf (decodeMatrix [.value v])
    | "scalar" => seriesOf (decodeScalar [.value v])
    | "string" => .ok []
    | _ => .error (.unknownResultType resultType)

def decodeSeriesSet (body : Json) : Except DecodeError (List DecodedSeries) :=
  match readEnvelope body with
  | .error err => .error (.badResponse err)
  | .ok (e, _) =>
    if e.status = "error" then .error (.response e.errType e.errMsg)
    else decodeResult e.resultType e.result

end

end Promapi
end Proxeus
