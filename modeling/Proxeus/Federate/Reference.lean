import Proxeus.Expfmt.Encode
import Proxeus.Federate.Federate

/-!
# Federate.Reference

The body that the handler writes for the merged series, with the streaming encoder, and the one that
`referenceFederate` of the tests builds for them as Prometheus does: families of consecutive samples
of a name, each escaped and written as a whole.

Both sort by `slices.SortFunc`, which leaves open the order of samples of one name; it is a
parameter. The handler sorts its own samples, which are never histograms, and `SortFunc` sees no
difference between these and the same samples of the reference.
-/

namespace Proxeus
namespace Federate

open Lib Expfmt Exposition

/-! ## Samples -/

/-- A merged series, whose labels may be empty. -/
structure StoredSeries where
  labels : LabelSet
  samples : List Sample

/-- `promql.Sample`; a `floatSample` is one without a histogram. -/
structure VecSample where
  metric : LabelSet
  t : Int
  f : SampleValue
  h : Option FloatHistogram
deriving DecidableEq

namespace VecSample

def name (s : VecSample) : String := s.metric.get metricNameLabel

end VecSample

/-- What `slices.SortFunc` does with the comparison of the names. -/
def IsSortFunc (sortFunc : List VecSample → List VecSample) : Prop :=
  ∀ vec, (sortFunc vec).Perm vec ∧ (sortFunc vec).Pairwise fun s s' => s.name ≤ s'.name

section

variable (delta maxt : Int)

/-- The turn of the handler's loop. -/
def floatSampleOf (s : StoredSeries) : Option VecSample :=
  match seekOrPeekBack delta maxt s.samples with
  | some (.float t f) => if f.isStaleNaN then none else some ⟨s.labels, t, f, none⟩
  | _ => none

/-- The turn of the reference's loop. -/
def sampleOf (s : StoredSeries) : Option VecSample :=
  match seekOrPeekBack delta maxt s.samples with
  | some (.float t f) => if f.isStaleNaN then none else some ⟨s.labels, t, f, none⟩
  | some (.histogram t fh) =>
    if fh.sum.isStaleNaN then none else some ⟨s.labels, t, .zero, some fh⟩
  | none => none

/-! ## External labels -/

/-- `model.InstanceLabel` -/
def instanceLabel : String := "instance"

/-- The external labels that both add, by name, with an empty `instance` if there is none. -/
def externalLabels (ext : LabelSet) : List Label :=
  if instanceLabel ∈ ext.names then ext.pairs
  else sortBy Label.name (⟨instanceLabel, ""⟩ :: ext.pairs)

/-! ## The handler -/

variable [Exposition] (sortFunc : List VecSample → List VecSample) (scheme : EscapingScheme)
  (ext : LabelSet) (merged : List StoredSeries)

/-- The body that `ServeHTTP` writes. -/
def federateBody : Text :=
  ((sortFunc (merged.filterMap (floatSampleOf delta maxt))).foldl
    (fun enc s => enc.writeFloatSample s.name s.metric (externalLabels ext) s.f s.t)
    (Encoder.new [] scheme)).w

/-! ## The reference -/

/-- `model.EscapeMetricFamily` on a label: that of the name has a metric name for its value. -/
def escapeLabel (l : Label) : Label :=
  if l.name = metricNameLabel then ⟨l.name, escapeFamilyName l.value scheme⟩
  else ⟨escapeFamilyName l.name scheme, l.value⟩

def escapeMetricFamily (mf : MetricFamily) : MetricFamily :=
  { mf with
    name := escapeFamilyName mf.name scheme
    metric := mf.metric.map fun m => { m with label := m.label.map (escapeLabel scheme) } }

/-- The family that is being collected, and what has been encoded. -/
structure Families where
  lastMetricName : String
  protMetricFam : Option MetricFamily
  buf : Text

/-- `enc.Encode` of the family that is being collected. -/
def Families.encode (fams : Families) : Text :=
  match fams.protMetricFam with
  | some fam => metricFamilyToText fams.buf (escapeMetricFamily scheme fam)
  | none => fams.buf

/-- What the loop over the labels of a sample changes. -/
structure Validation where
  fams : Families
  nameSeen : Bool
  globalUsed : List String
  label : List Label

/-- The function that `Validate` calls on every label. -/
def validateLabel (st : Validation) (l : Label) : Validation :=
  if l.value = "" then st
  else if l.name = metricNameLabel then
    if l.value = st.fams.lastMetricName then { st with nameSeen := true }
    else
      { st with
        nameSeen := true
        fams := ⟨l.value, some ⟨l.value, none, []⟩, st.fams.encode scheme⟩ }
  else
    { st with
      label := st.label ++ [l]
      globalUsed :=
        if l.name ∈ (externalLabels ext).map Label.name then l.name :: st.globalUsed
        else st.globalUsed }

/-- The turn of the loop over the sorted samples. -/
def collectSample (fams : Families) (s : VecSample) : Families :=
  if s.h.isSome then fams
  else
    let st := s.metric.pairs.foldl (validateLabel scheme ext) ⟨fams, false, [], []⟩
    if !st.nameSeen then st.fams
    else
      let label := (externalLabels ext).foldl
        (fun label el => if el.name ∈ st.globalUsed then label else label ++ [el]) st.label
      { st.fams with
        protMetricFam := st.fams.protMetricFam.map fun fam =>
          { fam with metric := fam.metric ++ [⟨label, s.f, some s.t⟩] } }

/-- `referenceFederate` -/
def referenceFederate : Text :=
  ((sortFunc (merged.filterMap (sampleOf delta maxt))).foldl (collectSample scheme ext)
    ⟨"", none, []⟩).encode scheme

end

end Federate
end Proxeus
