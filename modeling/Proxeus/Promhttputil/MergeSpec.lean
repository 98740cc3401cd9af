import Proxeus.Promhttputil.MergePass

/-!
# Promhttputil.MergeSpec

`MergeSampleStream` in closed form. `streamUnion` is the union of two streams under a buffer, the
longer side having precedence for each sample type; `mergeSampleStream_false` says that this is
what the merge without `preferMax` returns, `mergeSampleStream_true` what `preferMax` changes.
-/

namespace Proxeus
namespace Promhttputil

open Lib

/-! ## The union by length -/

section

variable {α : Type*} {time : α → Int} {buffer : Int} {a b : List α}

/-- The side with more samples, the first one on a tie. -/
def longer (a b : List α) : List α := if a.length < b.length then b else a

def shorter (a b : List α) : List α := if a.length < b.length then a else b

/-- All of the longer side, and what is far from it of the other. -/
def unionByLength (time : α → Int) (buffer : Int) (a b : List α) : List α :=
  spacedUnion time buffer (longer a b) (shorter a b)

theorem longer_comm (h : a.length ≠ b.length) : longer b a = longer a b := by
  simp only [longer]
  split <;> split <;> first | rfl | omega

theorem shorter_comm (h : a.length ≠ b.length) : shorter b a = shorter a b := by
  simp only [shorter]
  split <;> split <;> first | rfl | omega

theorem unionByLength_comm (h : a.length ≠ b.length) :
    unionByLength time buffer b a = unionByLength time buffer a b := by
  rw [unionByLength, unionByLength, longer_comm h, shorter_comm h]

@[simp] theorem longer_self : longer a a = a := ite_self _

@[simp] theorem shorter_self : shorter a a = a := ite_self _

theorem longer_shorter_cases (P : List α → List α → Prop) (h : P a b) (h' : P b a) :
    P (longer a b) (shorter a b) := by
  simp only [longer, shorter]
  split
  · exact h'
  · exact h

theorem unionByLength_ascending (hB : 0 ≤ buffer) (ha : Ascending time a)
    (hb : Ascending time b) : Ascending time (unionByLength time buffer a b) :=
  longer_shorter_cases (fun a b => Ascending time (spacedUnion time buffer a b))
    (spacedUnion_ascending hB ha hb) (spacedUnion_ascending hB hb ha)

theorem unionByLength_nil_left (hb : Ascending time b) : unionByLength time buffer [] b = b := by
  cases b with
  | nil => rfl
  | cons y b => exact spacedUnion_nil_right hb

theorem unionByLength_nil_right (ha : Ascending time a) : unionByLength time buffer a [] = a := by
  cases a with
  | nil => rfl
  | cons y a => exact spacedUnion_nil_right ha

theorem unionByLength_self (hB : 0 ≤ buffer) (ha : Ascending time a) :
    unionByLength time buffer a a = a := by
  rw [unionByLength, longer_self, shorter_self, spacedUnion_self hB ha]

theorem mergePass_eq_unionByLength (hB : 0 ≤ buffer) (ha : Ascending time a)
    (hb : Ascending time b) (hane : a ≠ []) (hbne : b ≠ []) :
    mergePass time buffer Prod.mk (longer a b) (shorter a b) = unionByLength time buffer a b := by
  rw [unionByLength]
  exact longer_shorter_cases
    (fun a b => mergePass time buffer Prod.mk a b = spacedUnion time buffer a b)
    (mergePass_eq_spacedUnion hB ha hb hane hbne) (mergePass_eq_spacedUnion hB hb ha hbne hane)

/-- The union only looks at times. -/
theorem map_unionByLength (hB : 0 ≤ buffer) (ha : Ascending time a) (hb : Ascending time b) :
    (unionByLength time buffer a b).map time =
      unionByLength id buffer (a.map time) (b.map time) := by
  simp only [unionByLength, longer, shorter, List.length_map]
  split
  · exact map_spacedUnion hB hb ha
  · exact map_spacedUnion hB ha hb

end

theorem mergeHistogramSamples_eq {buffer : Int} {a b : List SampleHistogramPair} (hB : 0 ≤ buffer)
    (ha : Ascending SampleHistogramPair.timestamp a)
    (hb : Ascending SampleHistogramPair.timestamp b) :
    mergeHistogramSamples buffer a b =
      unionByLength SampleHistogramPair.timestamp buffer a b := by
  by_cases hane : a = []
  · subst hane
    rw [unionByLength_nil_left hb, mergeHistogramSamples, if_pos rfl]
  by_cases hbne : b = []
  · subst hbne
    rw [unionByLength_nil_right ha, mergeHistogramSamples, if_neg hane, if_pos rfl]
  rw [← mergePass_eq_unionByLength hB ha hb hane hbne, mergeHistogramSamples, if_neg hane,
    if_neg hbne]
  simp only [longer, shorter]
  split <;> rfl

/-! ## The dynamic buffer -/

theorem positiveGaps_pos {ts : List Int} {d : Int} (hd : d ∈ positiveGaps ts) : 0 < d :=
  of_decide_eq_true (List.mem_filter.mp hd).2

/-- Half a median of positive gaps. -/
theorem dynamicAntiAffinityFromTimes_nonneg {a b : List Int} {dyn : Int}
    (h : dynamicAntiAffinityFromTimes a b = some dyn) : 0 ≤ dyn := by
  have hpos : ∀ d ∈ (if (positiveGaps a).length < minDynamicGaps then
      positiveGaps a ++ positiveGaps b else positiveGaps a), 0 < d := by
    intro d hd
    split at hd
    · rcases List.mem_append.mp hd with hd | hd
      · exact positiveGaps_pos hd
      · exact positiveGaps_pos hd
    · exact positiveGaps_pos hd
  rw [dynamicAntiAffinityFromTimes] at h
  generalize (if (positiveGaps a).length < minDynamicGaps then
    positiveGaps a ++ positiveGaps b else positiveGaps a) = gaps at h hpos
  by_cases hfew : gaps.length < minDynamicGaps
  · rw [if_pos hfew] at h
    cases h
  · rw [if_neg hfew] at h
    obtain ⟨median, hmedian, rfl⟩ := Option.map_eq_some_iff.mp h
    have := hpos median (mem_sortBy.mp (List.mem_of_getElem? hmedian))
    omega

theorem dynamicBufferForStream_nonneg {a b : SampleStream} {dyn : Int}
    (h : dynamicBufferForStream a b = some dyn) : 0 ≤ dyn := by
  simp only [dynamicBufferForStream] at h
  split at h
  · rename_i dyn' hdyn
    cases h
    exact dynamicAntiAffinityFromTimes_nonneg hdyn
  · exact dynamicAntiAffinityFromTimes_nonneg h

theorem effectiveBuffer_nonneg {antiAffinityBuffer : Int} (h : 0 ≤ antiAffinityBuffer)
    (dynamic : Bool) (a b : SampleStream) : 0 ≤ effectiveBuffer antiAffinityBuffer dynamic a b := by
  rw [effectiveBuffer]
  split
  · cases hdyn : dynamicBufferForStream a b with
    | none => exact h
    | some dyn => exact dynamicBufferForStream_nonneg hdyn
  · exact h

/-- The estimate only asks which side is the longer one. -/
theorem dynamicBufferForStream_eq (a b : SampleStream) :
    dynamicBufferForStream a b =
      (dynamicAntiAffinity (longer a.values b.values) (shorter a.values b.values)).or
        (dynamicAntiAffinityFromTimes
          (longer (histogramTimestamps a.histograms) (histogramTimestamps b.histograms))
          (shorter (histogramTimestamps a.histograms) (histogramTimestamps b.histograms))) := by
  have hpair : ∀ {β : Type} (l l' : List β),
      (if l.length < l'.length then (l', l) else (l, l')) = (longer l l', shorter l l') := by
    intro β l l'
    simp only [longer, shorter]
    split <;> rfl
  simp only [dynamicBufferForStream, hpair]
  cases dynamicAntiAffinity (longer a.values b.values) (shorter a.values b.values) <;> rfl

/-- Whether swapping two lists is harmless to a merge. -/
def Swappable {α : Type*} (a b : List α) : Prop := a.length ≠ b.length ∨ a = b

theorem Swappable.comm {α β : Type*} {a b : List α} (h : Swappable a b)
    (f : List α → List α → β) :
    f (longer b a) (shorter b a) = f (longer a b) (shorter a b) := by
  rcases h with h | rfl
  · rw [longer_comm h, shorter_comm h]
  · rfl

theorem effectiveBuffer_comm (antiAffinityBuffer : Int) (dynamic : Bool) {a b : SampleStream}
    (hv : Swappable a.values b.values) (hh : Swappable a.histograms b.histograms) :
    effectiveBuffer antiAffinityBuffer dynamic b a =
      effectiveBuffer antiAffinityBuffer dynamic a b := by
  have ht : Swappable (histogramTimestamps a.histograms) (histogramTimestamps b.histograms) := by
    rcases hh with hh | hh
    · exact .inl (by simpa only [histogramTimestamps, List.length_map] using hh)
    · exact .inr (by rw [hh])
  rw [effectiveBuffer, effectiveBuffer, dynamicBufferForStream_eq, dynamicBufferForStream_eq,
    hv.comm dynamicAntiAffinity, ht.comm dynamicAntiAffinityFromTimes]

/-! ## Streams -/

/-- Both sample lists are strictly increasing in time. -/
structure AscendingStream (s : SampleStream) : Prop where
  values : Ascending SamplePair.timestamp s.values
  histograms : Ascending SampleHistogramPair.timestamp s.histograms

/-- The union of two streams of one metric, each sample type by itself. -/
def streamUnion (buffer : Int) (a b : SampleStream) : SampleStream where
  metric := a.metric
  values := unionByLength SamplePair.timestamp buffer a.values b.values
  histograms := unionByLength SampleHistogramPair.timestamp buffer a.histograms b.histograms

theorem streamUnion_ascending {buffer : Int} {a b : SampleStream} (hB : 0 ≤ buffer)
    (ha : AscendingStream a) (hb : AscendingStream b) :
    AscendingStream (streamUnion buffer a b) where
  values := unionByLength_ascending hB ha.values hb.values
  histograms := unionByLength_ascending hB ha.histograms hb.histograms

theorem streamUnion_self {buffer : Int} {a : SampleStream} (hB : 0 ≤ buffer)
    (ha : AscendingStream a) : streamUnion buffer a a = a := by
  rw [streamUnion, unionByLength_self hB ha.values, unionByLength_self hB ha.histograms]

theorem streamUnion_comm {buffer : Int} {a b : SampleStream} (hm : a.metric = b.metric)
    (hv : Swappable a.values b.values) (hh : Swappable a.histograms b.histograms) :
    streamUnion buffer b a = streamUnion buffer a b := by
  rw [streamUnion, streamUnion, unionByLength, hv.comm (spacedUnion _ _), unionByLength,
    hh.comm (spacedUnion _ _), hm]
  rfl

section

variable [Prometheus] {antiAffinityBuffer : Int} {dynamic : Bool} {a b : SampleStream}

/-- Past the check of the fingerprints: the two sample types are merged by themselves, and where a
side has no floats the other one's are taken. -/
theorem mergeSampleStream_eq (antiAffinityBuffer : Int) (dynamic : Bool)
    (hfp : Prometheus.fingerprint a.metric = Prometheus.fingerprint b.metric) (preferMax : Bool) :
    ∃ metric, (metric = a.metric ∨ metric = b.metric) ∧
      mergeSampleStream antiAffinityBuffer dynamic a b preferMax =
        .ok {
          metric
          values :=
            if a.values = [] ∨ b.values = [] then a.values ++ b.values
            else mergeFloatSamples (effectiveBuffer antiAffinityBuffer dynamic a b) preferMax
              (longer a.values b.values) (shorter a.values b.values)
          histograms := mergeHistogramSamples (effectiveBuffer antiAffinityBuffer dynamic a b)
            a.histograms b.histograms } := by
  rw [mergeSampleStream, if_neg (not_not_intro hfp)]
  by_cases hav : a.values = []
  · by_cases hbv : b.values = []
    · exact ⟨a.metric, .inl rfl, by simp [hav, hbv]⟩
    · exact ⟨b.metric, .inr rfl, by simp [hav, hbv]⟩
  · by_cases hbv : b.values = []
    · exact ⟨a.metric, .inl rfl, by simp [hav, hbv]⟩
    · simp only [hav, hbv, and_self, if_false, or_self, longer, shorter]
      split
      · exact ⟨b.metric, .inr rfl, rfl⟩
      · exact ⟨a.metric, .inl rfl, rfl⟩

theorem mergeSampleStream_false (hm : a.metric = b.metric)
    (hB : 0 ≤ effectiveBuffer antiAffinityBuffer dynamic a b) (ha : AscendingStream a)
    (hb : AscendingStream b) :
    mergeSampleStream antiAffinityBuffer dynamic a b false =
      .ok (streamUnion (effectiveBuffer antiAffinityBuffer dynamic a b) a b) := by
  obtain ⟨metric, hmetric, hmerge⟩ := mergeSampleStream_eq antiAffinityBuffer dynamic
    (congrArg Prometheus.fingerprint hm) false
  have hvalues : (if a.values = [] ∨ b.values = [] then a.values ++ b.values
      else mergeFloatSamples (effectiveBuffer antiAffinityBuffer dynamic a b) false
        (longer a.values b.values) (shorter a.values b.values)) =
      (streamUnion (effectiveBuffer antiAffinityBuffer dynamic a b) a b).values := by
    by_cases hav : a.values = []
    · rw [if_pos (.inl hav), streamUnion, hav, unionByLength_nil_left hb.values, List.nil_append]
    by_cases hbv : b.values = []
    · rw [if_pos (.inr hbv), streamUnion, hbv, unionByLength_nil_right ha.values, List.append_nil]
    rw [if_neg (not_or.mpr ⟨hav, hbv⟩)]
    exact mergePass_eq_unionByLength hB ha.values hb.values hav hbv
  rw [hmerge, hvalues, mergeHistogramSamples_eq hB ha.histograms hb.histograms,
    hmetric.elim id fun h => h.trans hm.symm]
  rfl

/-- The merge without `preferMax` is the union of the two streams; so its lists are increasing, a
stream merges with itself into itself, and the order of two sides of different lengths does not
matter. -/
theorem mergeSampleStream_closed_form (hm : a.metric = b.metric)
    (hB : 0 ≤ effectiveBuffer antiAffinityBuffer dynamic a b)
    (hav : Ascending SamplePair.timestamp a.values)
    (hah : Ascending SampleHistogramPair.timestamp a.histograms)
    (hbv : Ascending SamplePair.timestamp b.values)
    (hbh : Ascending SampleHistogramPair.timestamp b.histograms) :
    ∃ m, mergeSampleStream antiAffinityBuffer dynamic a b false = .ok m ∧
      m.metric = a.metric ∧
      m.values = spacedUnion SamplePair.timestamp (effectiveBuffer antiAffinityBuffer dynamic a b)
        (longer a.values b.values) (shorter a.values b.values) ∧
      m.histograms = spacedUnion SampleHistogramPair.timestamp
        (effectiveBuffer antiAffinityBuffer dynamic a b)
        (longer a.histograms b.histograms) (shorter a.histograms b.histograms) ∧
      Ascending SamplePair.timestamp m.values ∧
      Ascending SampleHistogramPair.timestamp m.histograms ∧
      (a = b → m = a) ∧
      (Swappable a.values b.values → Swappable a.histograms b.histograms →
        mergeSampleStream antiAffinityBuffer dynamic b a false = .ok m) ∧
      ∀ m', mergeSampleStream antiAffinityBuffer dynamic b a false = .ok m' →
        effectiveBuffer antiAffinityBuffer dynamic b a =
          effectiveBuffer antiAffinityBuffer dynamic a b →
        (a.values.length ≠ b.values.length → m'.values = m.values) ∧
        (a.histograms.length ≠ b.histograms.length → m'.histograms = m.histograms) := by
  have ha : AscendingStream a := ⟨hav, hah⟩
  have hb : AscendingStream b := ⟨hbv, hbh⟩
  have hasc := streamUnion_ascending hB ha hb
  refine ⟨_, mergeSampleStream_false hm hB ha hb, rfl, rfl, rfl, hasc.values, hasc.histograms,
    ?_, ?_, ?_⟩
  · rintro rfl
    exact streamUnion_self hB ha
  · intro hv hh
    have hcomm := effectiveBuffer_comm antiAffinityBuffer dynamic hv hh
    rw [mergeSampleStream_false hm.symm (hcomm ▸ hB) hb ha, hcomm, streamUnion_comm hm hv hh]
  · intro m' hm' hcomm
    rw [mergeSampleStream_false hm.symm (hcomm ▸ hB) hb ha, hcomm] at hm'
    cases hm'
    exact ⟨fun h => unionByLength_comm h, fun h => unionByLength_comm h⟩

end

theorem mergeSampleStream_closed_form_hole :
    ∃ m, @mergeSampleStream prometheusWithoutBuckets 10 false
        ⟨Labels.empty, [⟨0, .zero⟩, ⟨100, .zero⟩, ⟨200, .zero⟩], []⟩
        ⟨Labels.empty, [⟨5, .zero⟩, ⟨150, .zero⟩], []⟩ false = .ok m ∧
      m.values = [⟨0, .zero⟩, ⟨100, .zero⟩, ⟨150, .zero⟩, ⟨200, .zero⟩] := by
  obtain ⟨m, hm, -, hvalues, -⟩ := @mergeSampleStream_closed_form prometheusWithoutBuckets 10 false
    ⟨Labels.empty, [⟨0, .zero⟩, ⟨100, .zero⟩, ⟨200, .zero⟩], []⟩
    ⟨Labels.empty, [⟨5, .zero⟩, ⟨150, .zero⟩], []⟩
    rfl (by decide) (by decide) (by decide) (by decide) (by decide)
  exact ⟨m, hm, hvalues.trans (by decide)⟩

end Promhttputil
end Proxeus
