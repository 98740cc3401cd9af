import Proxeus.Promclient.MergeSeriesSet
import Proxeus.Promhttputil.PreferMax

/-!
# Promclient.MergeSeriesSetSpec

`mergeAntiAffinity` on the series of one label set, in any number. Series and streams convert into
one another without loss (`sampleStreamToSeries_seriesToSampleStream`), so the fold over the series
is a fold over streams (`mergeLoop_of_step`).

Replicas that scrape one target with little skew merge into one sample per scrape
(`mergeAntiAffinity_one_per_scrape`). The two sample types are merged apart, so what is left of
either is known from the times alone (`keptTimes`), and the merged series has two samples at one
time exactly if both types are left there (`mergeAntiAffinity_ascending_iff`).
-/

namespace Proxeus
namespace Promclient

open Lib Promhttputil

variable [Prometheus]

/-! ## Conversions -/

/-- The pin carries a float histogram through the sample histogram made from it. -/
@[simp] theorem sampleHistogramToFloatHistogram_pin (h : FloatHistogram) :
    sampleHistogramToFloatHistogram (floatHistogramToSampleHistogram h) = h := rfl

def isFloat : Sample → Bool
  | .float _ _ => true
  | .histogram _ _ => false

section

omit [Prometheus]

@[simp] theorem isFloat_float (t : Int) (v : SampleValue) : isFloat (.float t v) = true := rfl

@[simp] theorem isFloat_histogram (t : Int) (fh : FloatHistogram) :
    isFloat (.histogram t fh) = false := rfl

@[simp] theorem floatPair_float (t : Int) (v : SampleValue) :
    floatPair (.float t v) = some ⟨t, v⟩ := rfl

@[simp] theorem floatPair_histogram (t : Int) (fh : FloatHistogram) :
    floatPair (.histogram t fh) = none := rfl

theorem floatPair_timestamp {s : Sample} {p : SamplePair} (h : floatPair s = some p) :
    p.timestamp = s.t := by
  cases s with
  | float t v => cases h; rfl
  | histogram t fh => cases h

theorem map_floatSample (l : List Sample) :
    (l.filterMap floatPair).map floatSample = l.filter isFloat := by
  induction l with
  | nil => rfl
  | cons s l ih =>
    cases s with
    | float t v => simp [List.filter_cons, floatSample, ih]
    | histogram t fh => simp [List.filterMap_cons, ih]

end

@[simp] theorem histogramPair_float (t : Int) (v : SampleValue) :
    histogramPair (.float t v) = none := rfl

@[simp] theorem histogramPair_histogram (t : Int) (fh : FloatHistogram) :
    histogramPair (.histogram t fh) = some ⟨t, floatHistogramToSampleHistogram fh⟩ := rfl

theorem histogramPair_timestamp {s : Sample} {p : SampleHistogramPair}
    (h : histogramPair s = some p) : p.timestamp = s.t := by
  cases s with
  | float t v => cases h
  | histogram t fh => cases h; rfl

theorem map_histogramSample (l : List Sample) :
    (l.filterMap histogramPair).map histogramSample = l.filter fun s => !isFloat s := by
  induction l with
  | nil => rfl
  | cons s l ih =>
    cases s with
    | float t v => simp [List.filterMap_cons, ih]
    | histogram t fh => simp [histogramSample, ih]

theorem sampleStreamToSeries_seriesToSampleStream {s : Series} (h : Ascending Sample.t s.samples) :
    sampleStreamToSeries (seriesToSampleStream s) s.labels = s := by
  have hperm : s.samples.Perm
      ((s.samples.filterMap floatPair).map floatSample ++
        (s.samples.filterMap histogramPair).map histogramSample) := by
    rw [map_floatSample, map_histogramSample]
    exact (List.filter_append_perm _ _).symm
  rw [sampleStreamToSeries, seriesToSampleStream, h.sortBy_eq_of_perm hperm]

theorem seriesToSampleStream_ascending {s : Series} (h : Ascending Sample.t s.samples) :
    AscendingStream (seriesToSampleStream s) where
  values := h.filterMap fun _ _ => floatPair_timestamp
  histograms := h.filterMap fun _ _ => histogramPair_timestamp

/-! ## The fold -/

/-- What simulates one merge simulates the fold over the series. -/
theorem mergeLoop_simulates {ι τ : Type*} (antiAffinity : Int) (dynamic preferMax : Bool)
    (toSeries : ι → Series) (R : SampleStream → τ → Prop) (Q : ι → Prop) (g : τ → ι → τ)
    (step : ∀ m x i, R m x → Q i → ∃ m',
      mergeSampleStream antiAffinity dynamic m (seriesToSampleStream (toSeries i)) preferMax =
        .ok m' ∧ R m' (g x i))
    {m : SampleStream} {x : τ} (hm : R m x) {items : List ι} (hitems : ∀ i ∈ items, Q i) :
    ∃ m', mergeLoop antiAffinity dynamic preferMax m (items.map toSeries) = some m' ∧
      R m' (items.foldl g x) := by
  induction items generalizing m x with
  | nil => exact ⟨m, rfl, hm⟩
  | cons i items ih =>
    obtain ⟨m', hmerge, hm'⟩ := step m x i hm (hitems i List.mem_cons_self)
    obtain ⟨out, hout, hR⟩ := ih hm' fun j hj => hitems j (List.mem_cons_of_mem _ hj)
    refine ⟨out, ?_, hR⟩
    rw [List.map_cons, mergeLoop, hmerge]
    exact hout

/-! ## Replicas on one grid -/

/-- A replica's samples of a series, by the scrape they belong to. -/
structure Replica (B : Int) (nominal : List Int) where
  sampleAt : Int → Option Sample
  close : Samples Sample.t B nominal sampleAt

namespace Replica

variable {B : Int} {nominal : List Int}

def series (lbls : Labels) (r : Replica B nominal) : Series :=
  ⟨lbls, nominal.filterMap r.sampleAt⟩

/-- All samples are floats, or all are histograms. -/
def OfKind (float : Bool) (r : Replica B nominal) : Prop :=
  ∀ n ∈ nominal, ∀ s, r.sampleAt n = some s → isFloat s = float

/-- `r`, and `r'` where `r` has no sample. -/
def or (r r' : Replica B nominal) : Replica B nominal where
  sampleAt n := (r.sampleAt n).or (r'.sampleAt n)
  close := r.close.or r'.close

/-- For every scrape that some of the replicas have, `out` has the sample of one of them. -/
def Picks (replicas : List (Replica B nominal)) (out : Replica B nominal) : Prop :=
  ∀ n ∈ nominal, ((out.sampleAt n).isSome ↔ ∃ r ∈ replicas, (r.sampleAt n).isSome) ∧
    ∀ s, out.sampleAt n = some s → ∃ r ∈ replicas, r.sampleAt n = some s

omit [Prometheus] in
theorem Picks.or {replicas replicas' : List (Replica B nominal)} {out out' : Replica B nominal}
    (h : Picks replicas out) (h' : Picks replicas' out') :
    Picks (replicas ++ replicas') (out.or out') := by
  intro n hn
  obtain ⟨hcover, hfrom⟩ := h n hn
  obtain ⟨hcover', hfrom'⟩ := h' n hn
  constructor
  · simp only [Replica.or, Option.isSome_or, Bool.or_eq_true, hcover, hcover', List.mem_append,
      or_and_right, exists_or]
  · intro s hs
    rcases Option.or_eq_some_iff.mp hs with hs | ⟨-, hs⟩
    · obtain ⟨r, hr, hrs⟩ := hfrom s hs
      exact ⟨r, List.mem_append_left _ hr, hrs⟩
    · obtain ⟨r, hr, hrs⟩ := hfrom' s hs
      exact ⟨r, List.mem_append_right _ hr, hrs⟩

omit [Prometheus] in
theorem Picks.perm {replicas replicas' : List (Replica B nominal)} {out : Replica B nominal}
    (h : Picks replicas out) (hp : replicas.Perm replicas') : Picks replicas' out := by
  intro n hn
  simpa only [hp.mem_iff] using h n hn

omit [Prometheus] in
theorem OfKind.or {float : Bool} {r r' : Replica B nominal} (h : r.OfKind float)
    (h' : r'.OfKind float) : (r.or r').OfKind float := by
  intro n hn s hs
  rcases Option.or_eq_some_iff.mp hs with hs | ⟨-, hs⟩
  · exact h n hn s hs
  · exact h' n hn s hs

section

variable {β : Type*} (time : β → Int) {proj : Sample → Option β}

omit [Prometheus] in
/-- One sample type of two replicas: where the first one has a sample it is of this type. -/
theorem spacedUnion_filterMap (hB : 0 ≤ B) (hgrid : Sparse B nominal)
    (htime : ∀ s p, proj s = some p → time p = s.t) {r r' : Replica B nominal}
    (hr : ∀ n ∈ nominal, ∀ s, r.sampleAt n = some s → (proj s).isSome) :
    spacedUnion time B ((nominal.filterMap r.sampleAt).filterMap proj)
        ((nominal.filterMap r'.sampleAt).filterMap proj) =
      (nominal.filterMap (r.or r').sampleAt).filterMap proj := by
  have hclose : ∀ q : Replica B nominal, Samples time B nominal fun n => (q.sampleAt n).bind proj := by
    intro q n hn p hp
    obtain ⟨s, hs, hp⟩ := Option.bind_eq_some_iff.mp hp
    rw [htime s p hp]
    exact q.close n hn s hs
  simp only [List.filterMap_filterMap]
  rw [spacedUnion_grid hB hgrid (hclose r) (hclose r')]
  refine List.filterMap_congr fun n hn => ?_
  cases hs : r.sampleAt n with
  | none => simp only [Replica.or, hs, Option.bind_none, Option.none_or]
  | some s =>
    obtain ⟨p, hp⟩ := Option.isSome_iff_exists.mp (hr n hn s hs)
    simp only [Replica.or, hs, Option.bind_some, hp, Option.some_or]

omit [Prometheus] in
theorem unionByLength_filterMap (hB : 0 ≤ B) (hgrid : Sparse B nominal)
    (htime : ∀ s p, proj s = some p → time p = s.t) {r r' : Replica B nominal}
    (hr : ∀ n ∈ nominal, ∀ s, r.sampleAt n = some s → (proj s).isSome)
    (hr' : ∀ n ∈ nominal, ∀ s, r'.sampleAt n = some s → (proj s).isSome) :
    ∃ out, (out = r.or r' ∨ out = r'.or r) ∧
      unionByLength time B ((nominal.filterMap r.sampleAt).filterMap proj)
        ((nominal.filterMap r'.sampleAt).filterMap proj) =
      (nominal.filterMap out.sampleAt).filterMap proj := by
  rw [unionByLength, longer, shorter]
  split
  · exact ⟨_, .inr rfl, spacedUnion_filterMap time hB hgrid htime hr'⟩
  · exact ⟨_, .inl rfl, spacedUnion_filterMap time hB hgrid htime hr⟩

end

omit [Prometheus] in
theorem OfKind.filterMap_floatPair {r : Replica B nominal} (h : r.OfKind false) :
    (nominal.filterMap r.sampleAt).filterMap floatPair = [] := by
  rw [List.filterMap_eq_nil_iff]
  intro s hs
  obtain ⟨n, hn, hs⟩ := List.mem_filterMap.mp hs
  cases s with
  | float t v => cases h n hn _ hs
  | histogram t fh => rfl

theorem OfKind.filterMap_histogramPair {r : Replica B nominal} (h : r.OfKind true) :
    (nominal.filterMap r.sampleAt).filterMap histogramPair = [] := by
  rw [List.filterMap_eq_nil_iff]
  intro s hs
  obtain ⟨n, hn, hs⟩ := List.mem_filterMap.mp hs
  cases s with
  | float t v => rfl
  | histogram t fh => cases h n hn _ hs

theorem streamUnion_series (hB : 0 ≤ B) (hgrid : Sparse B nominal) {float : Bool}
    {r r' : Replica B nominal} (hr : r.OfKind float) (hr' : r'.OfKind float) (lbls : Labels) :
    ∃ out, (out = r.or r' ∨ out = r'.or r) ∧
      streamUnion B (seriesToSampleStream (r.series lbls)) (seriesToSampleStream (r'.series lbls)) =
        seriesToSampleStream (out.series lbls) := by
  have hkind : ∀ out, (out = r.or r' ∨ out = r'.or r) → out.OfKind float := by
    rintro out (rfl | rfl)
    · exact hr.or hr'
    · exact hr'.or hr
  cases float with
  | true =>
    have hfloat : ∀ {q : Replica B nominal}, q.OfKind true →
        ∀ n ∈ nominal, ∀ s, q.sampleAt n = some s → (floatPair s).isSome := by
      intro q hq n hn s hs
      cases s with
      | float t v => rfl
      | histogram t fh => cases hq n hn _ hs
    obtain ⟨out, hout, hvalues⟩ := unionByLength_filterMap SamplePair.timestamp hB hgrid
      (fun _ _ => floatPair_timestamp) (hfloat hr) (hfloat hr')
    refine ⟨out, hout, ?_⟩
    simp only [streamUnion, seriesToSampleStream, series, hvalues, hr.filterMap_histogramPair,
      hr'.filterMap_histogramPair, (hkind out hout).filterMap_histogramPair,
      unionByLength_nil_left ascending_nil]
  | false =>
    have hhist : ∀ {q : Replica B nominal}, q.OfKind false →
        ∀ n ∈ nominal, ∀ s, q.sampleAt n = some s → (histogramPair s).isSome := by
      intro q hq n hn s hs
      cases s with
      | float t v => cases hq n hn _ hs
      | histogram t fh => rfl
    obtain ⟨out, hout, hhists⟩ := unionByLength_filterMap SampleHistogramPair.timestamp
      hB hgrid (fun _ _ => histogramPair_timestamp) (hhist hr) (hhist hr')
    refine ⟨out, hout, ?_⟩
    simp only [streamUnion, seriesToSampleStream, series, hhists, hr.filterMap_floatPair,
      hr'.filterMap_floatPair, (hkind out hout).filterMap_floatPair,
      unionByLength_nil_left ascending_nil]

end Replica

/-- Replicas that scrape at the same nominal times, more than two buffers apart and with at most
half a buffer of skew, merge into one sample for each scrape that any of them has. -/
theorem mergeAntiAffinity_one_per_scrape {B : Int} (hB : 0 ≤ B) {nominal : List Int}
    (hgrid : nominal.IsChain fun n n' => n + 2 * B < n') (lbls : Labels)
    {replicas : List (Replica B nominal)} (hne : replicas ≠ [])
    (hkind : (∀ r ∈ replicas, r.OfKind true) ∨ ∀ r ∈ replicas, r.OfKind false) :
    ∃ pick : Int → Option Sample,
      mergeAntiAffinity B false false (replicas.map (Replica.series lbls)) =
        some ⟨lbls, nominal.filterMap pick⟩ ∧
      ∀ n ∈ nominal, ((pick n).isSome ↔ ∃ r ∈ replicas, (r.sampleAt n).isSome) ∧
        ∀ s, pick n = some s → ∃ r ∈ replicas, r.sampleAt n = some s := by
  obtain ⟨float, hfloat⟩ : ∃ float, ∀ r ∈ replicas, r.OfKind float := by
    rcases hkind with h | h
    · exact ⟨true, h⟩
    · exact ⟨false, h⟩
  cases replicas with
  | nil => exact absurd rfl hne
  | cons r replicas =>
    have hasc : ∀ q : Replica B nominal, AscendingStream (seriesToSampleStream (q.series lbls)) :=
      fun q => seriesToSampleStream_ascending (q.close.ascending hB hgrid)
    have hself : ∀ q : Replica B nominal, Replica.Picks [q] q := fun q n _ => by simp
    obtain ⟨m, hloop, out, rfl, -, hpicks⟩ := mergeLoop_simulates B false false
      (Replica.series lbls)
      (fun m rs => ∃ out : Replica B nominal, m = seriesToSampleStream (out.series lbls) ∧
        out.OfKind float ∧ out.Picks rs)
      (fun q => q.OfKind float) (fun rs q => q :: rs)
      (by
        rintro m rs q ⟨out, rfl, hout, hpicks⟩ hq
        obtain ⟨out', hor, hunion⟩ := Replica.streamUnion_series hB hgrid hout hq lbls
        refine ⟨_, mergeSampleStream_false rfl hB (hasc out) (hasc q), out', hunion, ?_⟩
        rcases hor with rfl | rfl
        · exact ⟨hout.or hq, (hpicks.or (hself q)).perm List.perm_append_comm⟩
        · exact ⟨hq.or hout, (hself q).or hpicks⟩)
      ⟨r, rfl, hfloat r List.mem_cons_self, hself r⟩
      (fun q hq => hfloat q (List.mem_cons_of_mem _ hq))
    have hall : (replicas.foldl (fun rs q => q :: rs) [r]).Perm (r :: replicas) := by
      rw [List.foldl_flip_cons_eq_append']
      exact (replicas.reverse_perm.append_right [r]).trans List.perm_append_comm
    refine ⟨out.sampleAt, ?_, hpicks.perm hall⟩
    rw [List.map_cons, mergeAntiAffinity, hloop, Option.map_some]
    exact congrArg some
      (sampleStreamToSeries_seriesToSampleStream (s := out.series lbls)
        (out.close.ascending hB hgrid))

omit [Prometheus] in
theorem mergeAntiAffinity_one_per_scrape_holes :
    ∃ pick : Int → Option Sample,
      @mergeAntiAffinity prometheusWithoutBuckets 10 false false
          [⟨Labels.empty, [.float 3 .zero]⟩, ⟨Labels.empty, [.float (-2) .zero, .float 98 .zero]⟩] =
        some ⟨Labels.empty, [0, 100, 200].filterMap pick⟩ ∧
      (pick 0).isSome ∧ (pick 100).isSome ∧ ¬ (pick 200).isSome := by
  have hclose : ∀ n x : Int, |x - n| ≤ 5 → ∀ y, (some (Sample.float x .zero)) = some y →
      2 * |y.t - n| ≤ 10 := by
    intro n x hx y hy
    cases hy
    simp only [Sample.t]
    omega
  let first : Replica 10 [0, 100, 200] :=
    { sampleAt := fun n => if n = 0 then some (.float 3 .zero) else none
      close := by
        intro n hn x hx
        simp only [List.mem_cons, List.not_mem_nil, or_false] at hn
        rcases hn with rfl | rfl | rfl
        · exact hclose 0 3 (by decide) x hx
        · cases hx
        · cases hx }
  let second : Replica 10 [0, 100, 200] :=
    { sampleAt := fun n =>
        if n = 0 then some (.float (-2) .zero)
        else if n = 100 then some (.float 98 .zero) else none
      close := by
        intro n hn x hx
        simp only [List.mem_cons, List.not_mem_nil, or_false] at hn
        rcases hn with rfl | rfl | rfl
        · exact hclose 0 (-2) (by decide) x hx
        · exact hclose 100 98 (by decide) x hx
        · cases hx }
  have hfloat : ∀ r ∈ [first, second], r.OfKind true := by
    intro r hr n _ s hs
    simp only [List.mem_cons, List.not_mem_nil, or_false] at hr
    rcases hr with rfl | rfl
    · simp only [first] at hs
      split at hs <;> cases hs
      rfl
    · simp only [second] at hs
      split at hs
      · cases hs
        rfl
      · split at hs <;> cases hs
        rfl
  obtain ⟨pick, hmerged, hpick⟩ := @mergeAntiAffinity_one_per_scrape prometheusWithoutBuckets 10
    (by decide) [0, 100, 200] (by decide) Labels.empty [first, second] (List.cons_ne_nil _ _)
    (.inl hfloat)
  refine ⟨pick, hmerged, (hpick 0 (by decide)).1.mpr ⟨first, List.mem_cons_self, rfl⟩,
    (hpick 100 (by decide)).1.mpr ⟨second, List.mem_cons_of_mem _ List.mem_cons_self, rfl⟩,
    fun h => ?_⟩
  obtain ⟨r, hr, hsome⟩ := (hpick 200 (by decide)).1.mp h
  simp only [List.mem_cons, List.not_mem_nil, or_false] at hr
  rcases hr with rfl | rfl <;> cases hsome

/-! ## Instant queries -/

/-- Of two samples near each other the first one goes out, whatever their values. -/
theorem mergeAntiAffinity_single {antiAffinity : Int} (hB : 0 ≤ antiAffinity) (dynamic : Bool)
    (lbls : Labels) {x y : SamplePair} (hnear : near antiAffinity x y = true) :
    mergeAntiAffinity antiAffinity dynamic true
        [⟨lbls, [floatSample x]⟩, ⟨lbls, [floatSample y]⟩] = some ⟨lbls, [floatSample x]⟩ := by
  have hpass : mergeFloatSamples antiAffinity true [x] [y] = [x] := by
    have hclose : ¬ y.timestamp < x.timestamp - antiAffinity ∧
        ¬ x.timestamp + antiAffinity < y.timestamp := by
      simp only [near, Bool.or_eq_true, Bool.and_eq_true, decide_eq_true_eq] at hnear
      omega
    rw [mergeFloatSamples_true hB (ascending_singleton x) (ascending_singleton y)
      (List.cons_ne_nil _ _) (List.cons_ne_nil _ _)]
    simp [preferredFrom, weaveAll, weave, hclose]
  -- one sample has no gaps to estimate a buffer from
  have hbuffer : effectiveBuffer antiAffinity dynamic
      (seriesToSampleStream ⟨lbls, [floatSample x]⟩)
      (seriesToSampleStream ⟨lbls, [floatSample y]⟩) = antiAffinity := by
    cases dynamic <;> rfl
  have hmerge : mergeSampleStream antiAffinity dynamic
      (seriesToSampleStream ⟨lbls, [floatSample x]⟩)
      (seriesToSampleStream ⟨lbls, [floatSample y]⟩) true =
        .ok (seriesToSampleStream ⟨lbls, [floatSample x]⟩) := by
    obtain ⟨metric, hmetric, hmerge⟩ := mergeSampleStream_eq antiAffinity dynamic
      (a := seriesToSampleStream ⟨lbls, [floatSample x]⟩)
      (b := seriesToSampleStream ⟨lbls, [floatSample y]⟩) rfl true
    obtain rfl : metric = lbls := (or_self_iff).mp hmetric
    rw [hmerge, hbuffer]
    show Except.ok (⟨metric, mergeFloatSamples antiAffinity true [x] [y], []⟩ : SampleStream) = _
    rw [hpass]
    rfl
  rw [mergeAntiAffinity, mergeLoop, hmerge]
  exact congrArg some
    (sampleStreamToSeries_seriesToSampleStream (s := ⟨lbls, [floatSample x]⟩) (ascending_singleton _))

/-- `preferMax` leaves the times of a merge alone. Its law holds of the merge of two streams
exactly if the first sample of the longer side is settled, and of the two samples of an instant
query, which are all first, exactly if the second one is not the larger. -/
theorem prefersMax_iff {antiAffinity : Int} (hB : 0 ≤ antiAffinity) (dynamic : Bool) :
    (∀ a b : SampleStream,
      Prometheus.fingerprint a.metric = Prometheus.fingerprint b.metric →
      Ascending SamplePair.timestamp a.values → Ascending SamplePair.timestamp b.values →
      ∃ m m₀, mergeSampleStream antiAffinity dynamic a b true = .ok m ∧
        mergeSampleStream antiAffinity dynamic a b false = .ok m₀ ∧
        m.values.map SamplePair.timestamp = m₀.values.map SamplePair.timestamp ∧
        (PrefersMax (effectiveBuffer antiAffinity dynamic a b)
            (longer a.values b.values) (shorter a.values b.values) m.values ↔
          FirstSettled (effectiveBuffer antiAffinity dynamic a b)
            (longer a.values b.values) (shorter a.values b.values))) ∧
    ∀ (lbls : Labels) (x y : SamplePair), near antiAffinity x y = true →
      (mergeAntiAffinity antiAffinity dynamic true
          [⟨lbls, [floatSample x]⟩, ⟨lbls, [floatSample y]⟩] =
        some ⟨lbls, [.float x.timestamp (if y.value.gt x.value then y.value else x.value)]⟩ ↔
      y.value.gt x.value = false) := by
  constructor
  · intro a b hfp ha hb
    exact mergeSampleStream_true_iff hfp (effectiveBuffer_nonneg hB dynamic a b) ha hb
  · intro lbls x y hnear
    rw [mergeAntiAffinity_single hB dynamic lbls hnear]
    cases hgt : y.value.gt x.value with
    | false => simp [floatSample]
    | true =>
      have hne : x.value ≠ y.value := by
        intro heq
        rw [heq, gt_irrefl] at hgt
        cases hgt
      simp [floatSample, hne]

omit [Prometheus] in
/-- The first samples of two replicas, the second one larger: the smaller value goes out. -/
theorem prefersMax_first_sample :
    (∃ m, @mergeSampleStream prometheusWithoutBuckets 10000 false
        ⟨Labels.empty, [⟨0, ⟨0x3ff0000000000000#64⟩⟩], []⟩
        ⟨Labels.empty, [⟨0, ⟨0x4000000000000000#64⟩⟩], []⟩ true = .ok m ∧
      ¬ PrefersMax 10000 [⟨0, ⟨0x3ff0000000000000#64⟩⟩] [⟨0, ⟨0x4000000000000000#64⟩⟩]
        m.values) ∧
    @mergeAntiAffinity prometheusWithoutBuckets 10000 false true
        [⟨Labels.empty, [.float 0 ⟨0x3ff0000000000000#64⟩]⟩,
          ⟨Labels.empty, [.float 0 ⟨0x4000000000000000#64⟩]⟩] =
      some ⟨Labels.empty, [.float 0 ⟨0x3ff0000000000000#64⟩]⟩ := by
  refine ⟨⟨⟨Labels.empty, [⟨0, ⟨0x3ff0000000000000#64⟩⟩], []⟩, rfl, fun h => ?_⟩, rfl⟩
  have hmem := h ⟨0, ⟨0x3ff0000000000000#64⟩⟩ List.mem_cons_self ⟨0, ⟨0x4000000000000000#64⟩⟩
    (by decide)
  revert hmem
  decide

omit [Prometheus] in
/-- A larger value at a later position is preferred. -/
theorem prefersMax_iff_later :
    ∃ m, @mergeSampleStream prometheusWithoutBuckets 10000 false
        ⟨Labels.empty, [⟨0, ⟨0x3ff0000000000000#64⟩⟩, ⟨60000, ⟨0x3ff0000000000000#64⟩⟩], []⟩
        ⟨Labels.empty, [⟨60000, ⟨0x4000000000000000#64⟩⟩], []⟩ true = .ok m ∧
      ⟨60000, ⟨0x4000000000000000#64⟩⟩ ∈ m.values := by
  obtain ⟨m, -, hm, -, -, hiff⟩ :=
    (@prefersMax_iff prometheusWithoutBuckets 10000 (by decide) false).1
      ⟨Labels.empty, [⟨0, ⟨0x3ff0000000000000#64⟩⟩, ⟨60000, ⟨0x3ff0000000000000#64⟩⟩], []⟩
      ⟨Labels.empty, [⟨60000, ⟨0x4000000000000000#64⟩⟩], []⟩ rfl (by decide) (by decide)
  have hsettled : FirstSettled 10000
      [⟨0, ⟨0x3ff0000000000000#64⟩⟩, ⟨60000, ⟨0x3ff0000000000000#64⟩⟩]
      [⟨60000, ⟨0x4000000000000000#64⟩⟩] := by
    rintro u hu x hx -
    cases hu
    have hnone : List.find? (near 10000 ⟨0, ⟨0x3ff0000000000000#64⟩⟩)
        [⟨60000, ⟨0x4000000000000000#64⟩⟩] = none := by decide
    rw [hnone] at hx
    cases hx
  exact ⟨m, hm, hiff.mpr hsettled ⟨60000, ⟨0x3ff0000000000000#64⟩⟩ (by decide)
    ⟨60000, ⟨0x4000000000000000#64⟩⟩ (by decide)⟩

end Promclient
end Proxeus
