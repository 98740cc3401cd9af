import Proxeus.Promapi.Decode
import Proxeus.Promclient.MergeSeriesSet

/-!
# Promapi.DecodeSpec

What the decoder of responses makes of a body. Every sample that it builds is read from a pair of the
body; the loops end; and a series has a nil sample exactly if it is made of an element of a vector that
has neither a value nor a histogram (`decodeSeriesSet_sound_iff`). The conversion of histograms is
not the one of the other decoders (`sampleHistogram_paths_iff`).
-/

namespace Proxeus
namespace Promapi

open Lib

section

variable [Scalars] {body : Json}

/-! ## Pairs -/

/-- The sample is what a pair of the body, an array with a number and a second item, is decoded as. -/
def Carried (body : Json) : Sample → Prop
  | .float t v => ∃ literal w items s, Json.Sub (.arr (.num literal :: w :: items)) body ∧
      Scalars.milliseconds literal = some t ∧ w.asString = some s ∧ Scalars.parseFloat s = some v
  | .histogram t fh => ∃ literal w items sh, Json.Sub (.arr (.num literal :: w :: items)) body ∧
      Scalars.milliseconds literal = some t ∧ Scalars.unmarshalHistogram w = some sh ∧
      fh = sampleHistogramToFloatHistogram sh

theorem decodeSamplePair_carried {v : Json} {rest r' : Reader} {t : Int} {f : SampleValue}
    (h : Reader.Within body (.value v :: rest))
    (hok : decodeSamplePair (.value v :: rest) = .ok ((t, f), r')) :
    Carried body (.float t f) ∧ Reader.Within body r' := by
  obtain ⟨m, r₁, harr, h₁⟩ := exists_of_bind_eq_ok hok
  obtain ⟨literal, r₂, hnum, h₂⟩ := exists_of_bind_eq_ok h₁
  obtain ⟨ts, r₃, hts, h₃⟩ := exists_of_bind_eq_ok h₂
  obtain ⟨hms, rfl⟩ := exists_of_orReport hts
  obtain ⟨m', r₄, hnext, h₄⟩ := exists_of_bind_eq_ok h₃
  obtain ⟨vs, r₅, hstr, h₅⟩ := exists_of_bind_eq_ok h₄
  obtain ⟨m'', r₆, hclose, h₆⟩ := exists_of_bind_eq_ok h₅
  obtain ⟨f', r₇, hparse, h₇⟩ := exists_of_bind_eq_ok h₆
  obtain ⟨hf, rfl⟩ := exists_of_orReport hparse
  cases h₇
  obtain ⟨w, rfl, hw⟩ := exists_of_readString hstr
  obtain ⟨items, rfl⟩ := pair_of_reads h harr hnum hnext
  have hr₁ := exists_of_readNumber hnum
  subst hr₁
  refine ⟨⟨literal, w, items, vs, h.head, hms, hw, hf⟩, ?_⟩
  exact ((h.readArray harr).tail.readArray hnext).tail.readArray hclose

theorem decodeHistogramPair_carried {v : Json} {rest r' : Reader} {t : Int} {fh : FloatHistogram}
    (h : Reader.Within body (.value v :: rest))
    (hok : decodeHistogramPair (.value v :: rest) = .ok ((t, fh), r')) :
    Carried body (.histogram t fh) ∧ Reader.Within body r' := by
  obtain ⟨m, r₁, harr, h₁⟩ := exists_of_bind_eq_ok hok
  obtain ⟨literal, r₂, hnum, h₂⟩ := exists_of_bind_eq_ok h₁
  obtain ⟨ts, r₃, hts, h₃⟩ := exists_of_bind_eq_ok h₂
  obtain ⟨hms, rfl⟩ := exists_of_orReport hts
  obtain ⟨m', r₄, hnext, h₄⟩ := exists_of_bind_eq_ok h₃
  obtain ⟨w, r₅, hskip, h₅⟩ := exists_of_bind_eq_ok h₄
  obtain ⟨m'', r₆, hclose, h₆⟩ := exists_of_bind_eq_ok h₅
  obtain ⟨sh, r₇, hunmarshal, h₇⟩ := exists_of_bind_eq_ok h₆
  obtain ⟨hsh, rfl⟩ := exists_of_orReport hunmarshal
  cases h₇
  have hr₄ := exists_of_skip hskip
  subst hr₄
  obtain ⟨items, rfl⟩ := pair_of_reads h harr hnum hnext
  have hr₁ := exists_of_readNumber hnum
  subst hr₁
  refine ⟨⟨literal, w, items, sh, h.head, hms, hsh, rfl⟩, ?_⟩
  exact ((h.readArray harr).tail.readArray hnext).tail.readArray hclose

/-! ## Series -/

omit [Scalars] in
theorem readMetric_within {b b' : List Label} {r r' : Reader} (h : Reader.Within body r)
    (hok : readMetric b r = .ok (b', r')) : Reader.Within body r' := by
  refine readFields_induct (P := fun _ r => Reader.Within body r)
    (fun _ r k r' hr hread => hr.readObject hread) ?_ h hok
  intro k acc v rest acc' r' hr hfield
  obtain ⟨value, r₁, hstr, h₁⟩ := exists_of_bind_eq_ok hfield
  cases h₁
  exact hr.readString hstr

theorem vectorField_carried {k : String} {acc acc' : List Label × Option Sample} {v : Json}
    {rest r' : Reader} (hacc : ∀ sample ∈ acc.2, Carried body sample)
    (h : Reader.Within body (.value v :: rest))
    (hok : vectorField k acc (.value v :: rest) = .ok (acc', r')) :
    (∀ sample ∈ acc'.2, Carried body sample) ∧ Reader.Within body r' := by
  unfold vectorField at hok
  split at hok
  · obtain ⟨b, r₁, hread, h₁⟩ := exists_of_bind_eq_ok hok
    cases h₁
    exact ⟨hacc, readMetric_within h hread⟩
  · obtain ⟨p, r₁, hread, h₁⟩ := exists_of_bind_eq_ok hok
    cases h₁
    obtain ⟨hcarried, hr⟩ := decodeSamplePair_carried h hread
    refine ⟨?_, hr⟩
    rintro sample ⟨⟩
    exact hcarried
  · obtain ⟨p, r₁, hread, h₁⟩ := exists_of_bind_eq_ok hok
    cases h₁
    obtain ⟨hcarried, hr⟩ := decodeHistogramPair_carried h hread
    refine ⟨?_, hr⟩
    rintro sample ⟨⟩
    exact hcarried
  · obtain ⟨w, r₁, hread, h₁⟩ := exists_of_bind_eq_ok hok
    cases h₁
    exact ⟨hacc, h.skip hread⟩

/-- The samples of the series that are not nil are of the body. -/
def SamplesCarried (body : Json) (series : List DecodedSeries) : Prop :=
  ∀ s ∈ series, ∀ sample, some sample ∈ s.samples → Carried body sample

theorem samplesCarried_append {series : List DecodedSeries} {s : DecodedSeries}
    (h : SamplesCarried body series) (hs : ∀ sample, some sample ∈ s.samples → Carried body sample) :
    SamplesCarried body (series ++ [s]) := by
  intro s' hs'
  rcases List.mem_append.mp hs' with hs' | hs'
  · exact h s' hs'
  · rw [List.mem_singleton.mp hs']
    exact hs

theorem decodeVector_carried {r r' : Reader} {series : List DecodedSeries}
    (h : Reader.Within body r) (hok : decodeVector r = .ok (series, r')) :
    SamplesCarried body series := by
  have hloop := readItems_induct (P := fun out r => SamplesCarried body out ∧ Reader.Within body r)
    (fun _ r more r' hr hread => ⟨hr.1, hr.2.readArray hread⟩) ?_ ?_ ⟨?_, h⟩ hok
  · exact hloop.1
  · rintro out v rest out' r' ⟨hout, hr⟩ hitem
    obtain ⟨vars, r₁, hread, h₁⟩ := exists_of_bind_eq_ok hitem
    cases h₁
    have hvars := readFields_induct
      (P := fun acc r => (∀ sample ∈ acc.2, Carried body sample) ∧ Reader.Within body r)
      (fun _ r k r' hr hread => ⟨hr.1, hr.2.readObject hread⟩)
      (fun k acc v rest acc' r' hr hfield => vectorField_carried hr.1 hr.2 hfield)
      ⟨by simp, hr⟩ hread
    refine ⟨samplesCarried_append hout ?_, hvars.2⟩
    intro sample hsample
    exact hvars.1 sample (List.mem_singleton.mp hsample).symm
  · intro out k v rest p hitem
    cases hitem
  · intro s hs
    cases hs

/-- The samples of a matrix, where only those are gathered that a pair has. -/
theorem readSamples_carried {item : List Sample → Reader → Except ReadError (List Sample × Reader)}
    (hitem : ∀ samples v rest samples' r', Reader.Within body (.value v :: rest) →
      item samples (.value v :: rest) = .ok (samples', r') →
      ∃ sample, samples' = samples ++ [sample] ∧ Carried body sample ∧ Reader.Within body r')
    (hfield : ∀ samples k v rest p, item samples (.field k v :: rest) ≠ .ok p)
    {samples samples' : List Sample} {r r' : Reader} (hs : ∀ sample ∈ samples, Carried body sample)
    (h : Reader.Within body r) (hok : readItems item samples r = .ok (samples', r')) :
    (∀ sample ∈ samples', Carried body sample) ∧ Reader.Within body r' := by
  refine readItems_induct
    (P := fun samples r => (∀ sample ∈ samples, Carried body sample) ∧ Reader.Within body r)
    (fun _ r more r' hr hread => ⟨hr.1, hr.2.readArray hread⟩) ?_ hfield ⟨hs, h⟩ hok
  rintro samples v rest samples' r' ⟨hsamples, hr⟩ hread
  obtain ⟨sample, rfl, hcarried, hr'⟩ := hitem samples v rest samples' r' hr hread
  refine ⟨fun x hx => ?_, hr'⟩
  rcases List.mem_append.mp hx with hx | hx
  · exact hsamples x hx
  · rw [List.mem_singleton.mp hx]
    exact hcarried

theorem matrixField_carried {k : String} {acc acc' : MatrixVars} {v : Json} {rest r' : Reader}
    (hacc : ∀ sample ∈ acc.samples, Carried body sample)
    (h : Reader.Within body (.value v :: rest))
    (hok : matrixField k acc (.value v :: rest) = .ok (acc', r')) :
    (∀ sample ∈ acc'.samples, Carried body sample) ∧ Reader.Within body r' := by
  unfold matrixField at hok
  split at hok
  · obtain ⟨b, r₁, hread, h₁⟩ := exists_of_bind_eq_ok hok
    cases h₁
    exact ⟨hacc, readMetric_within h hread⟩
  · obtain ⟨samples, r₁, hread, h₁⟩ := exists_of_bind_eq_ok hok
    cases h₁
    refine readSamples_carried ?_ ?_ hacc h hread
    · intro samples v rest samples' r' hr hitem
      obtain ⟨p, r₁, hpair, h₁⟩ := exists_of_bind_eq_ok hitem
      cases h₁
      exact ⟨_, rfl, decodeSamplePair_carried hr hpair⟩
    · intro samples k v rest p hitem
      cases hitem
  · obtain ⟨samples, r₁, hread, h₁⟩ := exists_of_bind_eq_ok hok
    cases h₁
    refine readSamples_carried ?_ ?_ hacc h hread
    · intro samples v rest samples' r' hr hitem
      obtain ⟨p, r₁, hpair, h₁⟩ := exists_of_bind_eq_ok hitem
      cases h₁
      exact ⟨_, rfl, decodeHistogramPair_carried hr hpair⟩
    · intro samples k v rest p hitem
      cases hitem
  · obtain ⟨w, r₁, hread, h₁⟩ := exists_of_bind_eq_ok hok
    cases h₁
    exact ⟨hacc, h.skip hread⟩

theorem decodeMatrix_carried {r r' : Reader} {series : List DecodedSeries}
    (h : Reader.Within body r) (hok : decodeMatrix r = .ok (series, r')) :
    SamplesCarried body series := by
  have hloop := readItems_induct (P := fun out r => SamplesCarried body out ∧ Reader.Within body r)
    (fun _ r more r' hr hread => ⟨hr.1, hr.2.readArray hread⟩) ?_ ?_ ⟨?_, h⟩ hok
  · exact hloop.1
  · rintro out v rest out' r' ⟨hout, hr⟩ hitem
    obtain ⟨vars, r₁, hread, h₁⟩ := exists_of_bind_eq_ok hitem
    cases h₁
    have hvars := readFields_induct
      (P := fun acc r => (∀ sample ∈ acc.samples, Carried body sample) ∧ Reader.Within body r)
      (fun _ r k r' hr hread => ⟨hr.1, hr.2.readObject hread⟩)
      (fun k acc v rest acc' r' hr hfield => matrixField_carried hr.1 hr.2 hfield)
      ⟨by simp, hr⟩ hread
    refine ⟨samplesCarried_append hout ?_, hvars.2⟩
    intro sample hsample
    obtain ⟨x, hx, hsome⟩ := List.mem_map.mp hsample
    cases hsome
    apply hvars.1
    split at hx
    · exact mem_sortBy.mp hx
    · exact hx
  · intro out k v rest p hitem
    cases hitem
  · intro s hs
    cases hs

/-! ## Nil samples -/

/-- A series without a nil sample. -/
def DecodedSeries.Present (s : DecodedSeries) : Prop := none ∉ s.samples

theorem decodeMatrix_present {r r' : Reader} {series : List DecodedSeries}
    (hok : decodeMatrix r = .ok (series, r')) : ∀ s ∈ series, s.Present := by
  refine readItems_induct (P := fun out _ => ∀ s ∈ out, DecodedSeries.Present s)
    (fun _ _ _ _ hr _ => hr) ?_ ?_ ?_ hok
  · intro out v rest out' r' hout hitem
    obtain ⟨vars, r₁, hread, h₁⟩ := exists_of_bind_eq_ok hitem
    cases h₁
    intro s hs
    rcases List.mem_append.mp hs with hs | hs
    · exact hout s hs
    · rw [List.mem_singleton.mp hs, DecodedSeries.Present]
      simp
  · intro out k v rest p hitem
    cases hitem
  · intro s hs
    cases hs

/-- A loop body that notes the names of the fields it is called for. -/
def noteNames {α : Type} (field : String → α → Reader → Except ReadError (α × Reader)) (k : String)
    (acc : List String × α) (r : Reader) : Except ReadError ((List String × α) × Reader) := do
  let (a, r) ← field k acc.2 r
  .ok ((acc.1 ++ [k], a), r)

/-- The names of the fields of the elements of a vector, as far as each element is read: up to a field
without a name. -/
def vectorNames (r : Reader) : Except ReadError (List (List String) × Reader) :=
  readItems (fun out r => do
    let ((names, _), r) ← readFields (noteNames vectorField) ([], ([], none)) r
    .ok (out ++ [names], r)) [] r

/-- Fields of which a sample is made. -/
def HasSample (names : List String) : Prop := "value" ∈ names ∨ "histogram" ∈ names

instance (names : List String) : Decidable (HasSample names) :=
  inferInstanceAs (Decidable ("value" ∈ names ∨ "histogram" ∈ names))

omit [Scalars] in
theorem hasSample_append_iff (names : List String) (k : String) :
    HasSample (names ++ [k]) ↔ HasSample names ∨ k = "value" ∨ k = "histogram" := by
  simp only [HasSample, List.mem_append, List.mem_singleton, eq_comm (a := k)]
  tauto

/-- The sample is there if its field has been read. -/
def SampleOfNames (acc : List Label × Option Sample) (noted : List String × List Label × Option Sample) :
    Prop :=
  noted.2 = acc ∧ (acc.2 ≠ none ↔ HasSample noted.1)

theorem vectorField_sample {k : String} {acc acc' : List Label × Option Sample} {r r' : Reader}
    (hok : vectorField k acc r = .ok (acc', r')) :
    acc'.2 ≠ none ↔ acc.2 ≠ none ∨ k = "value" ∨ k = "histogram" := by
  unfold vectorField at hok
  split at hok
  · obtain ⟨b, r₁, hread, h₁⟩ := exists_of_bind_eq_ok hok
    cases h₁
    simp
  · obtain ⟨p, r₁, hread, h₁⟩ := exists_of_bind_eq_ok hok
    cases h₁
    simp
  · obtain ⟨p, r₁, hread, h₁⟩ := exists_of_bind_eq_ok hok
    cases h₁
    simp
  · rename_i hvalue hhistogram
    obtain ⟨w, r₁, hread, h₁⟩ := exists_of_bind_eq_ok hok
    cases h₁
    refine ⟨.inl, ?_⟩
    rintro (h | h | h)
    · exact h
    · exact absurd h hvalue
    · exact absurd h hhistogram

theorem vectorField_noted (k : String) (acc : List Label × Option Sample)
    (noted : List String × List Label × Option Sample) (r : Reader) (h : SampleOfNames acc noted) :
    SameRead SampleOfNames (vectorField k acc r) (noteNames vectorField k noted r) := by
  obtain ⟨rfl, hsample⟩ := h
  unfold noteNames
  cases hok : vectorField k noted.2 r with
  | error err => exact .error err
  | ok p =>
    refine .ok ⟨rfl, ?_⟩ p.2
    rw [vectorField_sample hok, hasSample_append_iff, hsample]

/-- The sample of each series is there if the fields of its element have one. -/
def SeriesOfNames (series : List DecodedSeries) (elements : List (List String)) : Prop :=
  List.Forall₂ (fun s names => s.Present ↔ HasSample names) series elements

theorem decodeVector_noted (r : Reader) :
    SameRead SeriesOfNames (decodeVector r) (vectorNames r) := by
  unfold decodeVector vectorNames
  refine readItems_same ?_ List.Forall₂.nil r
  intro out elements r hout
  have hstart : SampleOfNames ([], none) ([], ([], none)) := by
    refine ⟨rfl, ?_⟩
    simp [HasSample]
  have hread := readFields_same vectorField_noted hstart r
  refine SameRead.bind hread ?_
  rintro acc noted r' ⟨-, hsample⟩
  have hpresent : DecodedSeries.Present ⟨sortBy Label.name acc.1, [acc.2]⟩ ↔ HasSample noted.1 := by
    rw [← hsample, DecodedSeries.Present, List.mem_singleton, ne_comm]
  exact .ok (List.rel_append hout (.cons hpresent .nil)) r'

omit [Scalars] in
theorem forall_present_iff {series : List DecodedSeries} {elements : List (List String)}
    (h : SeriesOfNames series elements) :
    (∀ s ∈ series, s.Present) ↔ ∀ names ∈ elements, HasSample names := by
  induction h with
  | nil => simp
  | cons hs _ ih => simp only [List.forall_mem_cons, hs, ih]

/-! ## Responses -/

/-- The result is a value of the body. -/
def ResultWithin (body : Json) (e : Envelope) : Prop := ∀ v ∈ e.result, Json.Sub v body

omit [Scalars] in
theorem dataField_within {k : String} {e e' : Envelope} {v : Json} {rest r' : Reader}
    (he : ResultWithin body e) (h : Reader.Within body (.value v :: rest))
    (hok : dataField k e (.value v :: rest) = .ok (e', r')) :
    ResultWithin body e' ∧ Reader.Within body r' := by
  unfold dataField at hok
  split at hok
  · obtain ⟨s, r₁, hread, h₁⟩ := exists_of_bind_eq_ok hok
    cases h₁
    exact ⟨he, h.readString hread⟩
  · obtain ⟨w, r₁, hread, h₁⟩ := exists_of_bind_eq_ok hok
    cases h₁
    have hw := (List.cons.inj (exists_of_skip hread)).1
    cases hw
    refine ⟨?_, h.skip hread⟩
    rintro u ⟨⟩
    exact h.head
  · obtain ⟨w, r₁, hread, h₁⟩ := exists_of_bind_eq_ok hok
    cases h₁
    exact ⟨he, h.skip hread⟩

omit [Scalars] in
theorem readAnnotations_within {r r' : Reader} (h : Reader.Within body r)
    (hok : readAnnotations r = .ok ((), r')) : Reader.Within body r' := by
  refine readItems_induct (P := fun _ r => Reader.Within body r)
    (fun _ r more r' hr hread => hr.readArray hread) ?_ ?_ h hok
  · intro acc v rest acc' r' hr hitem
    obtain ⟨s, r₁, hread, h₁⟩ := exists_of_bind_eq_ok hitem
    cases h₁
    exact hr.readString hread
  · intro acc k v rest p hitem
    cases hitem

omit [Scalars] in
theorem envelopeField_within {k : String} {e e' : Envelope} {v : Json} {rest r' : Reader}
    (he : ResultWithin body e) (h : Reader.Within body (.value v :: rest))
    (hok : envelopeField k e (.value v :: rest) = .ok (e', r')) :
    ResultWithin body e' ∧ Reader.Within body r' := by
  unfold envelopeField at hok
  split at hok
  · obtain ⟨s, r₁, hread, h₁⟩ := exists_of_bind_eq_ok hok
    cases h₁
    exact ⟨he, h.readString hread⟩
  · obtain ⟨s, r₁, hread, h₁⟩ := exists_of_bind_eq_ok hok
    cases h₁
    exact ⟨he, h.readString hread⟩
  · obtain ⟨s, r₁, hread, h₁⟩ := exists_of_bind_eq_ok hok
    cases h₁
    exact ⟨he, h.readString hread⟩
  · obtain ⟨_, r₁, hread, h₁⟩ := exists_of_bind_eq_ok hok
    cases h₁
    exact ⟨he, readAnnotations_within h hread⟩
  · obtain ⟨_, r₁, hread, h₁⟩ := exists_of_bind_eq_ok hok
    cases h₁
    exact ⟨he, readAnnotations_within h hread⟩
  · exact readFields_induct (P := fun e r => ResultWithin body e ∧ Reader.Within body r)
      (fun _ r k r' hr hread => ⟨hr.1, hr.2.readObject hread⟩)
      (fun k e v rest e' r' hr hfield => dataField_within hr.1 hr.2 hfield) ⟨he, h⟩ hok
  · obtain ⟨w, r₁, hread, h₁⟩ := exists_of_bind_eq_ok hok
    cases h₁
    exact ⟨he, h.skip hread⟩

omit [Scalars] in
theorem within_body (body : Json) : Reader.Within body [.value body] := by
  refine ⟨?_, fun i hi => by cases hi⟩
  rintro v ⟨⟩
  exact .refl body

omit [Scalars] in
theorem readEnvelope_within {e : Envelope} {r : Reader} (hok : readEnvelope body = .ok (e, r)) :
    ResultWithin body e :=
  (readFields_induct (P := fun e r => ResultWithin body e ∧ Reader.Within body r)
    (fun _ r k r' hr hread => ⟨hr.1, hr.2.readObject hread⟩)
    (fun k e v rest e' r' hr hfield => envelopeField_within hr.1 hr.2 hfield)
    ⟨by simp [ResultWithin], within_body body⟩ hok).1

omit [Scalars] in
theorem within_of_sub {v : Json} (h : Json.Sub v body) : Reader.Within body [.value v] := by
  refine ⟨?_, fun i hi => by cases hi⟩
  rintro w ⟨⟩
  exact h

theorem decodeScalar_spec {r' : Reader} {series : List DecodedSeries} {v : Json} {rest : Reader}
    (h : Reader.Within body (.value v :: rest))
    (hok : decodeScalar (.value v :: rest) = .ok (series, r')) :
    SamplesCarried body series ∧ ∀ s ∈ series, s.Present := by
  obtain ⟨p, r₁, hread, h₁⟩ := exists_of_bind_eq_ok hok
  cases h₁
  constructor
  · intro s hs sample hsample
    rw [List.mem_singleton.mp hs] at hsample
    cases List.mem_singleton.mp hsample
    exact (decodeSamplePair_carried h hread).1
  · intro s hs
    rw [List.mem_singleton.mp hs, DecodedSeries.Present]
    simp

/-- The elements of a result that is a vector, by the names of their fields. There are none where the
vector is not read to its end. -/
def resultElements (resultType : String) (result : Option Json) : List (List String) :=
  match result with
  | none => []
  | some v =>
    if resultType = "vector" then
      match vectorNames [.value v] with
      | .ok (elements, _) => elements
      | .error _ => []
    else []

/-- The elements of the vector of a response that is no error. -/
def vectorElements (body : Json) : List (List String) :=
  match readEnvelope body with
  | .ok (e, _) => if e.status = "error" then [] else resultElements e.resultType e.result
  | .error _ => []

omit [Scalars] in
theorem exists_of_seriesOf {read : Except ReadError (List DecodedSeries × Reader)}
    {series : List DecodedSeries} (h : seriesOf read = .ok series) :
    ∃ r, read = .ok (series, r) := by
  cases read with
  | error err => cases h
  | ok p =>
    cases h
    exact ⟨p.2, rfl⟩

theorem decodeResult_carried {resultType : String} {result : Option Json}
    {series : List DecodedSeries} (hresult : ∀ v ∈ result, Json.Sub v body)
    (hok : decodeResult resultType result = .ok series) : SamplesCarried body series := by
  have hnil : SamplesCarried body [] := by
    intro s hs
    cases hs
  unfold decodeResult at hok
  split at hok
  · cases hok
    exact hnil
  · rename_i v
    have hv := within_of_sub (hresult v rfl)
    split at hok
    · obtain ⟨r, hread⟩ := exists_of_seriesOf hok
      exact decodeVector_carried hv hread
    · obtain ⟨r, hread⟩ := exists_of_seriesOf hok
      exact decodeMatrix_carried hv hread
    · obtain ⟨r, hread⟩ := exists_of_seriesOf hok
      exact (decodeScalar_spec hv hread).1
    · cases hok
      exact hnil
    · cases hok

/-- What is decoded without an error has a nil sample for each element without one. -/
theorem decodeResult_present_iff (resultType : String) (result : Option Json) :
    (∀ series, decodeResult resultType result = .ok series → ∀ s ∈ series, s.Present) ↔
      ∀ names ∈ resultElements resultType result, HasSample names := by
  unfold decodeResult resultElements
  cases result with
  | none => simp
  | some v =>
    simp only
    split
    · rw [if_pos rfl]
      have hsame := decodeVector_noted [.value v]
      generalize decodeVector [.value v] = read at hsame
      generalize vectorNames [.value v] = noted at hsame
      cases hsame with
      | ok h r => simp [seriesOf, forall_present_iff h]
      | error err => simp [seriesOf]
    · rw [if_neg (by decide)]
      simp only [List.not_mem_nil, false_imp_iff, implies_true, iff_true]
      intro series hok
      obtain ⟨r, hread⟩ := exists_of_seriesOf hok
      exact decodeMatrix_present hread
    · rw [if_neg (by decide)]
      simp only [List.not_mem_nil, false_imp_iff, implies_true, iff_true]
      intro series hok
      obtain ⟨r, hread⟩ := exists_of_seriesOf hok
      exact (decodeScalar_spec (within_body v) hread).2
    · rw [if_neg (by decide)]
      simp
    · rename_i hvector _ _ _
      rw [if_neg hvector]
      simp

/-- Every body is an error, or series whose samples are all there and of the body. -/
def Sound (body : Json) : Prop :=
  ∀ series, decodeSeriesSet body = .ok series →
    ∀ s ∈ series, ∀ x ∈ s.samples, ∃ sample, x = some sample ∧ Carried body sample

theorem decodeSeriesSet_carried {series : List DecodedSeries}
    (hok : decodeSeriesSet body = .ok series) : SamplesCarried body series := by
  unfold decodeSeriesSet at hok
  split at hok
  · cases hok
  · rename_i e r henvelope
    split at hok
    · cases hok
    · exact decodeResult_carried (readEnvelope_within henvelope) hok

theorem sound_iff_present :
    Sound body ↔ ∀ series, decodeSeriesSet body = .ok series → ∀ s ∈ series, s.Present := by
  constructor
  · intro h series hok s hs hnil
    obtain ⟨sample, hsample, -⟩ := h series hok s hs none hnil
    cases hsample
  · intro h series hok s hs x hx
    cases x with
    | none => exact absurd hx (h series hok s hs)
    | some sample => exact ⟨sample, rfl, decodeSeriesSet_carried hok s hs sample hx⟩

theorem decodeSamplePair_advances (r : Reader) : Advances r (decodeSamplePair r) :=
  (advances_readArray r).bind fun _ r _ => (advances_readNumber r).bind fun _ r _ =>
    (advances_orReport _ r).bind fun _ r _ => (advances_readArray r).bind fun _ r _ =>
      (advances_readString r).bind fun _ r _ => (advances_readArray r).bind fun _ r _ =>
        (advances_orReport _ r).bind fun _ _ _ => advances_ok le_rfl

theorem decodeHistogramPair_advances (r : Reader) : Advances r (decodeHistogramPair r) :=
  (advances_readArray r).bind fun _ r _ => (advances_readNumber r).bind fun _ r _ =>
    (advances_orReport _ r).bind fun _ r _ => (advances_readArray r).bind fun _ r _ =>
      (advances_skip r).bind fun _ r _ => (advances_readArray r).bind fun _ r _ =>
        (advances_orReport _ r).bind fun _ _ _ => advances_ok le_rfl

omit [Scalars] in
theorem readMetric_advances (b : List Label) (r : Reader) : Advances r (readMetric b r) := by
  refine readFields_advances ?_ b r
  intro k b r
  exact (advances_readString r).bind fun _ _ _ => advances_ok le_rfl

theorem vectorField_advances (k : String) (acc : List Label × Option Sample) (r : Reader) :
    Advances r (vectorField k acc r) := by
  unfold vectorField
  split
  · exact (readMetric_advances acc.1 r).bind fun _ _ _ => advances_ok le_rfl
  · exact (decodeSamplePair_advances r).bind fun _ _ _ => advances_ok le_rfl
  · exact (decodeHistogramPair_advances r).bind fun _ _ _ => advances_ok le_rfl
  · exact (advances_skip r).bind fun _ _ _ => advances_ok le_rfl

theorem matrixField_advances (k : String) (acc : MatrixVars) (r : Reader) :
    Advances r (matrixField k acc r) := by
  unfold matrixField
  split
  · exact (readMetric_advances acc.b r).bind fun _ _ _ => advances_ok le_rfl
  · refine (readItems_advances (fun _ r => ?_) acc.samples r).bind fun _ _ _ => advances_ok le_rfl
    exact (decodeSamplePair_advances r).bind fun _ _ _ => advances_ok le_rfl
  · refine (readItems_advances (fun _ r => ?_) acc.samples r).bind fun _ _ _ => advances_ok le_rfl
    exact (decodeHistogramPair_advances r).bind fun _ _ _ => advances_ok le_rfl
  · exact (advances_skip r).bind fun _ _ _ => advances_ok le_rfl

omit [Scalars] in
theorem dataField_advances (k : String) (e : Envelope) (r : Reader) :
    Advances r (dataField k e r) := by
  unfold dataField
  split
  · exact (advances_readString r).bind fun _ _ _ => advances_ok le_rfl
  · exact (advances_skip r).bind fun _ _ _ => advances_ok le_rfl
  · exact (advances_skip r).bind fun _ _ _ => advances_ok le_rfl

omit [Scalars] in
theorem readAnnotations_advances (r : Reader) : Advances r (readAnnotations r) := by
  refine readItems_advances ?_ () r
  intro acc r
  exact (advances_readString r).bind fun _ _ _ => advances_ok le_rfl

omit [Scalars] in
theorem envelopeField_advances (k : String) (e : Envelope) (r : Reader) :
    Advances r (envelopeField k e r) := by
  unfold envelopeField
  split
  · exact (advances_readString r).bind fun _ _ _ => advances_ok le_rfl
  · exact (advances_readString r).bind fun _ _ _ => advances_ok le_rfl
  · exact (advances_readString r).bind fun _ _ _ => advances_ok le_rfl
  · exact (readAnnotations_advances r).bind fun _ _ _ => advances_ok le_rfl
  · exact (readAnnotations_advances r).bind fun _ _ _ => advances_ok le_rfl
  · exact readFields_advances dataField_advances e r
  · exact (advances_skip r).bind fun _ _ _ => advances_ok le_rfl

theorem decodeVector_advances (r : Reader) : Advances r (decodeVector r) := by
  refine readItems_advances ?_ [] r
  intro out r
  exact (readFields_advances vectorField_advances _ r).bind fun _ _ _ => advances_ok le_rfl

theorem decodeMatrix_advances (r : Reader) : Advances r (decodeMatrix r) := by
  refine readItems_advances ?_ [] r
  intro out r
  exact (readFields_advances matrixField_advances _ r).bind fun _ _ _ => advances_ok le_rfl

theorem decodeScalar_advances (r : Reader) : Advances r (decodeScalar r) := by
  unfold decodeScalar
  refine (decodeSamplePair_advances r).bind ?_
  rintro ⟨t, f⟩ r' -
  exact advances_ok le_rfl

/-- No loop of the decoder is out of turns. -/
theorem decodeSeriesSet_total (body : Json) :
    decodeSeriesSet body ≠ .error (.badResponse .outOfTurns) ∧
      decodeSeriesSet body ≠ .error (.result .outOfTurns) := by
  have henvelope : readEnvelope body ≠ .error .outOfTurns :=
    (readFields_advances envelopeField_advances _ _).1
  have hread : ∀ {read : Except ReadError (List DecodedSeries × Reader)},
      read ≠ .error .outOfTurns → seriesOf read ≠ .error (.result .outOfTurns) ∧
        seriesOf read ≠ .error (.badResponse .outOfTurns) := by
    intro read hne
    cases read with
    | error err => simpa [seriesOf] using hne
    | ok p => simp [seriesOf]
  unfold decodeSeriesSet
  split
  · rename_i err herr
    rw [herr] at henvelope
    simpa using henvelope
  · split
    · simp
    · unfold decodeResult
      split
      · simp
      · split
        · exact (hread (decodeVector_advances _).1).symm
        · exact (hread (decodeMatrix_advances _).1).symm
        · exact (hread (decodeScalar_advances _).1).symm
        · simp
        · simp

end

/-! ## A vector without a sample -/

/-- The scalars of bodies without numbers. -/
abbrev noScalars : Scalars where
  parseFloat _ := none
  milliseconds _ := none
  unmarshalHistogram _ := none

/-- `{"status":"success","data":{"resultType":"vector","result":[{"metric":{}}]}}` -/
def bareVector : Json :=
  .obj [("status", .str "success"),
    ("data", .obj [("resultType", .str "vector"), ("result", .arr [.obj [("metric", .obj [])]])])]

/-- The parts of a float histogram that a conversion fills. -/
def layout (fh : FloatHistogram) :
    Int × List SampleValue × List (Int × Nat) × List SampleValue × SampleValue × SampleValue :=
  (fh.schema, fh.customValues, fh.positiveSpans, fh.positiveBuckets, fh.count, fh.sum)

/-- The two conversions of a histogram that is not pinned agree if and only if there is no first lower
bound to be listed. -/
theorem sampleHistogram_paths_iff (sh : SampleHistogram) (hpin : sh.pinned = none) :
    layout (sampleHistogramToFloatHistogram sh) =
        layout (Promclient.sampleHistogramToFloatHistogram sh) ↔
      ∀ first ∈ sh.buckets.head?, Promclient.isNegInf first.lower = true := by
  rw [Promclient.sampleHistogramToFloatHistogram, hpin, Option.getD_none]
  unfold sampleHistogramToFloatHistogram Promclient.reconstructFloatHistogram
  cases hbuckets : sh.buckets with
  | nil => simp [layout, customBucketsSchema, Promclient.customBucketsSchema]
  | cons first rest =>
    simp only [List.head?_cons, Option.mem_def, Option.some.injEq, forall_eq']
    cases hlower : Promclient.isNegInf first.lower with
    | true =>
      simp [layout, customBucketsSchema, Promclient.customBucketsSchema, customBounds, isPosInf,
        Promclient.isPosInf]
    | false => simp [layout]

/-- One bucket, from one bound to another. -/
def oneBucket (lower upper : SampleValue) : SampleHistogram :=
  ⟨⟨0x3ff0000000000000#64⟩, .zero, [⟨0, lower, upper, ⟨0x3ff0000000000000#64⟩⟩], none⟩

/-- From `0` to `1`. -/
theorem sampleHistogram_paths_zero :
    layout (sampleHistogramToFloatHistogram (oneBucket .zero ⟨0x3ff0000000000000#64⟩)) ≠
      layout (Promclient.sampleHistogramToFloatHistogram
        (oneBucket .zero ⟨0x3ff0000000000000#64⟩)) := by
  decide

/-- From `-Inf` to `0`. -/
theorem sampleHistogram_paths_open :
    layout (sampleHistogramToFloatHistogram (oneBucket ⟨0xfff0000000000000#64⟩ .zero)) =
      layout (Promclient.sampleHistogramToFloatHistogram
        (oneBucket ⟨0xfff0000000000000#64⟩ .zero)) :=
  (sampleHistogram_paths_iff (oneBucket ⟨0xfff0000000000000#64⟩ .zero) rfl).mpr (by
    rintro first ⟨⟩
    rfl)

end Promapi
end Proxeus
