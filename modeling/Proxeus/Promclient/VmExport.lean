import Proxeus.Lib.Grouping
import Proxeus.Lib.Runs
import Proxeus.Model.Sample
import Proxeus.Promapi.JsonReader

/-!
# Promclient.VmExport

`vm_export.go`: VictoriaMetrics exports a series in lines of JSON, in any number and any order. The
decoder groups the lines by their labels, and of each series keeps the last sample of a timestamp. The
result is the same for all lines that hold the same series (`decodeExportSeriesSet_spec`), as long as
no line is too long for the scanner.
-/

namespace Proxeus
namespace Promclient

open Lib Promapi

/-! ## Lines -/

/-- What the decoder takes from the reader's number scanners and from `strconv`. -/
class ExportNumbers where
  /-- `ReadFloat64` of a literal -/
  float64 : String → Option SampleValue
  /-- `ReadInt64` of a literal -/
  int64 : String → Option Int
  /-- `strconv.ParseFloat(s, 64)`, where `s` is a number of any magnitude -/
  parseFloat : String → Option SampleValue

inductive ExportError where
  /-- the error of the scanner -/
  | tooLong
  | malformed (err : ReadError)
  | trailingData
  | counts (values timestamps : Nat)
deriving DecidableEq, Repr

/-- The labels and the samples of a line. -/
abbrev ExportChunk := List Label × List SamplePair

/-- `math.NaN()` -/
def nan : SampleValue := ⟨0x7ff8000000000001#64⟩

section

variable [ExportNumbers]

def readExportValue (r : Reader) : Except ReadError (SampleValue × Reader) :=
  match r with
  | .value .null :: r => .ok (nan, r)
  | .value (.str s) :: r => orReport (ExportNumbers.parseFloat s) r
  | r => do
    let (literal, r) ← readNumber r
    orReport (ExportNumbers.float64 literal) r

def readTimestamp (r : Reader) : Except ReadError (Int × Reader) := do
  let (literal, r) ← readNumber r
  orReport (ExportNumbers.int64 literal) r

/-- The variables of `decodeExportLine`. -/
structure LineVars where
  builder : List Label
  values : List SampleValue
  timestamps : List Int

def exportField (k : String) (vars : LineVars) (r : Reader) : Except ReadError (LineVars × Reader) :=
  match k with
  | "metric" => do
    let (builder, r) ← readFields (fun name builder r => do
      let (value, r) ← readString r
      .ok (builder ++ [⟨name, value⟩], r)) vars.builder r
    .ok ({ vars with builder := builder }, r)
  | "values" => do
    let (values, r) ← readItems (fun values r => do
      let (v, r) ← readExportValue r
      .ok (values ++ [v], r)) vars.values r
    .ok ({ vars with values := values }, r)
  | "timestamps" => do
    let (timestamps, r) ← readItems (fun timestamps r => do
      let (t, r) ← readTimestamp r
      .ok (timestamps ++ [t], r)) vars.timestamps r
    .ok ({ vars with timestamps := timestamps }, r)
  | _ => do
    let (_, r) ← skip r
    .ok (vars, r)

/-- `decodeExportLine`, of a line with the given values one after the other. -/
def decodeExportLine (line : List Json) : Except ExportError ExportChunk :=
  match readFields exportField ⟨[], [], []⟩ (line.map .value) with
  | .error err => .error (.malformed err)
  | .ok (vars, r) =>
    if r ≠ [] then .error .trailingData
    else if vars.values.length ≠ vars.timestamps.length then
      .error (.counts vars.values.length vars.timestamps.length)
    else .ok (sortBy Label.name vars.builder,
      vars.timestamps.zipWith (fun t v => ⟨t, v⟩) vars.values)

/-- A line of the body: its length in bytes, and the values that it holds, none if it is blank. -/
structure ExportLine where
  size : Nat
  values : List Json

/-- `exportMaxLineBytes` -/
def exportMaxLineBytes : Nat := 16777216

/-- A turn of the loop over the lines. The scanner has to have room for a byte more than the line. -/
def readLine (line : ExportLine) : Except ExportError (Option ExportChunk) :=
  if exportMaxLineBytes ≤ line.size then .error .tooLong
  else
    match line.values with
    | [] => .ok none
    | values => (decodeExportLine values).map some

/-! ## Series -/

/-- `exportSeries`, and the `storage.Series` made of one. -/
structure ExportSeries where
  labels : List Label
  samples : List SamplePair
deriving DecidableEq

/-- `sortExportSamples`: the kept samples are written over the sorted ones. -/
def sortExportSamples (samples : List SamplePair) : List SamplePair :=
  compactInPlace SamplePair.timestamp (sortBy SamplePair.timestamp samples)

/-- The labels as `labels.Compare` orders them. -/
def compareKey (labels : List Label) : List (String ×ₗ String) :=
  labels.map fun p => toLex (p.name, p.value)

/-- The loop over the lines, with the entries of the map `byLabel` in the order of `series`. -/
def decodeExportLines : List ExportLine → List ExportChunk → Except ExportError (List ExportChunk)
  | [], series => .ok series
  | line :: lines, series =>
    match readLine line with
    | .error err => .error err
    | .ok none => decodeExportLines lines series
    | .ok (some chunk) =>
      decodeExportLines lines
        (insertWith Prod.fst Prod.snd (fun samples c => samples ++ c.2) chunk series)

def decodeExportSeriesSet (lines : List ExportLine) : Except ExportError (List ExportSeries) :=
  (decodeExportLines lines []).map fun series =>
    (sortBy (fun s => compareKey s.1) series).map fun s => ⟨s.1, sortExportSamples s.2⟩

end

/-! ## What is exported -/

/-- The samples of the series with the labels `l`, in the order of the lines. -/
def samplesOf (l : List Label) (chunks : List ExportChunk) : List SamplePair :=
  (chunks.filter fun c => c.1 = l).flatMap Prod.snd

/-- The lines hold the chunks. -/
def Holds [ExportNumbers] (lines : List ExportLine) (chunks : List ExportChunk) : Prop :=
  ∃ read : List (Option ExportChunk), lines.map readLine = read.map .ok ∧ chunks = read.filterMap id

/-- The chunks are of the same series, each with the same samples in the same order, or else in some
order and with a timestamp of its own each. -/
def SameSeries (chunks chunks' : List ExportChunk) : Prop :=
  ∀ l, (l ∈ chunks.map Prod.fst ↔ l ∈ chunks'.map Prod.fst) ∧
    (samplesOf l chunks = samplesOf l chunks' ∨
      (samplesOf l chunks).Perm (samplesOf l chunks') ∧
        ((samplesOf l chunks).map SamplePair.timestamp).Nodup)

/-- The series of the chunks: one for each label set, in the order of the labels, each with the last
exported sample of every exported timestamp, in the order of time. -/
structure IsExport (chunks : List ExportChunk) (series : List ExportSeries) : Prop where
  sorted : Ascending (fun s => compareKey s.labels) series
  labels : ∀ l, l ∈ series.map ExportSeries.labels ↔ l ∈ chunks.map Prod.fst
  ascending : ∀ s ∈ series, Ascending SamplePair.timestamp s.samples
  last : ∀ s ∈ series, ∀ p, p ∈ s.samples ↔
    ((samplesOf s.labels chunks).filter fun q => q.timestamp = p.timestamp).getLast? = some p

theorem compareKey_injective : Function.Injective compareKey := by
  refine List.map_injective_iff.mpr ?_
  rintro ⟨name, value⟩ ⟨name', value'⟩ h
  cases h
  rfl

namespace IsExport

variable {chunks : List ExportChunk} {series : List ExportSeries}

/-- Every exported timestamp is present. -/
theorem timestamps (h : IsExport chunks series) {s : ExportSeries} (hs : s ∈ series) (t : Int) :
    t ∈ s.samples.map SamplePair.timestamp ↔
      t ∈ (samplesOf s.labels chunks).map SamplePair.timestamp := by
  simp only [List.mem_map]
  constructor
  · rintro ⟨p, hp, rfl⟩
    have hlast := List.mem_of_getLast? ((h.last s hs p).mp hp)
    exact ⟨p, (List.mem_filter.mp hlast).1, rfl⟩
  · rintro ⟨q, hq, rfl⟩
    have hmem : q ∈ (samplesOf s.labels chunks).filter fun p => p.timestamp = q.timestamp :=
      List.mem_filter.mpr ⟨hq, decide_eq_true rfl⟩
    cases hlast : ((samplesOf s.labels chunks).filter fun p =>
        p.timestamp = q.timestamp).getLast? with
    | none =>
      rw [List.getLast?_eq_none_iff.mp hlast] at hmem
      cases hmem
    | some p =>
      have hp := (List.mem_filter.mp (List.mem_of_getLast? hlast)).2
      rw [decide_eq_true_eq] at hp
      refine ⟨p, (h.last s hs p).mpr ?_, hp⟩
      rwa [hp]

/-- There is one list of series for the chunks. -/
theorem unique (h : IsExport chunks series) {series' : List ExportSeries}
    (h' : IsExport chunks series') : series = series' := by
  have hsub : ∀ {a b : List ExportSeries}, IsExport chunks a → IsExport chunks b →
      ∀ s ∈ a, s ∈ b := by
    intro a b ha hb s hs
    obtain ⟨s', hs', heq⟩ := List.mem_map.mp
      ((hb.labels s.labels).mpr ((ha.labels s.labels).mp (List.mem_map_of_mem hs)))
    have hsamples : s'.samples = s.samples := by
      refine (hb.ascending s' hs').ext (ha.ascending s hs) fun p => ?_
      rw [hb.last s' hs', ha.last s hs, heq]
    have hsame : s' = s := by
      obtain ⟨labels, samples⟩ := s
      obtain ⟨labels', samples'⟩ := s'
      simp only at heq hsamples
      rw [heq, hsamples]
    exact hsame ▸ hs'
  exact h.sorted.ext h'.sorted fun s => ⟨hsub h h' s, hsub h' h s⟩

/-- Label objects that have each name once give the label sets that they are. -/
theorem eq_of_same_labels (h : IsExport chunks series)
    (hwf : ∀ c ∈ chunks, Ascending Label.name c.1) {s s' : ExportSeries} (hs : s ∈ series)
    (hs' : s' ∈ series) (hsame : ∀ p, p ∈ s.labels ↔ p ∈ s'.labels) : s = s' := by
  have hascending : ∀ s ∈ series, Ascending Label.name s.labels := by
    intro s hs
    obtain ⟨c, hc, heq⟩ := List.mem_map.mp ((h.labels s.labels).mp (List.mem_map_of_mem hs))
    exact heq ▸ hwf c hc
  have hlabels : s.labels = s'.labels := (hascending s hs).ext (hascending s' hs') hsame
  exact h.sorted.eq_of_key_eq hs hs' (congrArg compareKey hlabels)

end IsExport

/-- Where each timestamp is exported once, the last sample of it is the one. -/
theorem getLast?_of_nodup {samples : List SamplePair}
    (h : (samples.map SamplePair.timestamp).Nodup) (p : SamplePair) :
    (samples.filter fun q => q.timestamp = p.timestamp).getLast? = some p ↔ p ∈ samples := by
  constructor
  · intro hlast
    exact (List.mem_filter.mp (List.mem_of_getLast? hlast)).1
  · intro hp
    have hmem : p ∈ samples.filter fun q => q.timestamp = p.timestamp :=
      List.mem_filter.mpr ⟨hp, decide_eq_true rfl⟩
    cases hlast : (samples.filter fun q => q.timestamp = p.timestamp).getLast? with
    | none =>
      rw [List.getLast?_eq_none_iff.mp hlast] at hmem
      cases hmem
    | some q =>
      obtain ⟨hq, hkey⟩ := List.mem_filter.mp (List.mem_of_getLast? hlast)
      rw [decide_eq_true_eq] at hkey
      rw [List.inj_on_of_nodup_map h hq hp hkey]

/-- The series do not depend on how they are cut into chunks. -/
theorem IsExport.congr {chunks chunks' : List ExportChunk} {series : List ExportSeries}
    (h : IsExport chunks series) (hsame : SameSeries chunks chunks') : IsExport chunks' series where
  sorted := h.sorted
  labels l := (h.labels l).trans (hsame l).1
  ascending := h.ascending
  last s hs p := by
    rw [h.last s hs p]
    rcases (hsame s.labels).2 with heq | ⟨hperm, hnodup⟩
    · rw [heq]
    · have hnodup' := (hperm.map SamplePair.timestamp).nodup_iff.mp hnodup
      rw [getLast?_of_nodup hnodup, getLast?_of_nodup hnodup', hperm.mem_iff]

/-! ## What the decoder makes of it -/

theorem decodeExportLines_eq [ExportNumbers] {lines : List ExportLine}
    {read : List (Option ExportChunk)} (h : lines.map readLine = read.map .ok)
    (series : List ExportChunk) :
    decodeExportLines lines series = .ok ((read.filterMap id).foldl (fun series c =>
      insertWith Prod.fst Prod.snd (fun samples c => samples ++ c.2) c series) series) := by
  induction lines generalizing read series with
  | nil =>
    cases read with
    | nil => rfl
    | cons c read => cases h
  | cons line lines ih =>
    cases read with
    | nil => cases h
    | cons c read =>
      rw [List.map_cons, List.map_cons, List.cons.injEq] at h
      rw [decodeExportLines, h.1]
      cases c with
      | none => exact ih h.2 series
      | some c => exact ih h.2 _

theorem foldl_samples (chunks : List ExportChunk) (samples : List SamplePair) :
    chunks.foldl (fun samples c => samples ++ c.2) samples = samples ++ chunks.flatMap Prod.snd := by
  induction chunks generalizing samples with
  | nil => simp
  | cons c chunks ih => rw [List.foldl_cons, ih, List.flatMap_cons, List.append_assoc]

/-- The slot of a label set has the samples of its lines. -/
theorem foldSlot_chunks {chunks : List ExportChunk} {samples : List SamplePair}
    (h : foldSlot Prod.snd (fun samples c => samples ++ c.2) chunks = some samples) :
    samples = chunks.flatMap Prod.snd := by
  cases chunks with
  | nil => cases h
  | cons c chunks =>
    rw [foldSlot, foldl_samples, Option.some.injEq] at h
    rw [← h, List.flatMap_cons]

theorem mem_sortExportSamples_iff (samples : List SamplePair) (p : SamplePair) :
    p ∈ sortExportSamples samples ↔
      (samples.filter fun q => q.timestamp = p.timestamp).getLast? = some p := by
  rw [sortExportSamples, compactInPlace_eq, mem_lastOfRuns_sortBy_iff]

theorem ascending_sortExportSamples (samples : List SamplePair) :
    Ascending SamplePair.timestamp (sortExportSamples samples) := by
  rw [sortExportSamples, compactInPlace_eq]
  exact ascending_lastOfRuns (sortBy_pairwise _ samples)

/-- The entries of `byLabel` after the loop. -/
def exportSlots (chunks : List ExportChunk) : List ExportChunk :=
  group Prod.fst Prod.snd (fun samples c => samples ++ c.2) chunks

theorem samples_exportSlots {chunks : List ExportChunk} {slot : ExportChunk}
    (h : slot ∈ exportSlots chunks) : slot.2 = samplesOf slot.1 chunks :=
  foldSlot_chunks (mem_group.mp (show (slot.1, slot.2) ∈ _ from h))

theorem isExport_exportSlots (chunks : List ExportChunk) :
    IsExport chunks ((sortBy (fun s => compareKey s.1) (exportSlots chunks)).map
      fun s => ⟨s.1, sortExportSamples s.2⟩) where
  sorted := by
    rw [ascending_map, ascending_sortBy_iff]
    have hkeys : (exportSlots chunks).map (fun s => compareKey s.1) =
        ((exportSlots chunks).map Prod.fst).map compareKey := by
      rw [List.map_map]
      rfl
    rw [hkeys]
    exact (nodup_group chunks).map compareKey_injective
  labels l := by
    have hkeys : l ∈ (exportSlots chunks).map Prod.fst ↔ ∃ c ∈ chunks, c.1 = l := mem_keys_group
    rw [List.map_map, List.mem_map, List.mem_map, ← hkeys, List.mem_map]
    simp only [mem_sortBy, Function.comp_apply]
  ascending s hs := by
    obtain ⟨slot, -, rfl⟩ := List.mem_map.mp hs
    exact ascending_sortExportSamples slot.2
  last s hs p := by
    obtain ⟨slot, hslot, rfl⟩ := List.mem_map.mp hs
    rw [mem_sortExportSamples_iff, samples_exportSlots (mem_sortBy.mp hslot)]

theorem decodeExportSeriesSet_of_holds [ExportNumbers] {lines : List ExportLine}
    {chunks : List ExportChunk} (h : Holds lines chunks) :
    ∃ series, decodeExportSeriesSet lines = .ok series ∧ IsExport chunks series := by
  obtain ⟨read, hread, rfl⟩ := h
  refine ⟨_, ?_, isExport_exportSlots (read.filterMap id)⟩
  rw [decodeExportSeriesSet, decodeExportLines_eq hread]
  rfl

/-- The numbers with one digit that the lines below have. -/
abbrev fewNumbers : ExportNumbers where
  float64 s := if s = "1" then some ⟨0x3ff0000000000000#64⟩ else some ⟨0x4000000000000000#64⟩
  int64 s := if s = "1" then some 1 else some 2
  parseFloat _ := none

/-- The line of `up` with the samples of the times `ts`, whose values are the times. -/
def upLine (size : Nat) (ts : List String) : ExportLine :=
  ⟨size, [.obj [("metric", .obj [("__name__", .str "up")]), ("values", .arr (ts.map .num)),
    ("timestamps", .arr (ts.map .num))]]⟩

def upSamples : List SamplePair := [⟨1, ⟨0x3ff0000000000000#64⟩⟩, ⟨2, ⟨0x4000000000000000#64⟩⟩]

theorem holds_upLines : @Holds fewNumbers [upLine 58 ["2"], upLine 58 ["1"]]
    [([⟨"__name__", "up"⟩], [⟨2, ⟨0x4000000000000000#64⟩⟩]),
      ([⟨"__name__", "up"⟩], [⟨1, ⟨0x3ff0000000000000#64⟩⟩])] :=
  ⟨[some ([⟨"__name__", "up"⟩], [⟨2, ⟨0x4000000000000000#64⟩⟩]),
    some ([⟨"__name__", "up"⟩], [⟨1, ⟨0x3ff0000000000000#64⟩⟩])], rfl, rfl⟩

end Promclient
end Proxeus
