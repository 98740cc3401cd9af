import Proxeus.Expfmt.EncodeSpec
import Proxeus.Federate.Reference

/-!
# Federate.ReferenceSpec

When the handler writes what the reference does. Both bodies are blocks, one for each sample that is
written (`federateBody_eq`, `referenceFederate_eq`), and blocks can be read back from a text: so the
bodies are the same exactly if the blocks are.
-/

namespace Proxeus

namespace LabelSet

theorem get_eq_iff (ls : LabelSet) {name value : String} (hv : value ≠ "") :
    ls.get name = value ↔ ⟨name, value⟩ ∈ ls.pairs := by
  rw [get, lookup]
  cases hfind : ls.pairs.find? fun p => p.name = name with
  | none =>
    rw [List.find?_eq_none] at hfind
    refine iff_of_false (fun h => hv h.symm) fun h => ?_
    exact hfind _ h (by simp)
  | some p =>
    have hname : p.name = name := by simpa using List.find?_some hfind
    have hmem := List.mem_of_find?_eq_some hfind
    constructor
    · rintro rfl
      rw [← hname]
      exact hmem
    · intro h
      rw [ls.ascending.eq_of_key_eq hmem h hname]
      rfl

/-- A label with a value, or none. -/
theorem get_ne_empty_iff (ls : LabelSet) {name : String} :
    ls.get name ≠ "" ↔ ∃ l ∈ ls.pairs, l.name = name ∧ l.value ≠ "" := by
  constructor
  · intro h
    exact ⟨⟨name, ls.get name⟩, (ls.get_eq_iff h).mp rfl, rfl, h⟩
  · rintro ⟨l, hl, rfl, hv⟩
    rw [(ls.get_eq_iff hv).mpr hl]
    exact hv

end LabelSet

namespace Federate

open Lib Expfmt Exposition

section

variable [Exposition] (scheme : EscapingScheme) (ext : LabelSet)

/-! ## Blocks -/

/-- The blocks of samples, of which `key` starts a family where it changes. -/
def blocks (key name : VecSample → String) (label : VecSample → List Label) :
    Option String → List VecSample → List (Block Char)
  | _, [] => []
  | last, s :: vec =>
    sampleBlock (last ≠ some (key s)) (name s) (label s) s.f s.t ::
      blocks key name label (some (key s)) vec

/-- The metric name that the handler writes. -/
def fastName (s : VecSample) : String := escapeName s.name scheme

def fastLabels (s : VecSample) : List Label := encodedLabels scheme s.metric (externalLabels ext)

theorem foldl_writeFloatSample (vec : List VecSample) (e : Encoder) (he : e.scheme = scheme) :
    (vec.foldl (fun enc s => enc.writeFloatSample s.name s.metric (externalLabels ext) s.f s.t)
      e).w =
      e.w ++ (blocks (fastName scheme) (fastName scheme) (fastLabels scheme ext)
        (if e.started then some e.lastName else none) vec).flatMap (Block.text '\n') := by
  induction vec generalizing e with
  | nil => rw [List.foldl_nil, blocks, List.flatMap_nil, List.append_nil]
  | cons s vec ih =>
    have htypes : (!e.started || decide (escapeName s.name scheme ≠ e.lastName)) =
        decide ((if e.started then some e.lastName else none) ≠ some (fastName scheme s)) := by
      cases e.started <;> simp [fastName, eq_comm]
    rw [List.foldl_cons, Encoder.writeFloatSample_spec, ih ⟨_, e.scheme, _, true⟩ he, blocks,
      List.flatMap_cons, he, htypes, List.append_assoc]
    rfl

section

variable (delta maxt : Int) (sortFunc : List VecSample → List VecSample)
  (merged : List StoredSeries)

theorem federateBody_eq :
    federateBody delta maxt sortFunc scheme ext merged =
      (blocks (fastName scheme) (fastName scheme) (fastLabels scheme ext) none
        (sortFunc (merged.filterMap (floatSampleOf delta maxt)))).flatMap (Block.text '\n') :=
  foldl_writeFloatSample scheme ext _ _ rfl

end

/-! ## The reference -/

/-- The labels of a series without its name. -/
def ownLabels (s : VecSample) : List Label :=
  s.metric.pairs.filter fun l => !(l.name = metricNameLabel || l.value = "")

/-- The external labels that the reference adds. That of the name is not among the used ones. -/
def addedLabels (s : VecSample) : List Label :=
  (externalLabels ext).filter fun el => el.name = metricNameLabel || s.metric.get el.name = ""

def referenceLabels (s : VecSample) : List Label :=
  (ownLabels s ++ addedLabels ext s).map (escapeLabel scheme)

def referenceName (s : VecSample) : String := escapeFamilyName s.name scheme

/-- What the loop over the labels leaves of the family: the name starts another one. -/
def Families.named (fams : Families) (name : String) : Families :=
  if name = fams.lastMetricName then fams
  else ⟨name, some ⟨name, none, []⟩, fams.encode scheme⟩

theorem validateLabel_labels (st : Validation) (l : Label) :
    (validateLabel scheme ext st l).label =
        st.label ++ [l].filter (fun l => !(l.name = metricNameLabel || l.value = "")) ∧
      ∀ name ∈ (externalLabels ext).map Label.name,
        (name ∈ (validateLabel scheme ext st l).globalUsed ↔ name ∈ st.globalUsed ∨
          name ≠ metricNameLabel ∧ l.name = name ∧ l.value ≠ "") := by
  rw [validateLabel]
  by_cases hv : l.value = ""
  · rw [if_pos hv]
    simp [hv]
  · by_cases hn : l.name = metricNameLabel
    · have hused : ∀ name, name ∈ st.globalUsed ↔ name ∈ st.globalUsed ∨
          name ≠ metricNameLabel ∧ l.name = name ∧ l.value ≠ "" := by
        refine fun name => ⟨.inl, ?_⟩
        rintro (h | ⟨hne, rfl, -⟩)
        · exact h
        · exact absurd hn hne
      rw [if_neg hv, if_pos hn]
      split <;> exact ⟨by simp [hn], fun name _ => hused name⟩
    · rw [if_neg hv, if_neg hn]
      refine ⟨by simp [hn, hv], fun name hname => ?_⟩
      by_cases hl : l.name ∈ (externalLabels ext).map Label.name
      · rw [if_pos hl, List.mem_cons, or_comm]
        refine or_congr_right ⟨?_, fun h => h.2.1.symm⟩
        rintro rfl
        exact ⟨hn, rfl, hv⟩
      · rw [if_neg hl]
        refine ⟨.inl, ?_⟩
        rintro (h | ⟨-, rfl, -⟩)
        · exact h
        · exact absurd hname hl

theorem foldl_validateLabel_labels (pairs : List Label) (st : Validation) :
    (pairs.foldl (validateLabel scheme ext) st).label =
        st.label ++ pairs.filter (fun l => !(l.name = metricNameLabel || l.value = "")) ∧
      ∀ name ∈ (externalLabels ext).map Label.name,
        (name ∈ (pairs.foldl (validateLabel scheme ext) st).globalUsed ↔ name ∈ st.globalUsed ∨
          name ≠ metricNameLabel ∧ ∃ l ∈ pairs, l.name = name ∧ l.value ≠ "") := by
  induction pairs generalizing st with
  | nil => simp
  | cons l pairs ih =>
    rw [List.foldl_cons]
    obtain ⟨hlabel, hused⟩ := ih (validateLabel scheme ext st l)
    have hstep := validateLabel_labels scheme ext st l
    refine ⟨?_, fun name hname => ?_⟩
    · rw [hlabel, hstep.1, List.append_assoc, ← List.filter_append, List.singleton_append]
    · rw [hused name hname, hstep.2 name hname, List.exists_mem_cons_iff, or_assoc, ← and_or_left]

theorem foldl_validateLabel_unnamed {pairs : List Label}
    (h : ∀ l ∈ pairs, l.name = metricNameLabel → l.value = "") (st : Validation) :
    (pairs.foldl (validateLabel scheme ext) st).fams = st.fams ∧
      (pairs.foldl (validateLabel scheme ext) st).nameSeen = st.nameSeen := by
  induction pairs generalizing st with
  | nil => exact ⟨rfl, rfl⟩
  | cons l pairs ih =>
    rw [List.forall_mem_cons] at h
    obtain ⟨hfams, hseen⟩ := ih h.2 (validateLabel scheme ext st l)
    have hkeep : (validateLabel scheme ext st l).fams = st.fams ∧
        (validateLabel scheme ext st l).nameSeen = st.nameSeen := by
      rw [validateLabel]
      split
      · exact ⟨rfl, rfl⟩
      · rename_i hv
        rw [if_neg fun hn => hv (h.1 hn)]
        exact ⟨rfl, rfl⟩
    rw [List.foldl_cons]
    exact ⟨hfams.trans hkeep.1, hseen.trans hkeep.2⟩

theorem foldl_validateLabel_named {pairs : List Label} (hpairs : Ascending Label.name pairs)
    {name : String} (hname : name ≠ "") (hmem : ⟨metricNameLabel, name⟩ ∈ pairs)
    (st : Validation) :
    (pairs.foldl (validateLabel scheme ext) st).fams = st.fams.named scheme name ∧
      (pairs.foldl (validateLabel scheme ext) st).nameSeen = true := by
  induction pairs generalizing st with
  | nil => cases hmem
  | cons l pairs ih =>
    rw [ascending_cons] at hpairs
    rw [List.foldl_cons]
    rcases List.mem_cons.mp hmem with rfl | hmem
    · have hrest : ∀ l ∈ pairs, l.name = metricNameLabel → l.value = "" := fun l hl hn =>
        absurd hn (ne_of_gt (hpairs.1 l hl))
      obtain ⟨hfams, hseen⟩ := foldl_validateLabel_unnamed scheme ext hrest
        (validateLabel scheme ext st ⟨metricNameLabel, name⟩)
      rw [hfams, hseen, validateLabel, if_neg hname, if_pos rfl, Families.named]
      split <;> exact ⟨rfl, rfl⟩
    · obtain ⟨hfams, hseen⟩ := ih hpairs.2 hmem (validateLabel scheme ext st l)
      have hl : l.name ≠ metricNameLabel := ne_of_lt (hpairs.1 _ hmem)
      refine ⟨hfams.trans ?_, hseen⟩
      rw [validateLabel, if_neg hl]
      split <;> rfl

/-! ## Families -/

/-- A family of samples with a time. -/
def familyOf (name : String) (ms : List (List Label × SampleValue × Int)) : MetricFamily :=
  ⟨name, none, ms.map fun m => ⟨m.1, m.2.1, some m.2.2⟩⟩

omit [Exposition] in
theorem familyOf_concat (name : String) (ms : List (List Label × SampleValue × Int))
    (m : List Label × SampleValue × Int) :
    familyOf name (ms ++ [m]) =
      { familyOf name ms with
        metric := (familyOf name ms).metric ++ [⟨m.1, m.2.1, some m.2.2⟩] } := by
  simp only [familyOf, List.map_append, List.map_cons, List.map_nil]

namespace Families

/-- There is a family, of a name, once there has been a sample. -/
def Ready (fams : Families) : Prop :=
  (∃ buf, fams = ⟨"", none, buf⟩) ∨
    ∃ name ms buf, name ≠ "" ∧ fams = ⟨name, some (familyOf name ms), buf⟩

def last (fams : Families) : Option String := fams.protMetricFam.map MetricFamily.name

end Families

theorem escapeFamilyName_ne_empty {name : String} (h : name ≠ "") :
    escapeFamilyName name scheme ≠ "" := by
  by_cases hn : isValidLegacyMetricName name = true
  · rw [escapeFamilyName_legacy name scheme hn]
    exact h
  · rw [escapeFamilyName_other name scheme (Bool.not_eq_true _ ▸ hn)]
    exact escapeName_ne_empty name scheme h

theorem encode_family {name : String} (h : name ≠ "") (buf : Text)
    (ms : List (List Label × SampleValue × Int)) :
    Families.encode scheme ⟨name, some (familyOf name ms), buf⟩ =
      buf ++ (typeLine (escapeFamilyName name scheme) ++ ['\n']) ++
        ms.flatMap fun m => sampleLine (escapeFamilyName name scheme)
          (m.1.map (escapeLabel scheme)) m.2.1 m.2.2 ++ ['\n'] := by
  have hescape : escapeMetricFamily scheme (familyOf name ms) =
      familyOf (escapeFamilyName name scheme)
        (ms.map fun m => (m.1.map (escapeLabel scheme), m.2.1, m.2.2)) := by
    simp only [escapeMetricFamily, familyOf, List.map_map]
    rfl
  have hencode : Families.encode scheme ⟨name, some (familyOf name ms), buf⟩ =
      metricFamilyToText buf (escapeMetricFamily scheme (familyOf name ms)) := rfl
  rw [hencode, hescape, familyOf, metricFamilyToText_eq (escapeFamilyName_ne_empty scheme h),
    List.flatMap_map]

omit [Exposition] in
/-- The labels of a sample, with the external ones that are added. -/
theorem foldl_externalLabels (s : VecSample) (st : Validation)
    (h : st.label = ownLabels s ∧ ∀ name ∈ (externalLabels ext).map Label.name,
      (name ∈ st.globalUsed ↔ name ≠ metricNameLabel ∧ s.metric.get name ≠ "")) :
    (externalLabels ext).foldl
        (fun label el => if el.name ∈ st.globalUsed then label else label ++ [el]) st.label =
      ownLabels s ++ addedLabels ext s := by
  have hadd : ∀ (els label : List Label), (∀ el ∈ els, el ∈ externalLabels ext) →
      els.foldl (fun label el => if el.name ∈ st.globalUsed then label else label ++ [el]) label =
        label ++ els.filter fun el => el.name = metricNameLabel || s.metric.get el.name = "" := by
    intro els
    induction els with
    | nil => exact fun label _ => (List.append_nil label).symm
    | cons el els ih =>
      intro label hels
      rw [List.forall_mem_cons] at hels
      rw [List.foldl_cons, ih _ hels.2]
      have hused := h.2 el.name (List.mem_map_of_mem hels.1)
      by_cases hin : el.name ∈ st.globalUsed
      · have hnot := hused.mp hin
        rw [if_pos hin, List.filter_cons_of_neg (by simp [hnot.1, hnot.2])]
      · have hnot := fun hand => hin (hused.mpr hand)
        rw [if_neg hin, List.filter_cons_of_pos, List.append_assoc, List.singleton_append]
        by_contra hneg
        simp only [Bool.or_eq_true, decide_eq_true_eq, not_or] at hneg
        exact hnot hneg
  rw [hadd _ _ fun el hel => hel, h.1, addedLabels]

theorem collectSample_unnamed {s : VecSample} (h : s.h.isSome = true ∨ s.name = "")
    (fams : Families) : collectSample scheme ext fams s = fams := by
  rw [collectSample]
  split
  · rfl
  · rename_i hh
    have hname : s.name = "" := h.resolve_left hh
    have hlabels : ∀ l ∈ s.metric.pairs, l.name = metricNameLabel → l.value = "" := by
      intro l hl hn
      by_contra hv
      exact s.metric.get_ne_empty_iff.mpr ⟨l, hl, hn, hv⟩ hname
    obtain ⟨hfams, hseen⟩ := foldl_validateLabel_unnamed scheme ext hlabels ⟨fams, false, [], []⟩
    simp only [hseen, Bool.not_false, if_true, hfams]

theorem collectSample_named {s : VecSample} (hh : s.h.isSome = false) (hname : s.name ≠ "")
    {fams : Families} (hfams : fams.Ready) :
    (collectSample scheme ext fams s).Ready ∧
      (collectSample scheme ext fams s).last = some s.name ∧
      (collectSample scheme ext fams s).encode scheme = fams.encode scheme ++
        (sampleBlock (fams.last ≠ some s.name) (referenceName scheme s)
          (referenceLabels scheme ext s) s.f s.t).text '\n' := by
  have hmem : ⟨metricNameLabel, s.name⟩ ∈ s.metric.pairs := (s.metric.get_eq_iff hname).mp rfl
  obtain ⟨hfams', hseen⟩ := foldl_validateLabel_named scheme ext s.metric.ascending hname hmem
    ⟨fams, false, [], []⟩
  obtain ⟨hlabel, hused⟩ := foldl_validateLabel_labels scheme ext s.metric.pairs
    ⟨fams, false, [], []⟩
  have hadded := foldl_externalLabels ext s _ ⟨hlabel, fun name hin => (hused name hin).trans (by
    rw [s.metric.get_ne_empty_iff]
    simp)⟩
  have hcollect : collectSample scheme ext fams s =
      { fams.named scheme s.name with
        protMetricFam := (fams.named scheme s.name).protMetricFam.map fun fam =>
          { fam with
            metric := fam.metric ++ [⟨ownLabels s ++ addedLabels ext s, s.f, some s.t⟩] } } := by
    rw [collectSample, if_neg (Bool.eq_false_iff.mp hh)]
    simp only [hseen, hadded, hfams', Bool.not_true, Bool.false_eq_true, if_false]
  let m := (ownLabels s ++ addedLabels ext s, s.f, s.t)
  by_cases hlast : s.name = fams.lastMetricName
  · -- another sample of the family
    obtain ⟨buf, rfl⟩ | ⟨name, ms, buf, -, rfl⟩ := hfams
    · exact absurd hlast hname
    · have hcollect' : collectSample scheme ext ⟨name, some (familyOf name ms), buf⟩ s =
          ⟨s.name, some (familyOf s.name (ms ++ [m])), buf⟩ := by
        rw [hcollect, Families.named, if_pos hlast, hlast, familyOf_concat]
        rfl
      have hblock : decide (Families.last ⟨name, some (familyOf name ms), buf⟩ ≠ some s.name) =
          false := by
        simp [Families.last, familyOf, hlast]
      have hname' : name = s.name := hlast.symm
      rw [hcollect', hblock, hname', encode_family scheme hname, encode_family scheme hname,
        List.flatMap_append, List.flatMap_singleton, ← List.append_assoc]
      exact ⟨.inr ⟨_, _, _, hname, rfl⟩, rfl, rfl⟩
  · -- the first one of its family
    have hcollect' : collectSample scheme ext fams s =
        ⟨s.name, some (familyOf s.name [m]), fams.encode scheme⟩ := by
      rw [hcollect, Families.named, if_neg hlast]
      rfl
    have hblock : decide (fams.last ≠ some s.name) = true := by
      obtain ⟨buf, rfl⟩ | ⟨name, ms, buf, -, rfl⟩ := hfams
      · rfl
      · exact decide_eq_true fun h => hlast (Option.some.inj h).symm
    rw [hcollect', hblock, encode_family scheme hname, List.flatMap_singleton, List.append_assoc,
      ← List.append_assoc (typeLine _ ++ _)]
    exact ⟨.inr ⟨_, _, _, hname, rfl⟩, rfl, rfl⟩

/-- The samples that the reference writes. -/
def isWritten (s : VecSample) : Bool := s.h.isNone && s.name ≠ ""

theorem foldl_collectSample (vec : List VecSample) {fams : Families} (hfams : fams.Ready) :
    (vec.foldl (collectSample scheme ext) fams).encode scheme =
      fams.encode scheme ++ (blocks VecSample.name (referenceName scheme)
        (referenceLabels scheme ext) fams.last (vec.filter isWritten)).flatMap
          (Block.text '\n') := by
  induction vec generalizing fams with
  | nil => rw [List.foldl_nil, List.filter_nil, blocks, List.flatMap_nil, List.append_nil]
  | cons s vec ih =>
    rw [List.foldl_cons]
    by_cases hs : isWritten s = true
    · have hh : s.h.isSome = false := by simp_all [isWritten]
      have hname : s.name ≠ "" := by simp_all [isWritten]
      obtain ⟨hready, hlast, hencode⟩ := collectSample_named scheme ext hh hname hfams
      rw [ih hready, hencode, hlast, List.filter_cons_of_pos hs, blocks, List.flatMap_cons,
        List.append_assoc]
    · have hskip : s.h.isSome = true ∨ s.name = "" := by
        by_contra hneg
        rw [not_or, Bool.not_eq_true, Option.isSome_eq_false_iff] at hneg
        exact hs (by rw [isWritten, hneg.1, decide_eq_true hneg.2]; rfl)
      rw [collectSample_unnamed scheme ext hskip, ih hfams, List.filter_cons_of_neg hs]

section

variable (delta maxt : Int) (sortFunc : List VecSample → List VecSample)
  (merged : List StoredSeries)

theorem referenceFederate_eq :
    referenceFederate delta maxt sortFunc scheme ext merged =
      (blocks VecSample.name (referenceName scheme) (referenceLabels scheme ext) none
        ((sortFunc (merged.filterMap (sampleOf delta maxt))).filter isWritten)).flatMap
          (Block.text '\n') :=
  foldl_collectSample scheme ext _ (.inl ⟨[], rfl⟩)

end

/-! ## Lines -/

/-- The external labels that the handler adds. -/
def missingLabels (s : VecSample) : List Label :=
  (externalLabels ext).filter fun el => s.metric.get el.name = ""

/-- The names that are written for a sample. -/
def writtenNames (s : VecSample) : List String :=
  s.name :: (ownLabels s ++ missingLabels ext s).map Label.name

def fastLine (s : VecSample) : Text :=
  sampleLine (fastName scheme s) (fastLabels scheme ext s) s.f s.t

def referenceLine (s : VecSample) : Text :=
  sampleLine (referenceName scheme s) (referenceLabels scheme ext s) s.f s.t

theorem escapeName_eq_iff (name : String) :
    escapeName name scheme = escapeFamilyName name scheme ↔
      (isValidLegacyMetricName name = true → escapeName name scheme = name) := by
  by_cases hn : isValidLegacyMetricName name = true
  · rw [escapeFamilyName_legacy name scheme hn]
    simp [hn]
  · rw [escapeFamilyName_other name scheme (Bool.not_eq_true _ ▸ hn)]
    simp [hn]

omit [Exposition] in
theorem addedLabels_eq_iff {s : VecSample} (hname : s.name ≠ "") :
    addedLabels ext s = missingLabels ext s ↔
      metricNameLabel ∉ (externalLabels ext).map Label.name := by
  constructor
  · intro h hin
    obtain ⟨el, hel, hn⟩ := List.mem_map.mp hin
    have hadded : el ∈ addedLabels ext s := List.mem_filter.mpr ⟨hel, by simp [hn]⟩
    rw [h] at hadded
    have hget : s.metric.get el.name = "" := by simpa using (List.mem_filter.mp hadded).2
    rw [hn] at hget
    exact hname hget
  · intro h
    refine List.filter_congr fun el hel => ?_
    have hn : el.name ≠ metricNameLabel := fun hn => h (hn ▸ List.mem_map_of_mem hel)
    simp [hn]

omit [Exposition] in
theorem missingLabels_sublist (s : VecSample) :
    (missingLabels ext s).Sublist (addedLabels ext s) :=
  List.monotone_filter_right _ fun el h => by
    rw [Bool.or_eq_true]
    exact .inr h

/-- A label other than the name is escaped by its name. -/
theorem escapeLabel_of_ne {l : Label} (h : l.name ≠ metricNameLabel) :
    escapeLabel scheme l = ⟨escapeFamilyName l.name scheme, l.value⟩ := if_neg h

/-- The line is the same if no bare name is escaped and no external label is called as the name. -/
theorem fastLine_eq_iff {s : VecSample} (hname : s.name ≠ "") :
    fastLine scheme ext s = referenceLine scheme ext s ↔
      (∀ name ∈ writtenNames ext s, isValidLegacyMetricName name = true →
        escapeName name scheme = name) ∧
        metricNameLabel ∉ (externalLabels ext).map Label.name := by
  have hfast : fastLabels scheme ext s =
      (ownLabels s ++ missingLabels ext s).map fun l => ⟨escapeName l.name scheme, l.value⟩ := rfl
  have hother : metricNameLabel ∉ (externalLabels ext).map Label.name →
      ∀ l ∈ ownLabels s ++ missingLabels ext s, l.name ≠ metricNameLabel := by
    intro hext l hl hn
    rcases List.mem_append.mp hl with hl | hl
    · simpa [hn] using (List.mem_filter.mp hl).2
    · exact hext (hn ▸ List.mem_map_of_mem (List.mem_filter.mp hl).1)
  constructor
  · intro h
    obtain ⟨hnames, hlabels⟩ := sampleLine_inj h
    have hlen := congrArg List.length hlabels
    rw [hfast, referenceLabels, List.length_map, List.length_map, List.length_append,
      List.length_append, Nat.add_left_cancel_iff] at hlen
    have hadded := (missingLabels_sublist ext s).eq_of_length hlen
    have hext := (addedLabels_eq_iff ext hname).mp hadded.symm
    refine ⟨fun name hin => (escapeName_eq_iff scheme name).mp ?_, hext⟩
    rcases List.mem_cons.mp hin with rfl | hin
    · exact hnames
    · obtain ⟨l, hl, rfl⟩ := List.mem_map.mp hin
      rw [hfast, referenceLabels, ← hadded, List.map_inj_left] at hlabels
      have hl' := hlabels l hl
      rw [escapeLabel_of_ne scheme (hother hext l hl), Label.mk.injEq] at hl'
      exact hl'.1
  · rintro ⟨hkept, hext⟩
    have hescape : ∀ name ∈ writtenNames ext s,
        escapeName name scheme = escapeFamilyName name scheme := fun name hin =>
      (escapeName_eq_iff scheme name).mpr (hkept name hin)
    have hlabels : fastLabels scheme ext s = referenceLabels scheme ext s := by
      rw [hfast, referenceLabels, (addedLabels_eq_iff ext hname).mpr hext]
      refine List.map_congr_left fun l hl => ?_
      rw [escapeLabel_of_ne scheme (hother hext l hl),
        hescape _ (List.mem_cons_of_mem _ (List.mem_map_of_mem hl))]
    rw [fastLine, referenceLine, hlabels, fastName, referenceName,
      hescape _ List.mem_cons_self]

/-! ## The same blocks -/

/-- Names that follow one another are escaped apart. -/
def EscapedApart (names : List String) : Prop :=
  names.IsChain fun name name' => escapeName name scheme = escapeName name' scheme → name = name'

theorem sampleBlock_eq_iff {s s' : VecSample} {types types' : Bool} :
    sampleBlock types (fastName scheme s) (fastLabels scheme ext s) s.f s.t =
        sampleBlock types' (referenceName scheme s') (referenceLabels scheme ext s') s'.f s'.t ↔
      types = types' ∧ fastLine scheme ext s = referenceLine scheme ext s' := by
  constructor
  · intro h
    rw [sampleBlock, sampleBlock, Block.mk.injEq] at h
    refine ⟨?_, h.2⟩
    cases types <;> cases types' <;> simp_all
  · rintro ⟨rfl, h⟩
    rw [sampleBlock, sampleBlock, Block.mk.injEq]
    exact ⟨by rw [(sampleLine_inj h).1], h⟩

theorem blocks_eq_iff {vec vec' : List VecSample}
    (h : List.Forall₂ (fun s s' => s.name = s'.name) vec vec') (last : Option String) :
    blocks (fastName scheme) (fastName scheme) (fastLabels scheme ext)
        (last.map fun name => escapeName name scheme) vec =
      blocks VecSample.name (referenceName scheme) (referenceLabels scheme ext) last vec' ↔
      List.Forall₂ (fun s s' => fastLine scheme ext s = referenceLine scheme ext s') vec vec' ∧
        EscapedApart scheme (last.toList ++ vec.map VecSample.name) := by
  induction h generalizing last with
  | nil =>
    refine iff_of_true rfl ⟨.nil, ?_⟩
    cases last <;> simp [EscapedApart]
  | @cons s s' vec vec' hname _ ih =>
    have htypes : (decide (last.map (fun name => escapeName name scheme) ≠
        some (fastName scheme s)) = decide (last ≠ some s'.name)) ↔
        ∀ name ∈ last, escapeName name scheme = escapeName s.name scheme → name = s.name := by
      cases last with
      | none => simp
      | some name =>
        simp only [Option.map_some, ne_eq, Option.some.injEq, fastName, ← hname, decide_eq_decide,
          Option.mem_some_iff, forall_eq', not_iff_not]
        exact ⟨fun h => h.mp, fun h => ⟨h, fun heq => heq ▸ rfl⟩⟩
    have hchain : EscapedApart scheme (last.toList ++ (s :: vec).map VecSample.name) ↔
        (∀ name ∈ last, escapeName name scheme = escapeName s.name scheme → name = s.name) ∧
          EscapedApart scheme ((some s.name).toList ++ vec.map VecSample.name) := by
      cases last with
      | none => simp [EscapedApart]
      | some name => simp [EscapedApart, List.isChain_cons_cons]
    have hih : blocks (fastName scheme) (fastName scheme) (fastLabels scheme ext)
        (some (fastName scheme s)) vec =
        blocks VecSample.name (referenceName scheme) (referenceLabels scheme ext) (some s.name)
          vec' ↔
        List.Forall₂ (fun s s' => fastLine scheme ext s = referenceLine scheme ext s') vec vec' ∧
          EscapedApart scheme ((some s.name).toList ++ vec.map VecSample.name) := ih (some s.name)
    rw [blocks, blocks, List.cons.injEq, sampleBlock_eq_iff, List.forall₂_cons, htypes, hchain,
      ← hname, hih]
    tauto

theorem length_blocks (key name : VecSample → String) (label : VecSample → List Label)
    (last : Option String) (vec : List VecSample) :
    (blocks key name label last vec).length = vec.length := by
  induction vec generalizing last with
  | nil => rfl
  | cons s vec ih => rw [blocks, List.length_cons, List.length_cons, ih]

theorem legible_blocks (key name : VecSample → String) (label : VecSample → List Label)
    (last : Option String) (vec : List VecSample) :
    ∀ b ∈ blocks key name label last vec, b.Legible '\n' fun c => c = '#' := by
  induction vec generalizing last with
  | nil => exact fun b hb => absurd hb List.not_mem_nil
  | cons s vec ih =>
    rw [blocks, List.forall_mem_cons]
    exact ⟨legible_sampleBlock _ _ _ _ _, ih _⟩

/-! ## The same body -/

/-- The list with `x`, if it has it, in front. -/
def toFront (x : VecSample) (vec : List VecSample) : List VecSample :=
  if x ∈ vec then x :: vec.erase x else vec

omit [Exposition] in
theorem toFront_perm (x : VecSample) (vec : List VecSample) : (toFront x vec).Perm vec := by
  rw [toFront]
  split
  · rename_i hx
    exact (List.perm_cons_erase hx).symm
  · exact List.Perm.refl vec

section

variable (delta maxt : Int) (merged : List StoredSeries)

/-- The samples of the handler. -/
def floats : List VecSample := merged.filterMap (floatSampleOf delta maxt)

/-- The samples of the reference. -/
def samples : List VecSample := merged.filterMap (sampleOf delta maxt)

omit [Exposition] in
theorem filter_samples :
    (samples delta maxt merged).filter (fun s => s.h.isNone) = floats delta maxt merged := by
  rw [samples, floats, List.filter_filterMap]
  refine congrArg (fun f => merged.filterMap f) (funext fun s => ?_)
  rw [sampleOf, floatSampleOf]
  cases seekOrPeekBack delta maxt s.samples with
  | none => rfl
  | some x =>
    cases x with
    | float t f =>
      simp only
      split <;> rfl
    | histogram t fh =>
      simp only
      split <;> rfl

theorem bodies_eq_iff (sortFunc : List VecSample → List VecSample) :
    federateBody delta maxt sortFunc scheme ext merged =
        referenceFederate delta maxt sortFunc scheme ext merged ↔
      blocks (fastName scheme) (fastName scheme) (fastLabels scheme ext) none
          (sortFunc (floats delta maxt merged)) =
        blocks VecSample.name (referenceName scheme) (referenceLabels scheme ext) none
          ((sortFunc (samples delta maxt merged)).filter isWritten) := by
  rw [federateBody_eq, referenceFederate_eq]
  exact ⟨Block.flatMap_text_inj (legible_blocks _ _ _ _ _) (legible_blocks _ _ _ _ _),
    fun h => congrArg _ h⟩

omit [Exposition] in
theorem isSortFunc_sortBy : IsSortFunc (sortBy VecSample.name) :=
  fun _ => ⟨sortBy_perm _ _, sortBy_pairwise _ _⟩

omit [Exposition] in
/-- The names of samples in order. -/
theorem map_name_eq {vec vec' : List VecSample} (hperm : vec.Perm vec')
    (hsorted : vec.Pairwise fun s s' => s.name ≤ s'.name) :
    vec.map VecSample.name = sortBy id (vec'.map VecSample.name) := by
  refine @List.Perm.eq_of_pairwise _ (fun a b => a ≤ b) _ _ ?_ (List.pairwise_map.mpr hsorted)
    (sortBy_pairwise id _) ((hperm.map _).trans (sortBy_perm id _).symm)
  exact fun a b _ _ => le_antisymm

omit [Exposition] in
theorem filter_isWritten :
    (samples delta maxt merged).filter isWritten =
      (floats delta maxt merged).filter fun s => s.name ≠ "" := by
  rw [← filter_samples, List.filter_filter]
  refine List.filter_congr fun s _ => ?_
  rw [isWritten, Bool.and_comm]

/-- What follows from the bodies being the same under the stable sort. -/
theorem stable_spec
    (h : blocks (fastName scheme) (fastName scheme) (fastLabels scheme ext) none
        (sortBy VecSample.name (floats delta maxt merged)) =
      blocks VecSample.name (referenceName scheme) (referenceLabels scheme ext) none
        ((sortBy VecSample.name (samples delta maxt merged)).filter isWritten)) :
    (∀ s ∈ floats delta maxt merged, s.name ≠ "") ∧
      (∀ s ∈ floats delta maxt merged, fastLine scheme ext s = referenceLine scheme ext s) ∧
      EscapedApart scheme (sortBy id ((floats delta maxt merged).map VecSample.name)) := by
  rw [filter_sortBy, filter_isWritten] at h
  have hlen := congrArg List.length h
  rw [length_blocks, length_blocks, (sortBy_perm _ _).length_eq, (sortBy_perm _ _).length_eq] at hlen
  have hnamed : ∀ s ∈ floats delta maxt merged, s.name ≠ "" := by
    intro s hs
    simpa using List.length_filter_eq_length_iff.mp hlen.symm s hs
  have hself : (floats delta maxt merged).filter (fun s => s.name ≠ "") =
      floats delta maxt merged :=
    List.filter_eq_self.mpr fun s hs => by simpa using hnamed s hs
  rw [hself] at h
  obtain ⟨hlines, hapart⟩ := (blocks_eq_iff scheme ext (List.forall₂_same.mpr fun _ _ => rfl)
    none).mp h
  rw [List.forall₂_same] at hlines
  refine ⟨hnamed, fun s hs => hlines s (mem_sortBy.mpr hs), ?_⟩
  rw [← map_name_eq (sortBy_perm _ _) (sortBy_pairwise VecSample.name _)]
  exact hapart

omit [Exposition] in
/-- Both lists that are written have the same names at the same places. -/
theorem forall₂_name {sortFunc : List VecSample → List VecSample} (hsort : IsSortFunc sortFunc)
    (hnamed : ∀ s ∈ floats delta maxt merged, s.name ≠ "") :
    List.Forall₂ (fun s s' => s.name = s'.name) (sortFunc (floats delta maxt merged))
      ((sortFunc (samples delta maxt merged)).filter isWritten) := by
  have hself : (floats delta maxt merged).filter (fun s => s.name ≠ "") =
      floats delta maxt merged :=
    List.filter_eq_self.mpr fun s hs => by simpa using hnamed s hs
  have hperm : ((sortFunc (samples delta maxt merged)).filter isWritten).Perm
      (floats delta maxt merged) := by
    have hfilter := (hsort (samples delta maxt merged)).1.filter isWritten
    rwa [filter_isWritten, hself] at hfilter
  have hmap := (map_name_eq (hsort _).1 (hsort _).2).trans
    (map_name_eq hperm ((hsort _).2.sublist List.filter_sublist)).symm
  rw [← List.forall₂_eq_eq_eq, List.forall₂_map_left_iff, List.forall₂_map_right_iff] at hmap
  exact hmap

omit [Exposition] in
theorem forall₂_and {α β : Type*} {R S : α → β → Prop} {l : List α} {l' : List β}
    (hR : List.Forall₂ R l l') (hS : List.Forall₂ S l l') :
    List.Forall₂ (fun x y => R x y ∧ S x y) l l' := by
  induction hR with
  | nil => exact .nil
  | cons hxy _ ih =>
    cases hS with
    | cons hxy' hS => exact .cons ⟨hxy, hxy'⟩ (ih hS)

/-- With a histogram, two samples of a name can be ordered one way for the handler and the other way
for the reference. -/
theorem order_spec
    (hblocks : ∀ sortFunc, IsSortFunc sortFunc →
      blocks (fastName scheme) (fastName scheme) (fastLabels scheme ext) none
          (sortFunc (floats delta maxt merged)) =
        blocks VecSample.name (referenceName scheme) (referenceLabels scheme ext) none
          ((sortFunc (samples delta maxt merged)).filter isWritten))
    (hnamed : ∀ s ∈ floats delta maxt merged, s.name ≠ "")
    (hlines : ∀ s ∈ floats delta maxt merged, fastLine scheme ext s = referenceLine scheme ext s) :
    (∀ s ∈ samples delta maxt merged, s.h.isNone = true) ∨
      ∀ s ∈ floats delta maxt merged, ∀ s' ∈ floats delta maxt merged, s.name = s'.name →
        fastLine scheme ext s = fastLine scheme ext s' := by
  by_cases hnone : ∀ s ∈ samples delta maxt merged, s.h.isNone = true
  · exact .inl hnone
  · refine .inr fun x hx y hy hxy => ?_
    -- `y` goes first among what has no histogram, and `x` among the rest
    let sortFunc := fun vec => sortBy VecSample.name
      (if ∀ s ∈ vec, s.h.isNone = true then toFront y vec else toFront x vec)
    have hsort : IsSortFunc sortFunc := by
      refine fun vec => ⟨(sortBy_perm _ _).trans ?_, sortBy_pairwise _ _⟩
      split
      · exact toFront_perm y vec
      · exact toFront_perm x vec
    have hfloats : ∀ s ∈ floats delta maxt merged, s.h.isNone = true := by
      intro s hs
      rw [← filter_samples] at hs
      exact (List.mem_filter.mp hs).2
    have hx' : x ∈ samples delta maxt merged :=
      (List.mem_filter.mp ((filter_samples delta maxt merged).symm ▸ hx)).1
    have hfast : sortFunc (floats delta maxt merged) =
        sortBy VecSample.name (toFront y (floats delta maxt merged)) :=
      congrArg (sortBy VecSample.name) (if_pos hfloats)
    have hreference : sortFunc (samples delta maxt merged) =
        sortBy VecSample.name (toFront x (samples delta maxt merged)) :=
      congrArg (sortBy VecSample.name) (if_neg hnone)
    have hnames := forall₂_name delta maxt merged hsort hnamed
    have hzip := forall₂_and hnames ((blocks_eq_iff scheme ext hnames none).mp
      (hblocks sortFunc hsort)).1
    have hsame := List.rel_filter (p := fun s => decide (s.name = x.name))
      (q := fun s => decide (s.name = x.name)) (fun s s' h => by simp only [h.1]) hzip
    have hxw : isWritten x = true := by
      rw [isWritten, hfloats x hx, decide_eq_true (hnamed x hx)]
      rfl
    rw [hfast, hreference, filter_key_sortBy, List.filter_comm, filter_key_sortBy, toFront,
      if_pos hy, toFront, if_pos hx', List.filter_cons_of_pos (by simpa using hxy.symm),
      List.filter_cons_of_pos (by simp), List.filter_cons_of_pos hxw,
      List.forall₂_cons] at hsame
    rw [hlines x hx, hsame.1.2]

/-- When the bodies are the same, however samples of one name are ordered. -/
structure SameBody : Prop where
  named : ∀ s ∈ floats delta maxt merged, s.name ≠ ""
  unescaped : ∀ s ∈ floats delta maxt merged, ∀ name ∈ writtenNames ext s,
    isValidLegacyMetricName name = true → escapeName name scheme = name
  external : floats delta maxt merged = [] ∨
    metricNameLabel ∉ (externalLabels ext).map Label.name
  apart : EscapedApart scheme (sortBy id ((floats delta maxt merged).map VecSample.name))
  order : (∀ s ∈ samples delta maxt merged, s.h.isNone = true) ∨
    ∀ s ∈ floats delta maxt merged, ∀ s' ∈ floats delta maxt merged, s.name = s'.name →
      fastLine scheme ext s = fastLine scheme ext s'

/-- Over every order of samples of one name, the handler writes what the reference does exactly if
every float has a name, no bare name is escaped, no external label is called as the name, no two
families that follow one another are escaped to one name, and either there are no histograms or the
samples of a name are all written the same. -/
theorem federateBody_eq_iff :
    (∀ sortFunc, IsSortFunc sortFunc → federateBody delta maxt sortFunc scheme ext merged =
      referenceFederate delta maxt sortFunc scheme ext merged) ↔
        SameBody scheme ext delta maxt merged := by
  constructor
  · intro h
    have hblocks := fun sortFunc hsort =>
      (bodies_eq_iff scheme ext delta maxt merged sortFunc).mp (h sortFunc hsort)
    obtain ⟨hnamed, hlines, hapart⟩ := stable_spec scheme ext delta maxt merged
      (hblocks _ isSortFunc_sortBy)
    have hsame := fun s hs => (fastLine_eq_iff scheme ext (hnamed s hs)).mp (hlines s hs)
    refine ⟨hnamed, fun s hs => (hsame s hs).1, ?_, hapart,
      order_spec scheme ext delta maxt merged hblocks hnamed hlines⟩
    cases hfloats : floats delta maxt merged with
    | nil => exact .inl rfl
    | cons s vec => exact .inr (hsame s (hfloats ▸ List.mem_cons_self)).2
  · intro h sortFunc hsort
    have hlines : ∀ s ∈ floats delta maxt merged,
        fastLine scheme ext s = referenceLine scheme ext s := by
      intro s hs
      refine (fastLine_eq_iff scheme ext (h.named s hs)).mpr ⟨h.unescaped s hs, ?_⟩
      exact h.external.resolve_left (List.ne_nil_of_mem hs)
    have hnames := forall₂_name delta maxt merged hsort h.named
    rw [bodies_eq_iff]
    refine (blocks_eq_iff scheme ext hnames none).mpr ⟨?_, ?_⟩
    · rcases h.order with hnone | hsame
      · -- without histograms both sort the same samples
        have hself : floats delta maxt merged = samples delta maxt merged := by
          rw [← filter_samples]
          exact List.filter_eq_self.mpr hnone
        have hwritten : (sortFunc (samples delta maxt merged)).filter isWritten =
            sortFunc (samples delta maxt merged) := by
          refine List.filter_eq_self.mpr fun s hs => ?_
          have hs' := (hsort _).1.mem_iff.mp hs
          rw [isWritten, hnone s hs', decide_eq_true (h.named s (hself ▸ hs'))]
          rfl
        rw [hwritten, ← hself, List.forall₂_same]
        exact fun s hs => hlines s ((hsort _).1.mem_iff.mp hs)
      · refine List.forall₂_iff_get.mpr ⟨hnames.length_eq, fun i hi hi' => ?_⟩
        have hmem := (hsort _).1.mem_iff.mp (List.get_mem (sortFunc (floats delta maxt merged)) ⟨i, hi⟩)
        have hmem' := List.get_mem
          ((sortFunc (samples delta maxt merged)).filter isWritten) ⟨i, hi'⟩
        rw [List.mem_filter, (hsort _).1.mem_iff, ← List.mem_filter, filter_isWritten,
          List.mem_filter] at hmem'
        rw [hsame _ hmem _ hmem'.1 (hnames.get hi hi'), hlines _ hmem'.1]
    · have hapart := h.apart
      rw [← map_name_eq (hsort _).1 (hsort _).2] at hapart
      exact hapart

end

omit [Exposition] in
/-- The handler's turn is that of the loop over the merged series, whose labels are not empty. -/
theorem floatSampleOf_eq (delta maxt : Int) (s : Series) :
    floatSampleOf delta maxt ⟨s.labels.toLabelSet, s.samples⟩ =
      (newestFloat delta maxt s).map fun x => ⟨x.metric.toLabelSet, x.t, x.f, none⟩ := by
  rw [floatSampleOf, newestFloat]
  cases seekOrPeekBack delta maxt s.samples with
  | none => rfl
  | some x =>
    cases x with
    | float t f =>
      simp only
      split <;> rfl
    | histogram t fh => rfl

end

section

attribute [local instance] schemeExposition

/-- A series with one sample. -/
def storedSeries (labels : Labels) : StoredSeries := ⟨labels.toLabelSet, [.float 100 .zero]⟩

/-- The handler doubles the underscore of a bare name when dots are escaped, and it writes a series
that has no name. -/
theorem federateBody_up_total :
    let body := fun scheme labels => federateBody 300 100 (sortBy VecSample.name) scheme
      Labels.empty.toLabelSet [storedSeries labels]
    let reference := fun scheme labels => referenceFederate 300 100 (sortBy VecSample.name) scheme
      Labels.empty.toLabelSet [storedSeries labels]
    body .dotsEscaping (Labels.empty.set metricNameLabel "up_total") ≠
        reference .dotsEscaping (Labels.empty.set metricNameLabel "up_total") ∧
      body .underscoreEscaping (Labels.empty.set "job" "node") ≠
        reference .underscoreEscaping (Labels.empty.set "job" "node") := by
  decide +kernel

end

end Federate
end Proxeus
