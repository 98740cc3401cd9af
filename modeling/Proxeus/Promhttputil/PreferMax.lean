import Proxeus.Promhttputil.MergeSpec

/-!
# Promhttputil.PreferMax

What `preferMax` does to the floats of a merge: `preferred` is the sample it means to emit for a
sample of the longer side, and `mergeFloatSamples_true` says that it emits this one at every
position but the first. There the sample of the longer side goes out unchanged unless the other
side has a sample before it, so `preferMax` holds of a merge exactly if that does no harm
(`mergeSampleStream_true_iff`).
-/

namespace Proxeus
namespace Promhttputil

open Lib

/-- A sample of the other side at the time of `u`, or strictly within the buffer of it. -/
def near (buffer : Int) (u x : SamplePair) : Bool :=
  x.timestamp = u.timestamp ||
    (u.timestamp - buffer < x.timestamp && x.timestamp < u.timestamp + buffer)

/-- The larger of `u`'s value and that of the earliest sample of `b` near it. -/
def preferred (buffer : Int) (b : List SamplePair) (u : SamplePair) : SamplePair :=
  match b.find? (near buffer u) with
  | some x => if x.value.gt u.value then ⟨u.timestamp, x.value⟩ else u
  | none => u

@[simp] theorem preferred_timestamp (buffer : Int) (b : List SamplePair) (u : SamplePair) :
    (preferred buffer b u).timestamp = u.timestamp := by
  rw [preferred]
  split
  · split <;> rfl
  · rfl

theorem gt_irrefl (v : SampleValue) : v.gt v = false := by
  simp [SampleValue.gt]

/-! ## The inner scan -/

/-- Too early to be near `u`. -/
def Early (buffer : Int) (u x : SamplePair) : Prop :=
  x.timestamp ≤ u.timestamp - buffer ∧ x.timestamp < u.timestamp

theorem Early.not_near {buffer : Int} {u x : SamplePair} (h : Early buffer u x) :
    near buffer u x = false := by
  obtain ⟨h1, h2⟩ := h
  simp only [near, Bool.or_eq_false_iff, Bool.and_eq_false_iff, decide_eq_false_iff_not]
  omega

theorem Early.mono {buffer : Int} {u u' x : SamplePair} (h : Early buffer u x)
    (hu : u.timestamp < u'.timestamp) : Early buffer u' x := by
  obtain ⟨h1, h2⟩ := h
  exact ⟨by omega, by omega⟩

variable {buffer : Int}

theorem preferLoop_timestamp (u : SamplePair) (off : Nat) (l : List SamplePair) (i : Nat) :
    (preferLoop buffer u off l i).1.timestamp = u.timestamp := by
  induction l generalizing i with
  | nil => rfl
  | cons x l ih =>
    rw [preferLoop]
    split
    · rfl
    · split
      · split <;> rfl
      · exact ih (i + 1)

theorem preferLoop_fst (hB : 0 ≤ buffer) (u : SamplePair) (off : Nat) {l : List SamplePair}
    (hl : Ascending SamplePair.timestamp l) (i : Nat) :
    (preferLoop buffer u off l i).1 = preferred buffer l u := by
  induction l generalizing i with
  | nil => rfl
  | cons x l ih =>
    rw [ascending_cons] at hl
    rw [preferLoop, preferred, List.find?_cons]
    by_cases hlate : u.timestamp + buffer ≤ x.timestamp ∧ x.timestamp ≠ u.timestamp
    · -- the scan stops: what follows is later still
      have hnone : l.find? (near buffer u) = none := by
        rw [List.find?_eq_none]
        intro y hy hnear
        have := hl.1 y hy
        simp only [near, Bool.or_eq_true, Bool.and_eq_true, decide_eq_true_eq] at hnear
        omega
      have hx : near buffer u x = false := by
        simp only [near, Bool.or_eq_false_iff, Bool.and_eq_false_iff, decide_eq_false_iff_not]
        omega
      rw [if_pos (by simpa using hlate), hx, hnone]
    · rw [if_neg (by simpa using hlate)]
      by_cases hin : x.timestamp = u.timestamp ∨ u.timestamp - buffer < x.timestamp
      · have hx : near buffer u x = true := by
          simp only [near, Bool.or_eq_true, Bool.and_eq_true, decide_eq_true_eq]
          omega
        rw [if_pos (by simpa using hin), hx]
        simp only []
        split <;> rfl
      · have hx : near buffer u x = false := by
          simp only [near, Bool.or_eq_false_iff, Bool.and_eq_false_iff, decide_eq_false_iff_not]
          omega
        rw [if_neg (by simpa using hin), hx, ih hl.2 (i + 1), preferred]

/-- The scan leaves `lastOffset` behind samples that are too early for `u`. -/
theorem preferLoop_snd (hB : 0 ≤ buffer) (u : SamplePair) (off : Nat) (before l : List SamplePair)
    (hoff : ∀ x ∈ (before ++ l).take off, Early buffer u x) (hbefore : ∀ x ∈ before, Early buffer u x) :
    ∀ x ∈ (before ++ l).take (preferLoop buffer u off l before.length).2, Early buffer u x := by
  induction l generalizing before with
  | nil => exact hoff
  | cons y l ih =>
    rw [preferLoop]
    by_cases hlate : u.timestamp + buffer ≤ y.timestamp ∧ y.timestamp ≠ u.timestamp
    · rw [if_pos (by simpa using hlate)]
      exact hoff
    · rw [if_neg (by simpa using hlate)]
      by_cases hin : y.timestamp = u.timestamp ∨ u.timestamp - buffer < y.timestamp
      · rw [if_pos (by simpa using hin)]
        intro x hx
        have hx' : x ∈ (before ++ y :: l).take before.length := by
          split at hx <;> exact hx
        rw [List.take_left] at hx'
        exact hbefore x hx'
      · rw [if_neg (by simpa using hin)]
        have happend : before ++ y :: l = (before ++ [y]) ++ l := by
          rw [List.append_assoc, List.singleton_append]
        have := ih (before ++ [y]) (happend ▸ hoff) (by
          intro x hx
          rcases List.mem_append.mp hx with hx | hx
          · exact hbefore x hx
          · rw [List.mem_singleton] at hx
            subst hx
            exact ⟨by omega, by omega⟩)
        rwa [← happend, List.length_append, List.length_singleton] at this

/-! ## The floats of a merge -/

/-- How `mergeFloatSamples` emits a sample under `preferMax`. -/
def preferEmit (buffer : Int) (b : List SamplePair) (u : SamplePair) (off : Nat) :
    SamplePair × Nat :=
  preferLoop buffer u off (b.drop off) off

theorem preferred_drop {b : List SamplePair} {u : SamplePair} {off : Nat}
    (hoff : ∀ x ∈ b.take off, Early buffer u x) :
    preferred buffer (b.drop off) u = preferred buffer b u := by
  have hnone : (b.take off).find? (near buffer u) = none := by
    rw [List.find?_eq_none]
    intro x hx
    rw [(hoff x hx).not_near]
    exact Bool.false_ne_true
  have hfind : b.find? (near buffer u) = (b.drop off).find? (near buffer u) := by
    conv_lhs => rw [← List.take_append_drop off b, List.find?_append, hnone, Option.none_or]
  rw [preferred, preferred, hfind]

theorem preferEmit_timestamp (buffer : Int) (b : List SamplePair) (u : SamplePair) (off : Nat) :
    (preferEmit buffer b u off).1.timestamp = u.timestamp :=
  preferLoop_timestamp u off (b.drop off) off

theorem emitted_preferEmit (hB : 0 ≤ buffer) {b : List SamplePair}
    (hb : Ascending SamplePair.timestamp b) {a : List SamplePair}
    (ha : Ascending SamplePair.timestamp a) (off : Nat)
    (hoff : ∀ u ∈ a, ∀ x ∈ b.take off, Early buffer u x) :
    emitted (preferEmit buffer b) a off = a.map (preferred buffer b) := by
  induction a generalizing off with
  | nil => rfl
  | cons u a ih =>
    rw [ascending_cons] at ha
    have hu := hoff u List.mem_cons_self
    have hdrop : Ascending SamplePair.timestamp (b.drop off) := hb.sublist (List.drop_sublist _ _)
    have hnext : ∀ x ∈ b.take (preferEmit buffer b u off).2, Early buffer u x := by
      by_cases hlen : off ≤ b.length
      · have := preferLoop_snd hB u off (b.take off) (b.drop off)
          (by rwa [List.take_append_drop]) hu
        rwa [List.take_append_drop, List.length_take, Nat.min_eq_left hlen] at this
      · rw [preferEmit, List.drop_eq_nil_of_le (by omega)]
        exact hu
    rw [emitted, List.map_cons, ih ha.2 _ fun u' hu' x hx => (hnext x hx).mono (ha.1 u' hu')]
    rw [preferEmit, preferLoop_fst hB u off hdrop, preferred_drop hu]

/-- `preferMax` only changes values, of all samples of the longer side but the first one where
nothing of the other side comes before it. -/
def preferredFrom (buffer : Int) (b : List SamplePair) : List SamplePair → List SamplePair
  | [] => []
  | u :: a =>
    if b.any (fun x => x.timestamp < u.timestamp - buffer) then
      (u :: a).map (preferred buffer b)
    else u :: a.map (preferred buffer b)

theorem mergeFloatSamples_true (hB : 0 ≤ buffer) {a b : List SamplePair}
    (ha : Ascending SamplePair.timestamp a) (hb : Ascending SamplePair.timestamp b)
    (hane : a ≠ []) (hbne : b ≠ []) :
    mergeFloatSamples buffer true a b =
      weaveAll SamplePair.timestamp buffer b (preferredFrom buffer b a) := by
  have hpass : mergeFloatSamples buffer true a b =
      mergePass SamplePair.timestamp buffer (preferEmit buffer b) a b := rfl
  rw [hpass, mergePass_eq_weaveAll hB (preferEmit_timestamp buffer b) ha hb hane hbne]
  cases a with
  | nil => exact absurd rfl hane
  | cons u a =>
    have hvals := startPass_newValues buffer u a hb hbne
    obtain ⟨hoff, hpassed⟩ := startPass_passed SamplePair.timestamp buffer u a hbne
    rw [ascending_cons] at ha
    generalize startPass SamplePair.timestamp buffer (u :: a) b = v at hvals hoff hpassed ⊢
    rw [← hoff] at hpassed
    have hearly : ∀ x ∈ b.take v.lastOffset, Early buffer u x := by
      intro x hx
      have := hpassed x hx
      exact ⟨by omega, by omega⟩
    have hrest : ∀ w ∈ a, ∀ x ∈ b.take v.lastOffset, Early buffer w x :=
      fun w hw x hx => (hearly x hx).mono (ha.1 w hw)
    have hany : b.any (fun x => x.timestamp < u.timestamp - buffer) = true ↔ v.newValues ≠ [] := by
      rw [hvals, List.any_eq_true, ne_eq, List.filter_eq_nil_iff]
      push Not
      rfl
    rw [emittedFrom, preferredFrom]
    by_cases hnil : v.newValues = []
    · rw [if_pos hnil, if_neg (fun h => hany.mp h hnil), emitted_preferEmit hB hb ha.2 _ hrest]
    · rw [if_neg hnil, if_pos (hany.mpr hnil), emitted_preferEmit hB hb (ascending_cons.mpr ha)]
      intro w hw
      rcases List.mem_cons.mp hw with rfl | hw
      · exact hearly
      · exact hrest w hw

theorem map_preferredFrom (buffer : Int) (a b : List SamplePair) :
    (preferredFrom buffer b a).map SamplePair.timestamp = a.map SamplePair.timestamp := by
  cases a with
  | nil => rfl
  | cons u a =>
    rw [preferredFrom]
    split <;> simp [Function.comp_def]

theorem preferredFrom_ascending (buffer : Int) {a : List SamplePair} (b : List SamplePair)
    (ha : Ascending SamplePair.timestamp a) :
    Ascending SamplePair.timestamp (preferredFrom buffer b a) := by
  have h : Ascending id (a.map SamplePair.timestamp) := ascending_map.mpr ha
  rw [← map_preferredFrom buffer a b, ascending_map] at h
  exact h

/-- The times of a merge do not depend on `preferMax`. -/
theorem map_mergeFloatSamples (hB : 0 ≤ buffer) (preferMax : Bool) {a b : List SamplePair}
    (ha : Ascending SamplePair.timestamp a) (hb : Ascending SamplePair.timestamp b)
    (hane : a ≠ []) (hbne : b ≠ []) :
    (mergeFloatSamples buffer preferMax a b).map SamplePair.timestamp =
      spacedUnion id buffer (a.map SamplePair.timestamp) (b.map SamplePair.timestamp) := by
  cases preferMax with
  | false =>
    rw [← map_spacedUnion hB ha hb]
    exact congrArg _ (mergePass_eq_spacedUnion hB ha hb hane hbne)
  | true =>
    have ha' : Ascending id (a.map SamplePair.timestamp) := ascending_map.mpr ha
    have hb' : Ascending id (b.map SamplePair.timestamp) := ascending_map.mpr hb
    rw [mergeFloatSamples_true hB ha hb hane hbne, ← weaveAll_eq_spacedUnion hB ha' hb',
      ← map_preferredFrom buffer a b]
    have hid : ∀ x : SamplePair, id x.timestamp = x.timestamp := fun _ => rfl
    exact (map_weaveAll SamplePair.timestamp hid b (preferredFrom buffer b a)).symm

/-! ## The law and where it fails -/

/-- `out` has the larger value wherever a sample of `a` has one of `b` near it. -/
def PrefersMax (buffer : Int) (a b out : List SamplePair) : Prop :=
  ∀ u ∈ a, ∀ x, b.find? (near buffer u) = some x →
    ⟨u.timestamp, if x.value.gt u.value then x.value else u.value⟩ ∈ out

/-- The first sample of `a` is not smaller than the sample near it, or `b` has an earlier one. -/
def FirstSettled (buffer : Int) (a b : List SamplePair) : Prop :=
  ∀ u, a.head? = some u → ∀ x, b.find? (near buffer u) = some x → x.value.gt u.value = true →
    ∃ y ∈ b, y.timestamp < u.timestamp - buffer

theorem preferred_of_find {b : List SamplePair} {u x : SamplePair}
    (h : b.find? (near buffer u) = some x) :
    preferred buffer b u = ⟨u.timestamp, if x.value.gt u.value then x.value else u.value⟩ := by
  rw [preferred, h]
  simp only []
  split <;> rfl

theorem mergeFloatSamples_prefersMax_iff (hB : 0 ≤ buffer) {a b : List SamplePair}
    (ha : Ascending SamplePair.timestamp a) (hb : Ascending SamplePair.timestamp b)
    (hane : a ≠ []) (hbne : b ≠ []) :
    PrefersMax buffer a b (mergeFloatSamples buffer true a b) ↔ FirstSettled buffer a b := by
  have hasc := preferredFrom_ascending buffer b ha
  rw [mergeFloatSamples_true hB ha hb hane hbne, weaveAll_eq_spacedUnion hB hasc hb]
  cases a with
  | nil => exact absurd rfl hane
  | cons w a =>
    constructor
    · intro hlaw u hu x hx hgt
      cases hu
      by_contra hno
      have hany : b.any (fun x => x.timestamp < w.timestamp - buffer) = false := by
        rw [Bool.eq_false_iff]
        intro h
        obtain ⟨y, hy, hlt⟩ := List.any_eq_true.mp h
        exact hno ⟨y, hy, of_decide_eq_true hlt⟩
      -- both `w` itself and the larger value would be emitted at the time of `w`
      have hmem := hlaw w List.mem_cons_self x hx
      have hw : w ∈ spacedUnion SamplePair.timestamp buffer (preferredFrom buffer b (w :: a)) b := by
        rw [mem_spacedUnion, preferredFrom, hany]
        exact .inl List.mem_cons_self
      have heq := (spacedUnion_ascending hB hasc hb).eq_of_key_eq hmem hw rfl
      rw [hgt, if_pos rfl] at heq
      have hval := congrArg SamplePair.value heq
      simp only at hval
      rw [hval, gt_irrefl] at hgt
      cases hgt
    · intro hfirst u hu x hx
      rw [mem_spacedUnion, ← preferred_of_find hx, preferredFrom]
      left
      split
      · exact List.mem_map_of_mem hu
      · rename_i hany
        rcases List.mem_cons.mp hu with rfl | hu
        · have hle : x.value.gt u.value = false := by
            rw [Bool.eq_false_iff]
            intro hgt
            obtain ⟨y, hy, hlt⟩ := hfirst u rfl x hx hgt
            exact hany (List.any_eq_true.mpr ⟨y, hy, decide_eq_true hlt⟩)
          rw [preferred_of_find hx, hle]
          exact List.mem_cons_self
        · exact List.mem_cons_of_mem _ (List.mem_map_of_mem hu)

theorem prefersMax_of_nil {a b out : List SamplePair} (h : a = [] ∨ b = []) :
    PrefersMax buffer a b out := by
  rintro u hu x hx
  rcases h with rfl | rfl
  · cases hu
  · cases hx

theorem firstSettled_of_nil {a b : List SamplePair} (h : a = [] ∨ b = []) :
    FirstSettled buffer a b := by
  rintro u hu x hx
  rcases h with rfl | rfl
  · cases hu
  · cases hx

theorem longer_shorter_eq_nil {α : Type*} {l l' : List α} (h : l = [] ∨ l' = []) :
    longer l l' = [] ∨ shorter l l' = [] :=
  longer_shorter_cases (fun l l' => l = [] ∨ l' = []) h h.symm

section

variable [Prometheus] {antiAffinityBuffer : Int} {dynamic : Bool} {a b : SampleStream}

/-- `preferMax` leaves the times of a merge alone, and its law holds of a merge exactly if the
first sample of the longer side is settled. -/
theorem mergeSampleStream_true_iff
    (hfp : Prometheus.fingerprint a.metric = Prometheus.fingerprint b.metric)
    (hB : 0 ≤ effectiveBuffer antiAffinityBuffer dynamic a b)
    (ha : Ascending SamplePair.timestamp a.values)
    (hb : Ascending SamplePair.timestamp b.values) :
    ∃ m m₀, mergeSampleStream antiAffinityBuffer dynamic a b true = .ok m ∧
      mergeSampleStream antiAffinityBuffer dynamic a b false = .ok m₀ ∧
      m.values.map SamplePair.timestamp = m₀.values.map SamplePair.timestamp ∧
      (PrefersMax (effectiveBuffer antiAffinityBuffer dynamic a b)
          (longer a.values b.values) (shorter a.values b.values) m.values ↔
        FirstSettled (effectiveBuffer antiAffinityBuffer dynamic a b)
          (longer a.values b.values) (shorter a.values b.values)) := by
  obtain ⟨_, -, hm⟩ := mergeSampleStream_eq antiAffinityBuffer dynamic hfp true
  obtain ⟨_, -, hm₀⟩ := mergeSampleStream_eq antiAffinityBuffer dynamic hfp false
  refine ⟨_, _, hm, hm₀, ?_⟩
  by_cases hempty : a.values = [] ∨ b.values = []
  · have hnil := longer_shorter_eq_nil hempty
    simp only [if_pos hempty, true_and]
    exact ⟨fun _ => firstSettled_of_nil hnil, fun _ => prefersMax_of_nil hnil⟩
  · obtain ⟨hane, hbne⟩ := not_or.mp hempty
    simp only [if_neg hempty]
    generalize effectiveBuffer antiAffinityBuffer dynamic a b = buffer at hB
    refine longer_shorter_cases
      (fun a b : List SamplePair =>
        (mergeFloatSamples buffer true a b).map SamplePair.timestamp =
            (mergeFloatSamples buffer false a b).map SamplePair.timestamp ∧
          (PrefersMax buffer a b (mergeFloatSamples buffer true a b) ↔ FirstSettled buffer a b))
      ⟨?_, mergeFloatSamples_prefersMax_iff hB ha hb hane hbne⟩
      ⟨?_, mergeFloatSamples_prefersMax_iff hB hb ha hbne hane⟩
    · rw [map_mergeFloatSamples hB true ha hb hane hbne,
        map_mergeFloatSamples hB false ha hb hane hbne]
    · rw [map_mergeFloatSamples hB true hb ha hbne hane,
        map_mergeFloatSamples hB false hb ha hbne hane]

end

end Promhttputil
end Proxeus
