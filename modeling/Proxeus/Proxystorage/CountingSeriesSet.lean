import Mathlib.Algebra.BigOperators.Group.Finset.Basic
import Proxeus.Promclient.StepAlign

/-!
# Proxystorage.CountingSeriesSet

The counters of `metrics.go` for what is read from the backends: `countingSeriesSet` and its iterators,
which a consumer may hand back to be used for another series, also of another set. An iterator keeps the
samples it has counted until the next series, or its end. What a consumer is shown is said by a
`Session`, with list iterators that remember the times they have been at; the counters never lose or
repeat a sample of it (`counting_session`).
-/

namespace Proxeus
namespace Proxystorage

open Lib Promclient

/-! ## The counters -/

/-- `pathPushdown` and `pathRaw` -/
inductive FetchPath where
  | pushdown
  | raw
deriving DecidableEq, Repr

/-- `math.MinInt64` -/
def minInt64 : Int := -9223372036854775808

/-- `countingIterator`, around an iterator with the states `σ`. -/
structure CountingIterator (σ : Type) where
  iterator : σ
  samples : FetchPath
  n : Nat
  lastT : Int

/-- `countingSeriesSet`, by the series that are still to come. The iterators are known by their
handles. -/
structure CountingSeriesSet (S : Type) where
  series : List S
  path : FetchPath
  last : Option Nat

/-- The sets and the iterators that a consumer holds, and the counters that they share. -/
structure Counting (S σ : Type) where
  sets : List (CountingSeriesSet S)
  iterators : List (CountingIterator σ)
  series : FetchPath → Nat
  samples : FetchPath → Nat

def newCounting (S σ : Type) : Counting S σ := ⟨[], [], fun _ => 0, fun _ => 0⟩

/-- What a consumer calls. An iterator may be handed back for another series. -/
inductive SeriesSetCall (S : Type) where
  | countSeriesSet (path : FetchPath) (series : List S)
  | next (set : Nat)
  | iterator (set : Nat) (s : S) (reuse : Option Nat)
  | call (handle : Nat) (i : IteratorCall)

/-- What the calls return; of `Next`, the series that `At` then returns. -/
inductive SeriesSetAnswer (H S : Type) where
  | set (n : Nat)
  | series (s : Option S)
  | iterator (handle : Nat)
  | answer (a : IteratorAnswer H)
  | noObject

/-- The methods that go through `count`. -/
def moves : IteratorCall → Bool
  | .next => true
  | .seek _ => true
  | _ => false

/-- `counter.Add` -/
def add (counter : FetchPath → Nat) (path : FetchPath) (n : Nat) : FetchPath → Nat :=
  fun p => counter p + if p = path then n else 0

theorem add_zero (counter : FetchPath → Nat) (path : FetchPath) : add counter path 0 = counter := by
  funext p
  rw [add, ite_self, Nat.add_zero]

namespace Counting

section

variable {S σ : Type} (c : Counting S σ)

def put (handle : Nat) (it : CountingIterator σ) : Counting S σ :=
  { c with iterators := c.iterators.set handle it }

def flush (handle : Nat) : Counting S σ :=
  match c.iterators[handle]? with
  | none => c
  | some it => { c with samples := add c.samples it.samples it.n }.put handle { it with n := 0 }

/-- The flush of `last`. -/
def flushLast (last : Option Nat) : Counting S σ :=
  match last with
  | none => c
  | some handle => c.flush handle

variable {H : Type} (backend : Promclient.Downstream H S σ)

/-- `count`, after the iterator has returned `vt`. -/
def count (handle : Nat) (vt : IteratorAnswer H) : Counting S σ :=
  match vt with
  | .valueType .none => c.flush handle
  | _ =>
    match c.iterators[handle]? with
    | none => c
    | some it =>
      match backend.call it.iterator .atT with
      | (.atT (some t), iterator) =>
        c.put handle
          (if t = it.lastT then { it with iterator }
            else { it with iterator, lastT := t, n := it.n + 1 })
      | (_, iterator) => c.put handle { it with iterator }

def step (c : Counting S σ) : SeriesSetCall S → SeriesSetAnswer H S × Counting S σ
  | .countSeriesSet path series =>
    (.set c.sets.length, { c with sets := c.sets ++ [⟨series, path, none⟩] })
  | .next set =>
    match c.sets[set]? with
    | none => (.noObject, c)
    | some ss =>
      let c := c.flushLast ss.last
      match ss.series with
      | [] => (.series none, c)
      | s :: series =>
        (.series (some s), { c with
          sets := c.sets.set set { ss with series }
          series := add c.series ss.path 1 })
  | .iterator set s reuse =>
    match c.sets[set]? with
    | none => (.noObject, c)
    | some ss =>
      match reuse with
      | none =>
        let handle := c.iterators.length
        (.iterator handle, { c with
          sets := c.sets.set set { ss with last := some handle }
          iterators := c.iterators ++ [⟨backend.iterator s none, ss.path, 0, minInt64⟩] })
      | some handle =>
        match c.iterators[handle]? with
        | none => (.noObject, c)
        | some it =>
          let c := c.flush handle
          (.iterator handle,
            { c with sets := c.sets.set set { ss with last := some handle } }.put handle
              ⟨backend.iterator s (some (.downstream it.iterator)), ss.path, 0, minInt64⟩)
  | .call handle i =>
    match c.iterators[handle]? with
    | none => (.noObject, c)
    | some it =>
      let called := backend.call it.iterator i
      let c := c.put handle { it with iterator := called.2 }
      (.answer called.1, if moves i then c.count backend handle called.1 else c)

/-- The samples that are counted and not yet added. -/
def pending (path : FetchPath) : Nat :=
  (c.iterators.map fun it => if it.samples = path then it.n else 0).sum

end

end Counting

/-! ## What is shown -/

/-- A list iterator, and the times it has been at since it was opened. -/
structure SeriesReading (H : Type) where
  it : ListIterator H
  path : FetchPath
  seen : Finset Int

/-- The sets and the iterators without counters: the series shown, and the samples shown by iterators
that have been handed back since. -/
structure Session (H S : Type) where
  sets : List (FetchPath × List S)
  readings : List (SeriesReading H)
  series : FetchPath → Nat
  past : FetchPath → Nat

def newSession (H S : Type) : Session H S := ⟨[], [], fun _ => 0, fun _ => 0⟩

/-- The smallest time stands for none. -/
def see {H : Type} (seen : Finset Int) : Option (ChunkSample H) → Finset Int
  | none => seen
  | some x => if x.t = minInt64 then seen else insert x.t seen

namespace Session

variable {H S : Type} (samples : S → List (ChunkSample H))

def step (s : Session H S) : SeriesSetCall S → SeriesSetAnswer H S × Session H S
  | .countSeriesSet path series => (.set s.sets.length, { s with sets := s.sets ++ [(path, series)] })
  | .next set =>
    match s.sets[set]? with
    | none => (.noObject, s)
    | some ss =>
      match ss.2 with
      | [] => (.series none, s)
      | x :: series =>
        (.series (some x),
          { s with sets := s.sets.set set (ss.1, series), series := add s.series ss.1 1 })
  | .iterator set x reuse =>
    match s.sets[set]? with
    | none => (.noObject, s)
    | some ss =>
      let opened : SeriesReading H := ⟨newListSeriesIterator (samples x), ss.1, ∅⟩
      match reuse with
      | none => (.iterator s.readings.length, { s with readings := s.readings ++ [opened] })
      | some handle =>
        match s.readings[handle]? with
        | none => (.noObject, s)
        | some r =>
          (.iterator handle,
            { s with readings := s.readings.set handle opened, past := add s.past r.path r.seen.card })
  | .call handle i =>
    match s.readings[handle]? with
    | none => (.noObject, s)
    | some r =>
      let called := r.it.call i
      let seen := if moves i then see r.seen called.2.current else r.seen
      (.answer called.1, { s with readings := s.readings.set handle { r with it := called.2, seen } })

/-- The samples that have been shown. -/
def samplesShown (s : Session H S) (path : FetchPath) : Nat :=
  s.past path + (s.readings.map fun r => if r.path = path then r.seen.card else 0).sum

end Session

/-! ## List iterators go forward -/

section

variable {H : Type} {it : ListIterator H}

theorem le_searchFrom (it : ListIterator H) (t : Int) (i : Nat) : i ≤ it.searchFrom t i :=
  Nat.le_add_right _ _

theorem samples_call (it : ListIterator H) (i : IteratorCall) : (it.call i).2.samples = it.samples := by
  cases i with
  | seek t =>
    show (it.seek t).samples = it.samples
    rw [ListIterator.seek]
    split
    · rfl
    · rfl
  | _ => rfl

theorem reached_call (it : ListIterator H) (i : IteratorCall) : it.reached ≤ (it.call i).2.reached := by
  cases i with
  | next => exact Nat.le_succ _
  | seek t =>
    have hsearch := le_searchFrom it t (max it.reached 1 - 1)
    show it.reached ≤ (it.seek t).reached
    rw [ListIterator.seek]
    split
    · exact le_max_left _ _
    · show it.reached ≤ it.searchFrom t (max it.reached 1 - 1) + 1
      omega
  | _ => exact le_rfl

/-- A call that does not move the iterator leaves it as it is. -/
theorem call_of_not_moves {i : IteratorCall} (h : moves i = false) : (it.call i).2 = it := by
  cases i with
  | next => cases h
  | seek t => cases h
  | _ => rfl

theorem reached_pos_of_moves {i : IteratorCall} (h : moves i = true) : 0 < (it.call i).2.reached := by
  cases i with
  | next => exact Nat.succ_pos _
  | seek t =>
    show 0 < (it.seek t).reached
    rw [ListIterator.seek]
    split
    · exact lt_of_lt_of_le Nat.one_pos (le_max_right _ _)
    · exact Nat.succ_pos _
  | _ => cases h

/-- What a call that moves the iterator returns. -/
theorem answer_of_moves {i : IteratorCall} (h : moves i = true) :
    (it.call i).1 = .valueType (ListIterator.typeOf (it.call i).2.current) := by
  cases i with
  | next => rfl
  | seek t => rfl
  | _ => cases h

theorem current_eq_some {x : ChunkSample H} (h : it.current = some x) :
    it.samples[it.reached - 1]? = some x ∧ 0 < it.reached := by
  rw [ListIterator.current] at h
  split at h
  · cases h
  · exact ⟨h, by omega⟩

/-- The iterator has gone past its last sample. -/
def Ended (it : ListIterator H) : Prop := it.samples.length < it.reached

theorem ended_iff_current (hpos : 0 < it.reached) : Ended it ↔ it.current = none := by
  rw [Ended, ListIterator.current, if_neg (by omega), List.getElem?_eq_none_iff]
  omega

end

/-! ## One iterator -/

section

variable {H S σ : Type}

/-- Samples as a backend returns them. -/
structure Ordered (samples : List (ChunkSample H)) : Prop where
  sorted : samples.Pairwise fun x y => x.t ≤ y.t
  times : ∀ x ∈ samples, minInt64 ≤ x.t
  types : ∀ x ∈ samples, x.type ≠ .none

/-- The last sample that has been counted is the last of those that have been shown, and none of these
is to come again. -/
structure SeenUpTo (lastT : Int) (r : SeriesReading H) : Prop where
  last : lastT = minInt64 ∧ r.seen = ∅ ∨ lastT ∈ r.seen ∧ ∀ t ∈ r.seen, t ≤ lastT
  times : ∀ t ∈ r.seen, minInt64 < t
  later : ∀ t ∈ r.seen, ∀ i x, r.it.reached ≤ i + 1 → r.it.samples[i]? = some x → t ≤ x.t

theorem seenUpTo_opened (samples : List (ChunkSample H)) (path : FetchPath) :
    SeenUpTo minInt64 ⟨newListSeriesIterator samples, path, ∅⟩ where
  last := Or.inl ⟨rfl, rfl⟩
  times t ht := absurd ht (Finset.notMem_empty t)
  later t ht := absurd ht (Finset.notMem_empty t)

/-- The iterator has moved on, without showing a sample. -/
theorem SeenUpTo.moved {lastT : Int} {r : SeriesReading H} (h : SeenUpTo lastT r) {it : ListIterator H}
    (hsamples : it.samples = r.it.samples) (hreached : r.it.reached ≤ it.reached) :
    SeenUpTo lastT { r with it } where
  last := h.last
  times := h.times
  later t ht i x hi hx := by
    rw [hsamples] at hx
    exact h.later t ht i x (hreached.trans hi) hx

/-- A sample is new exactly if it is not the last one that has been counted. -/
theorem see_spec {lastT : Int} {r : SeriesReading H} (h : SeenUpTo lastT r) (hordered : Ordered r.it.samples)
    {it : ListIterator H} (hsamples : it.samples = r.it.samples) (hreached : r.it.reached ≤ it.reached)
    {x : ChunkSample H} (hx : it.current = some x) :
    (x.t = lastT → see r.seen it.current = r.seen) ∧
      (x.t ≠ lastT → (see r.seen it.current).card = r.seen.card + 1 ∧
        SeenUpTo x.t { r with it, seen := see r.seen it.current }) := by
  obtain ⟨hget, hpos⟩ := current_eq_some hx
  rw [hsamples] at hget
  have hmem := List.mem_of_getElem? hget
  have hle : ∀ t ∈ r.seen, t ≤ x.t := fun t ht => h.later t ht _ x (by omega) hget
  rw [hx]
  refine ⟨fun heq => ?_, fun hne => ?_⟩
  · rw [see]
    split
    · rfl
    · rcases h.last with ⟨hmin, -⟩ | ⟨hlast, -⟩
      · exact absurd (heq.trans hmin) ‹_›
      · exact Finset.insert_eq_of_mem (heq ▸ hlast)
  · have hnew : x.t ∉ r.seen := by
      intro hseen
      rcases h.last with ⟨-, hnone⟩ | ⟨hlast, hmax⟩
      · rw [hnone] at hseen
        exact absurd hseen (Finset.notMem_empty _)
      · exact hne (le_antisymm (hmax _ hseen) (hle _ hlast))
    have hlt : minInt64 < x.t := by
      refine lt_of_le_of_ne (hordered.times x hmem) fun heq => ?_
      rcases h.last with ⟨hmin, -⟩ | ⟨hlast, -⟩
      · exact hne (heq.symm.trans hmin.symm)
      · have h1 := h.times _ hlast
        have h2 := hle _ hlast
        omega
    have hsee : see r.seen (some x) = insert x.t r.seen := by rw [see, if_neg hlt.ne']
    rw [hsee]
    refine ⟨Finset.card_insert_of_notMem hnew, ⟨Or.inr ⟨Finset.mem_insert_self _ _, ?_⟩, ?_, ?_⟩⟩
    · intro t ht
      rcases Finset.mem_insert.mp ht with rfl | ht
      · exact le_rfl
      · exact hle t ht
    · intro t ht
      rcases Finset.mem_insert.mp ht with rfl | ht
      · exact hlt
      · exact h.times t ht
    · intro t ht i y hi hy
      dsimp only at hi hy
      rw [hsamples] at hy
      have hxy : x.t ≤ y.t := by
        obtain ⟨hi', hyi⟩ := List.getElem?_eq_some_iff.mp hy
        obtain ⟨hj', hxj⟩ := List.getElem?_eq_some_iff.mp hget
        rcases Nat.lt_or_eq_of_le (show it.reached - 1 ≤ i by omega) with hlt | heq
        · have hpair := List.pairwise_iff_getElem.mp hordered.sorted _ _ hj' hi' hlt
          rwa [hxj, hyi] at hpair
        · subst heq
          rw [← hxj, ← hyi]
      rcases Finset.mem_insert.mp ht with rfl | ht
      · exact hxy
      · exact (hle t ht).trans hxy

variable (backend : Promclient.Downstream H S σ)

/-- An iterator that counts what its reading shows. -/
structure Tallies (it : CountingIterator σ) (r : SeriesReading H) : Prop where
  alike : Alike backend.call ListIterator.call it.iterator r.it
  path : it.samples = r.path
  ordered : Ordered r.it.samples
  seen : SeenUpTo it.lastT r
  ended : Ended r.it → it.n = 0

/-! ## All of them -/

structure Agrees (c : Counting S σ) (s : Session H S) : Prop where
  sets : c.sets.map (fun ss => (ss.path, ss.series)) = s.sets
  iterators : List.Forall₂ (Tallies backend) c.iterators s.readings
  series : c.series = s.series
  samples : ∀ path, c.samples path + c.pending path = s.samplesShown path

theorem sum_map_set {α : Type} (f : α → Nat) {l : List α} {i : Nat} {a : α} (h : l[i]? = some a)
    (b : α) : ((l.set i b).map f).sum + f a = (l.map f).sum + f b := by
  induction l generalizing i with
  | nil => cases h
  | cons x l ih =>
    cases i with
    | zero =>
      cases h
      simp only [List.set_cons_zero, List.map_cons, List.sum_cons]
      omega
    | succ i =>
      have hih := ih h
      simp only [List.set_cons_succ, List.map_cons, List.sum_cons]
      omega

theorem agrees_newCounting : Agrees backend (newCounting S σ) (newSession H S) :=
  ⟨rfl, .nil, rfl, fun _ => rfl⟩

variable {backend} {c : Counting S σ} {s : Session H S} {it it' : CountingIterator σ} {r r' : SeriesReading H}
  {handle : Nat}

theorem Agrees.reading (h : Agrees backend c s) (hit : c.iterators[handle]? = some it) :
    ∃ r, s.readings[handle]? = some r ∧ Tallies backend it r := by
  have hrel := rel_getElem? h.iterators handle
  rw [hit] at hrel
  generalize s.readings[handle]? = found at hrel
  cases hrel with
  | some htallies => exact ⟨_, rfl, htallies⟩

theorem Agrees.no_reading (h : Agrees backend c s) (hit : c.iterators[handle]? = none) :
    s.readings[handle]? = none := by
  have hrel := rel_getElem? h.iterators handle
  rw [hit] at hrel
  generalize s.readings[handle]? = found at hrel
  cases hrel
  rfl

/-- An iterator and its reading change: what is added and what is pending cover what was shown before
and is shown now. -/
theorem Agrees.set (h : Agrees backend c s) (hit : c.iterators[handle]? = some it)
    (hr : s.readings[handle]? = some r) (htallies : Tallies backend it' r') (added past : Nat)
    (hbalance : ∀ path,
      (if path = it.samples then added else 0) + (if it'.samples = path then it'.n else 0) +
          (if r.path = path then r.seen.card else 0) =
        (if it.samples = path then it.n else 0) + (if path = r.path then past else 0) +
          (if r'.path = path then r'.seen.card else 0)) :
    Agrees backend
      ({ c with samples := add c.samples it.samples added }.put handle it')
      { s with readings := s.readings.set handle r', past := add s.past r.path past } where
  sets := h.sets
  iterators := rel_set h.iterators htallies handle
  series := h.series
  samples path := by
    have hsamples := h.samples path
    have hbalance := hbalance path
    have hpending := sum_map_set (fun it : CountingIterator σ => if it.samples = path then it.n else 0)
      hit it'
    have hshown := sum_map_set (fun r : SeriesReading H => if r.path = path then r.seen.card else 0) hr r'
    simp only [Counting.pending, Session.samplesShown, Counting.put, add] at hsamples ⊢
    omega

theorem set_self {α : Type} {l : List α} {i : Nat} {a : α} (h : l[i]? = some a) : l.set i a = l := by
  obtain ⟨hlt, rfl⟩ := List.getElem?_eq_some_iff.mp h
  exact List.set_getElem_self hlt

theorem flush_eq (hit : c.iterators[handle]? = some it) :
    c.flush handle =
      { c with samples := add c.samples it.samples it.n }.put handle { it with n := 0 } := by
  rw [Counting.flush, hit]

theorem Agrees.flush (h : Agrees backend c s) (handle : Nat) : Agrees backend (c.flush handle) s := by
  rw [Counting.flush]
  cases hit : c.iterators[handle]? with
  | none => exact h
  | some it =>
    obtain ⟨r, hr, htallies⟩ := h.reading hit
    have htallies' : Tallies backend { it with n := 0 } r :=
      ⟨htallies.alike, htallies.path, htallies.ordered, htallies.seen, fun _ => rfl⟩
    have hset := h.set hit hr htallies' it.n 0 fun path => by
      simp only [ite_self, eq_comm (a := path)]
    rwa [add_zero, set_self hr] at hset

theorem Agrees.flushLast (h : Agrees backend c s) (last : Option Nat) :
    Agrees backend (c.flushLast last) s := by
  cases last with
  | none => exact h
  | some handle => exact h.flush handle

/-- Only the counters and the iterators are touched. -/
theorem sets_flushLast (c : Counting S σ) (last : Option Nat) :
    (c.flushLast last).sets = c.sets ∧ (c.flushLast last).series = c.series := by
  cases last with
  | none => exact ⟨rfl, rfl⟩
  | some handle =>
    rw [Counting.flushLast, Counting.flush]
    split
    · exact ⟨rfl, rfl⟩
    · exact ⟨rfl, rfl⟩

theorem Agrees.getElem?_sets (h : Agrees backend c s) (set : Nat) :
    s.sets[set]? = c.sets[set]?.map fun ss => (ss.path, ss.series) := by
  rw [← h.sets, List.getElem?_map]

theorem step_countSeriesSet (h : Agrees backend c s) (path : FetchPath) (series : List S) :
    (c.step backend (.countSeriesSet path series)).1 =
        (s.step backend.samples (.countSeriesSet path series)).1 ∧
      Agrees backend (c.step backend (.countSeriesSet path series)).2
        (s.step backend.samples (.countSeriesSet path series)).2 := by
  refine ⟨?_, ⟨?_, h.iterators, h.series, h.samples⟩⟩
  · show SeriesSetAnswer.set c.sets.length = SeriesSetAnswer.set s.sets.length
    rw [← h.sets, List.length_map]
  · show (c.sets ++ [(⟨series, path, none⟩ : CountingSeriesSet S)]).map _ = s.sets ++ [(path, series)]
    rw [List.map_append, h.sets]
    rfl

theorem step_next (h : Agrees backend c s) (set : Nat) :
    (c.step backend (.next set)).1 = (s.step backend.samples (.next set)).1 ∧
      Agrees backend (c.step backend (.next set)).2 (s.step backend.samples (.next set)).2 := by
  rw [Counting.step, Session.step, h.getElem?_sets]
  cases hset : c.sets[set]? with
  | none => exact ⟨rfl, h⟩
  | some ss =>
    have hflush := h.flushLast ss.last
    have hsets := (sets_flushLast c ss.last).1
    have hseries := (sets_flushLast c ss.last).2
    simp only [Option.map_some]
    cases hs : ss.series with
    | nil => exact ⟨rfl, hflush⟩
    | cons x series =>
      refine ⟨rfl, ⟨?_, hflush.iterators, ?_, hflush.samples⟩⟩
      · show ((c.flushLast ss.last).sets.set set _).map _ = s.sets.set set _
        rw [hsets, List.map_set, h.sets]
      · show add (c.flushLast ss.last).series _ _ = add s.series _ _
        rw [hseries, h.series]

variable (hordered : ∀ x, Ordered (backend.samples x))

include hordered in
theorem tallies_opened (x : S) (path : FetchPath) (reuse : Option (ChunkIterator σ)) :
    Tallies backend ⟨backend.iterator x reuse, path, 0, minInt64⟩
      ⟨newListSeriesIterator (backend.samples x), path, ∅⟩ where
  alike := backend.lists x reuse
  path := rfl
  ordered := hordered x
  seen := seenUpTo_opened _ _
  ended _ := rfl

include hordered in
theorem step_iterator (h : Agrees backend c s) (set : Nat) (x : S) (reuse : Option Nat) :
    (c.step backend (.iterator set x reuse)).1 =
        (s.step backend.samples (.iterator set x reuse)).1 ∧
      Agrees backend (c.step backend (.iterator set x reuse)).2
        (s.step backend.samples (.iterator set x reuse)).2 := by
  rw [Counting.step, Session.step, h.getElem?_sets]
  cases hset : c.sets[set]? with
  | none => exact ⟨rfl, h⟩
  | some ss =>
    have hsame (last : Option Nat) :
        (c.sets.set set { ss with last }).map (fun ss => (ss.path, ss.series)) = s.sets := by
      rw [List.map_set, h.sets]
      exact set_self (by rw [h.getElem?_sets, hset]; rfl)
    cases reuse with
    | none =>
      have hlength := h.iterators.length_eq
      refine ⟨congrArg SeriesSetAnswer.iterator hlength, ⟨hsame _, ?_, h.series, fun path => ?_⟩⟩
      · exact List.rel_append h.iterators (.cons (tallies_opened hordered x ss.path none) .nil)
      · have hsamples := h.samples path
        simp only [Counting.pending, Session.samplesShown, Option.map_some, List.map_append,
          List.map_cons, List.map_nil, List.sum_append, List.sum_cons, List.sum_nil,
          Finset.card_empty, ite_self] at hsamples ⊢
        omega
    | some handle =>
      cases hit : c.iterators[handle]? with
      | none =>
        simp only [hit, h.no_reading hit, Option.map_some]
        exact ⟨trivial, h⟩
      | some it =>
        obtain ⟨r, hr, htallies⟩ := h.reading hit
        have hopened := h.set hit hr
          (tallies_opened hordered x ss.path (some (.downstream it.iterator))) it.n r.seen.card
          fun path => by
            simp only [ite_self, Finset.card_empty, eq_comm (a := path), Nat.add_zero]
        simp only [hit, hr, Option.map_some, flush_eq hit, Counting.put, List.set_set]
        exact ⟨trivial, ⟨hsame _, hopened.iterators, hopened.series, hopened.samples⟩⟩

/-- An iterator that is not moved is left as it is, and so is what it has counted. -/
theorem step_reads (h : Agrees backend c s) (hit : c.iterators[handle]? = some it)
    (hr : s.readings[handle]? = some r) (htallies : Tallies backend it r) {i : IteratorCall}
    (hi : moves i = false) :
    Agrees backend (c.put handle { it with iterator := (backend.call it.iterator i).2 }) s := by
  obtain ⟨-, halike⟩ := simulates_alike _ _ i htallies.alike
  rw [call_of_not_moves hi] at halike
  have htallies' : Tallies backend { it with iterator := (backend.call it.iterator i).2 } r :=
    ⟨halike, htallies.path, htallies.ordered, htallies.seen, htallies.ended⟩
  have hset := h.set hit hr htallies' 0 0 fun path => by
    simp only [ite_self, Nat.zero_add, Nat.add_zero]
  rwa [add_zero, add_zero, set_self hr] at hset

theorem getElem?_put (hit : c.iterators[handle]? = some it) (it' : CountingIterator σ) :
    (c.put handle it').iterators[handle]? = some it' :=
  List.getElem?_set_self (List.getElem?_eq_some_iff.mp hit).1

/-- Where the iterator is at a sample, `count` asks for its time. -/
theorem count_eq (hit : c.iterators[handle]? = some it) {v : ValueType} (hv : v ≠ .none) {t : Int}
    (hat : (backend.call it.iterator .atT).1 = .atT (some t)) :
    c.count backend handle (.valueType v) =
      c.put handle
        (if t = it.lastT then { it with iterator := (backend.call it.iterator .atT).2 }
          else { it with
            iterator := (backend.call it.iterator .atT).2, lastT := t, n := it.n + 1 }) := by
  cases v with
  | none => exact absurd rfl hv
  | _ =>
    simp only [Counting.count, hit]
    generalize backend.call it.iterator .atT = called at hat ⊢
    obtain ⟨answer, iterator⟩ := called
    cases hat
    rfl

/-- The iterator has gone past its last sample: it adds what it has counted. -/
theorem step_ends (h : Agrees backend c s) (hit : c.iterators[handle]? = some it)
    (hr : s.readings[handle]? = some r) (htallies : Tallies backend it r) {i : IteratorCall}
    (hx : (r.it.call i).2.current = none) :
    Agrees backend
      ((c.put handle { it with iterator := (backend.call it.iterator i).2 }).count backend handle
        (.valueType .none))
      { s with
        readings := s.readings.set handle
          { r with it := (r.it.call i).2, seen := see r.seen (r.it.call i).2.current } } := by
  obtain ⟨-, halike⟩ := simulates_alike _ _ i htallies.alike
  have htallies' : Tallies backend { it with iterator := (backend.call it.iterator i).2, n := 0 }
      { r with it := (r.it.call i).2, seen := see r.seen (r.it.call i).2.current } := by
    rw [hx]
    refine ⟨halike, htallies.path, ?_, ?_, fun _ => rfl⟩
    · rw [samples_call]
      exact htallies.ordered
    · exact htallies.seen.moved (samples_call _ _) (reached_call _ _)
  have hset := h.set hit hr htallies' it.n 0 fun path => by
    rw [hx]
    simp only [see, ite_self, eq_comm (a := path)]
  rw [add_zero] at hset
  rw [Counting.count, flush_eq (getElem?_put hit _)]
  simpa only [Counting.put, List.set_set] using hset

/-- The iterator is at `x`: it is counted unless it was the last one. -/
theorem step_shows (h : Agrees backend c s) (hit : c.iterators[handle]? = some it)
    (hr : s.readings[handle]? = some r) (htallies : Tallies backend it r) {i : IteratorCall}
    {x : ChunkSample H} (hx : (r.it.call i).2.current = some x) :
    Agrees backend
      ((c.put handle { it with iterator := (backend.call it.iterator i).2 }).count backend handle
        (.valueType x.type))
      { s with
        readings := s.readings.set handle
          { r with it := (r.it.call i).2, seen := see r.seen (r.it.call i).2.current } } := by
  obtain ⟨-, halike⟩ := simulates_alike _ _ i htallies.alike
  obtain ⟨hat, halike'⟩ := simulates_alike _ _ .atT halike
  have hsamples := samples_call r.it i
  have hreached := reached_call r.it i
  obtain ⟨hget, hpos⟩ := current_eq_some hx
  have hordered' : Ordered (r.it.call i).2.samples := hsamples ▸ htallies.ordered
  have htype := hordered'.types x (List.mem_of_getElem? hget)
  have hended : ¬ Ended (r.it.call i).2 := by
    rw [ended_iff_current hpos, hx]
    exact Option.some_ne_none x
  have htime : (backend.call (backend.call it.iterator i).2 .atT).1 = .atT (some x.t) := by
    rw [hat]
    show IteratorAnswer.atT ((r.it.call i).2.current.map ChunkSample.t) = _
    rw [hx]
    rfl
  rw [count_eq (getElem?_put hit _) htype htime]
  obtain ⟨hsame, hnew⟩ := see_spec htallies.seen htallies.ordered hsamples hreached hx
  split
  · have hseen := hsame ‹_›
    rw [hseen]
    have htallies' : Tallies backend
        { it with iterator := (backend.call (backend.call it.iterator i).2 .atT).2 }
        { r with it := (r.it.call i).2 } :=
      ⟨halike', htallies.path, hordered', htallies.seen.moved hsamples hreached,
        fun hend => absurd hend hended⟩
    have hset := h.set hit hr htallies' 0 0 fun path => by
      simp only [ite_self, Nat.zero_add, Nat.add_zero]
    rw [add_zero, add_zero] at hset
    simpa only [Counting.put, List.set_set] using hset
  · obtain ⟨hcard, hseen⟩ := hnew ‹_›
    have htallies' : Tallies backend
        { it with
          iterator := (backend.call (backend.call it.iterator i).2 .atT).2, lastT := x.t,
          n := it.n + 1 }
        { r with it := (r.it.call i).2, seen := see r.seen (r.it.call i).2.current } :=
      ⟨halike', htallies.path, hordered', hseen, fun hend => absurd hend hended⟩
    have hset := h.set hit hr htallies' 0 0 fun path => by
      by_cases hpath : r.path = path
      · simp only [htallies.path, hcard, hpath, if_true, ite_self]
        omega
      · simp only [htallies.path, hpath, if_false, ite_self]
    rw [add_zero, add_zero] at hset
    simpa only [Counting.put, List.set_set] using hset

theorem step_call (h : Agrees backend c s) (handle : Nat) (i : IteratorCall) :
    (c.step backend (.call handle i)).1 = (s.step backend.samples (.call handle i)).1 ∧
      Agrees backend (c.step backend (.call handle i)).2
        (s.step backend.samples (.call handle i)).2 := by
  rw [Counting.step, Session.step]
  cases hit : c.iterators[handle]? with
  | none =>
    simp only [h.no_reading hit]
    exact ⟨trivial, h⟩
  | some it =>
    obtain ⟨r, hr, htallies⟩ := h.reading hit
    obtain ⟨hout, -⟩ := simulates_alike _ _ i htallies.alike
    simp only [hr]
    refine ⟨congrArg SeriesSetAnswer.answer hout, ?_⟩
    cases hi : moves i with
    | false =>
      simp only [Bool.false_eq_true, if_false, call_of_not_moves hi]
      rw [set_self hr]
      exact step_reads h hit hr htallies hi
    | true =>
      simp only [if_true]
      rw [hout, answer_of_moves hi]
      cases hx : (r.it.call i).2.current with
      | none =>
        have hends := step_ends h hit hr htallies hx
        rwa [hx] at hends
      | some x =>
        have hshows := step_shows h hit hr htallies hx
        rwa [hx] at hshows

include hordered in
/-- Every call is answered as it is without the counters, and what they have counted and the iterators
still keep is what has been shown. -/
theorem counting_simulates :
    Simulates (Counting.step backend) (Session.step backend.samples) (Agrees backend) := by
  intro c s call h
  cases call with
  | countSeriesSet path series => exact step_countSeriesSet h path series
  | next set => exact step_next h set
  | iterator set x reuse => exact step_iterator hordered h set x reuse
  | call handle i => exact step_call h handle i

theorem Agrees.pending_eq_zero (h : Agrees backend c s) (hended : ∀ r ∈ s.readings, Ended r.it)
    (path : FetchPath) : c.pending path = 0 := by
  refine List.sum_eq_zero fun n hn => ?_
  obtain ⟨it, hit, rfl⟩ := List.mem_map.mp hn
  obtain ⟨handle, hget⟩ := List.getElem?_of_mem hit
  obtain ⟨r, hr, htallies⟩ := h.reading hget
  rw [htallies.ended (hended r (List.mem_of_getElem? hr)), ite_self]

end

/-! ## Whole runs -/

/-- Whatever is called, on any sets and any iterators, opened anew or handed back: the answers are those
of the sets without counters, the series that have been shown are counted, and the samples that have
been shown are counted or kept by an iterator that has not come to its end. -/
theorem counting_session {H S σ : Type} (backend : Promclient.Downstream H S σ)
    (hordered : ∀ x, Ordered (backend.samples x)) (calls : List (SeriesSetCall S)) :
    outputs (Counting.step backend) (newCounting S σ) calls =
        outputs (Session.step backend.samples) (newSession H S) calls ∧
      (final (Counting.step backend) (newCounting S σ) calls).series =
        (final (Session.step backend.samples) (newSession H S) calls).series ∧
      (∀ path, (final (Counting.step backend) (newCounting S σ) calls).samples path +
          (final (Counting.step backend) (newCounting S σ) calls).pending path =
        (final (Session.step backend.samples) (newSession H S) calls).samplesShown path) ∧
      ((∀ r ∈ (final (Session.step backend.samples) (newSession H S) calls).readings, Ended r.it) →
        (final (Counting.step backend) (newCounting S σ) calls).samples =
          (final (Session.step backend.samples) (newSession H S) calls).samplesShown) := by
  have hsimulates : Simulates (Counting.step backend) (Session.step backend.samples)
      (Agrees backend) := counting_simulates hordered
  have hagrees := hsimulates.final (agrees_newCounting backend) calls
  refine ⟨hsimulates.alike (agrees_newCounting backend) calls, hagrees.series, hagrees.samples,
    fun hended => funext fun path => ?_⟩
  have hsamples := hagrees.samples path
  rwa [hagrees.pending_eq_zero hended path, Nat.add_zero] at hsamples

/-- A backend of one series, which repeats its first timestamp. -/
def repeating : Promclient.Downstream Unit Unit (ListIterator Unit) where
  samples _ := [chunkSample Unit (.float 10 .zero), chunkSample Unit (.float 10 .zero),
    chunkSample Unit (.float 25 .zero)]
  iterator _ _ := newListSeriesIterator [chunkSample Unit (.float 10 .zero),
    chunkSample Unit (.float 10 .zero), chunkSample Unit (.float 25 .zero)]
  call := ListIterator.call
  lists _ _ _ := rfl

/-- The series is read twice with one iterator, the second time by seeking, to the end. -/
def readTwice : List (SeriesSetCall Unit) :=
  [.countSeriesSet .raw [(), ()], .next 0, .iterator 0 () none, .call 0 .next, .call 0 .next,
    .call 0 .next, .next 0, .iterator 0 () (some 0), .call 0 (.seek 5), .call 0 (.seek 20),
    .call 0 (.seek 22), .call 0 .next]

theorem ordered_repeating (x : Unit) : Ordered (repeating.samples x) := by
  refine ⟨?_, ?_, ?_⟩
  · simp [repeating, chunkSample]
  · simp [repeating, chunkSample, minInt64]
  · simp [repeating, chunkSample]

/-- Both times the two timestamps count once each. -/
theorem counting_session_readTwice :
    (final (Counting.step repeating) (newCounting Unit (ListIterator Unit)) readTwice).samples =
        (final (Session.step repeating.samples) (newSession Unit Unit) readTwice).samplesShown ∧
      (final (Session.step repeating.samples) (newSession Unit Unit) readTwice).samplesShown .raw =
        4 := by
  refine ⟨(counting_session repeating ordered_repeating readTwice).2.2.2 ?_, by decide⟩
  have hlast : (final (Session.step repeating.samples) (newSession Unit Unit) readTwice).readings.map
      (fun r => decide (r.it.samples.length < r.it.reached)) = [true] := by
    decide
  intro r hr
  have hmem := List.mem_map_of_mem (f := fun r : SeriesReading Unit =>
    decide (r.it.samples.length < r.it.reached)) hr
  rw [hlast, List.mem_singleton, decide_eq_true_iff] at hmem
  exact hmem

end Proxystorage
end Proxeus
