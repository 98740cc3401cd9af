import Proxeus.Lib.Grid
import Proxeus.Promclient.Request

/-!
# Promclient.TimeFilter

`timefilter.go`: the clients that answer a request outside of a window of time with nothing, and cut
the others to the window if they are told to. The bounds of the window are two times
(`AbsoluteTimeFilter`) or two distances from the current time (`RelativeTimeFilter`). A range query
that is cut asks for the points of the caller's grid in the window, and is not sent at all if there
are none (`timeFilters_send_queryRange`); the other requests with a range are cut to the intersection
(`sendWithin_span`).

A `time.Time` is an `Int`, in nanoseconds. A bound may also be the zero time, that is no bound: `none`.
-/

namespace Proxeus
namespace Promclient

open Lib Promql

/-! ## The window -/

/-- The variables `tfStart` and `tfEnd` of the methods. -/
structure TimeWindow where
  tfStart : Option Int
  tfEnd : Option Int
deriving DecidableEq, Repr

namespace TimeWindow

variable (w : TimeWindow)

/-- `!tfStart.IsZero() && t.Before(tfStart)` -/
def startsAfter (t : Int) : Bool :=
  match w.tfStart with
  | none => false
  | some s => t < s

/-- `!tfEnd.IsZero() && t.After(tfEnd)` -/
def endsBefore (t : Int) : Bool :=
  match w.tfEnd with
  | none => false
  | some e => e < t

/-- The first check of every method. -/
def excludes (startTime endTime : Int) : Bool := w.startsAfter endTime || w.endsBefore startTime

def truncateStart (startTime : Int) : Int :=
  match w.tfStart with
  | none => startTime
  | some s => if startTime < s then s else startTime

def truncateEnd (endTime : Int) : Int :=
  match w.tfEnd with
  | none => endTime
  | some e => if e < endTime then e else endTime

/-- The start of a range query, moved to the caller's grid. With a step of zero the program panics at
the remainder. -/
def truncateRangeStart (start step : Int) : Int :=
  match w.tfStart with
  | none => start
  | some s =>
    if start < s then
      let remainder := (s - start).tmod step
      if 0 < remainder then s + (step - remainder) else s
    else start

/-- The times that the window admits. -/
def Admits (t : Int) : Prop := (∀ s ∈ w.tfStart, s ≤ t) ∧ ∀ e ∈ w.tfEnd, t ≤ e

end TimeWindow

/-! ## The clients -/

/-- The methods of a client with the window `w`: what they call on the wrapped API, if they do. -/
def sendWithin {D : Type} (w : TimeWindow) (truncate : Bool) : Request D → Option (Request D)
  | .labelNames matchers startTime endTime =>
    if w.excludes startTime endTime then none
    else if truncate then
      some (.labelNames matchers (w.truncateStart startTime) (w.truncateEnd endTime))
    else some (.labelNames matchers startTime endTime)
  | .labelValues label matchers startTime endTime =>
    if w.excludes startTime endTime then none
    else if truncate then
      some (.labelValues label matchers (w.truncateStart startTime) (w.truncateEnd endTime))
    else some (.labelValues label matchers startTime endTime)
  | .query query ts => if w.excludes ts ts then none else some (.query query ts)
  | .queryRange query start stop step =>
    if w.excludes start stop then none
    else if truncate then
      let start := w.truncateRangeStart start step
      let stop := w.truncateEnd stop
      if stop < start then none else some (.queryRange query start stop step)
    else some (.queryRange query start stop step)
  | .series matchTexts startTime endTime =>
    if w.excludes startTime endTime then none
    else if truncate then
      some (.series matchTexts (w.truncateStart startTime) (w.truncateEnd endTime))
    else some (.series matchTexts startTime endTime)
  | .getValue start stop matchers =>
    if w.excludes start stop then none
    else if truncate then some (.getValue (w.truncateStart start) (w.truncateEnd stop) matchers)
    else some (.getValue start stop matchers)
  -- the method of the wrapped API
  | .metadata metric limit => some (.metadata metric limit)
  | .queryExemplars query startTime endTime =>
    if w.excludes startTime endTime then none
    else if truncate then
      some (.queryExemplars query (w.truncateStart startTime) (w.truncateEnd endTime))
    else some (.queryExemplars query startTime endTime)

structure AbsoluteTimeFilter where
  start : Option Int
  stop : Option Int
  truncate : Bool
deriving DecidableEq, Repr

def AbsoluteTimeFilter.window (tf : AbsoluteTimeFilter) : TimeWindow := ⟨tf.start, tf.stop⟩

def AbsoluteTimeFilter.send {D : Type} (tf : AbsoluteTimeFilter) :
    Request D → Option (Request D) :=
  sendWithin tf.window tf.truncate

/-- The bounds are durations. -/
structure RelativeTimeFilter where
  start : Option Int
  stop : Option Int
  truncate : Bool
deriving DecidableEq, Repr

def RelativeTimeFilter.window (tf : RelativeTimeFilter) (now : Int) : TimeWindow :=
  ⟨tf.start.map (now + ·), tf.stop.map (now + ·)⟩

def RelativeTimeFilter.send {D : Type} (tf : RelativeTimeFilter) (now : Int) :
    Request D → Option (Request D) :=
  sendWithin (tf.window now) tf.truncate

/-! ## Truncation -/

namespace TimeWindow

variable (w : TimeWindow)

theorem startsAfter_iff (t : Int) : w.startsAfter t = true ↔ ∃ s ∈ w.tfStart, t < s := by
  unfold startsAfter
  cases w.tfStart with
  | none => simp
  | some s => simp

theorem endsBefore_iff (t : Int) : w.endsBefore t = true ↔ ∃ e ∈ w.tfEnd, e < t := by
  unfold endsBefore
  cases w.tfEnd with
  | none => simp
  | some e => simp

theorem truncateStart_le_iff (start t : Int) :
    w.truncateStart start ≤ t ↔ start ≤ t ∧ ∀ s ∈ w.tfStart, s ≤ t := by
  unfold truncateStart
  cases w.tfStart with
  | none => simp
  | some s =>
    simp only [Option.mem_def, Option.some.injEq, forall_eq']
    split
    · omega
    · omega

theorem le_truncateEnd_iff (stop t : Int) :
    t ≤ w.truncateEnd stop ↔ t ≤ stop ∧ ∀ e ∈ w.tfEnd, t ≤ e := by
  unfold truncateEnd
  cases w.tfEnd with
  | none => simp
  | some e =>
    simp only [Option.mem_def, Option.some.injEq, forall_eq']
    split
    · omega
    · omega

/-- The remainder that the methods take brings them to the next point of the grid. -/
theorem truncateRangeStart_eq {start step s : Int} (hstep : 0 < step) (hs : w.tfStart = some s)
    (hlt : start < s) : w.truncateRangeStart start step = ceilGrid start step s := by
  have hrem : (s - start).tmod step = (s - start) % step := Int.tmod_eq_emod_of_nonneg (by omega)
  have hnonneg := Int.emod_nonneg (s - start) hstep.ne'
  have hbelow := Int.emod_lt_of_pos (s - start) hstep
  have hdvd : step ∣ s - start - (s - start) % step := Int.dvd_self_sub_of_emod_eq rfl
  unfold truncateRangeStart
  simp only [hs, if_pos hlt, hrem]
  split
  · refine (ceilGrid_eq ?_ (by omega) (by omega)).symm
    have heq : s + (step - (s - start) % step) - start =
        s - start - (s - start) % step + step := by omega
    rw [heq]
    exact Int.dvd_add hdvd (Int.dvd_refl step)
  · refine (ceilGrid_eq ?_ (by omega) (by omega)).symm
    have hzero : (s - start) % step = 0 := by omega
    rwa [hzero, Int.sub_zero] at hdvd

theorem mem_grid_truncateRangeStart_iff {start step t : Int} (hstep : 0 < step) :
    t ∈ grid (w.truncateRangeStart start step) step ↔
      t ∈ grid start step ∧ ∀ s ∈ w.tfStart, s ≤ t := by
  cases hs : w.tfStart with
  | none => simp [truncateRangeStart, hs]
  | some s =>
    simp only [Option.mem_def, Option.some.injEq, forall_eq']
    rcases lt_or_ge start s with hlt | hge
    · rw [w.truncateRangeStart_eq hstep hs hlt, mem_grid_ceilGrid_iff hstep hlt.le]
    · have hkeep : w.truncateRangeStart start step = start := by
        unfold truncateRangeStart
        simp only [hs, if_neg (not_lt.mpr hge)]
      rw [hkeep]
      constructor
      · intro ht
        have := ((mem_grid_iff hstep).mp ht).1
        exact ⟨ht, by omega⟩
      · rintro ⟨ht, -⟩
        exact ht

end TimeWindow

/-! ## Range queries -/

/-- The points that a range query asks for. -/
def rangePoints (start stop step : Int) : Set Int := {t | t ∈ grid start step ∧ t ≤ stop}

/-- What is sent for a range query has exactly the points that the window admits, of the same
expression with the same step, and it is sent if there are any. -/
def AsksWithin {D : Type} (w : TimeWindow) (query : Expr D) (start stop step : Int)
    (sent : Option (Request D)) : Prop :=
  (∀ request ∈ sent, ∃ start' stop', request = .queryRange query start' stop' step ∧
    ∀ t, t ∈ rangePoints start' stop' step ↔ t ∈ rangePoints start stop step ∧ w.Admits t) ∧
  (sent = none ↔ ∀ t ∈ rangePoints start stop step, ¬ w.Admits t)

theorem mem_rangePoints_truncated_iff (w : TimeWindow) {start stop step t : Int}
    (hstep : 0 < step) :
    t ∈ rangePoints (w.truncateRangeStart start step) (w.truncateEnd stop) step ↔
      t ∈ rangePoints start stop step ∧ w.Admits t := by
  simp only [rangePoints, Set.mem_ofPred_eq, w.mem_grid_truncateRangeStart_iff hstep,
    w.le_truncateEnd_iff, TimeWindow.Admits]
  constructor
  · rintro ⟨⟨hgrid, hs⟩, hle, he⟩
    exact ⟨⟨hgrid, hle⟩, hs, he⟩
  · rintro ⟨⟨hgrid, hle⟩, hs, he⟩
    exact ⟨⟨hgrid, hs⟩, hle, he⟩

theorem start_mem_grid (start step : Int) : start ∈ grid start step := ⟨0, by simp⟩

/-- A truncated range has a point unless it ends before it starts. -/
theorem rangePoints_eq_empty_iff {start stop step : Int} (hstep : 0 < step) :
    (∀ t, t ∉ rangePoints start stop step) ↔ stop < start := by
  constructor
  · intro h
    by_contra hle
    exact h start ⟨start_mem_grid start step, by omega⟩
  · rintro hlt t ⟨hgrid, hle⟩
    have := ((mem_grid_iff hstep).mp hgrid).1
    omega

/-- The first check only answers ranges of which the window admits no point. -/
theorem not_admits_of_excludes {w : TimeWindow} {start stop step t : Int} (hstep : 0 < step)
    (h : w.excludes start stop = true) (ht : t ∈ rangePoints start stop step) : ¬ w.Admits t := by
  obtain ⟨hgrid, hle⟩ := ht
  have hge := ((mem_grid_iff hstep).mp hgrid).1
  rintro ⟨hs, he⟩
  rw [TimeWindow.excludes, Bool.or_eq_true, w.startsAfter_iff, w.endsBefore_iff] at h
  rcases h with ⟨s, hmem, hlt⟩ | ⟨e, hmem, hlt⟩
  · have := hs s hmem
    omega
  · have := he e hmem
    omega

theorem sendWithin_queryRange {D : Type} (w : TimeWindow) (query : Expr D) {start stop step : Int}
    (hstep : 0 < step) :
    AsksWithin w query start stop step (sendWithin w true (.queryRange query start stop step)) := by
  have hpoints : ∀ t,
      t ∈ rangePoints (w.truncateRangeStart start step) (w.truncateEnd stop) step ↔
        t ∈ rangePoints start stop step ∧ w.Admits t :=
    fun _ => mem_rangePoints_truncated_iff w hstep
  simp only [sendWithin, if_true]
  split
  · rename_i hex
    refine ⟨by simp, ?_⟩
    simp only [true_iff]
    intro t ht
    exact not_admits_of_excludes hstep hex ht
  · split
    · rename_i hlt
      refine ⟨by simp, ?_⟩
      simp only [true_iff]
      intro t ht hadmits
      exact (rangePoints_eq_empty_iff hstep).mpr hlt t ((hpoints t).mpr ⟨ht, hadmits⟩)
    · rename_i hle
      refine ⟨?_, ?_⟩
      · rintro request ⟨⟩
        exact ⟨_, _, rfl, hpoints⟩
      · simp only [reduceCtorEq, false_iff]
        intro hnone
        refine hle ((rangePoints_eq_empty_iff hstep).mp fun t ht => ?_)
        obtain ⟨hin, hadmits⟩ := (hpoints t).mp ht
        exact hnone t hin hadmits

/-- The times that a request is about, if it is about a range of them. -/
def Request.span {D : Type} : Request D → Option (Int × Int)
  | .labelNames _ startTime endTime => some (startTime, endTime)
  | .labelValues _ _ startTime endTime => some (startTime, endTime)
  | .series _ startTime endTime => some (startTime, endTime)
  | .getValue start stop _ => some (start, stop)
  | .queryExemplars _ startTime endTime => some (startTime, endTime)
  | _ => none

/-- A request for a range of times is sent for the times of the range that the window admits. One that
is not sent has none. -/
theorem sendWithin_span {D : Type} (w : TimeWindow) {request : Request D} {startTime endTime : Int}
    (hspan : request.span = some (startTime, endTime)) (t : Int) :
    (∃ sent ∈ sendWithin w true request, ∃ s e, sent.span = some (s, e) ∧ s ≤ t ∧ t ≤ e) ↔
      startTime ≤ t ∧ t ≤ endTime ∧ w.Admits t := by
  have hnone : w.excludes startTime endTime = true →
      ¬ (startTime ≤ t ∧ t ≤ endTime ∧ w.Admits t) := by
    rw [TimeWindow.excludes, Bool.or_eq_true, w.startsAfter_iff, w.endsBefore_iff]
    rintro (⟨s, hmem, hlt⟩ | ⟨e, hmem, hlt⟩) ⟨hge, hle, hs, he⟩
    · have := hs s hmem
      omega
    · have := he e hmem
      omega
  have hcut : w.truncateStart startTime ≤ t ∧ t ≤ w.truncateEnd endTime ↔
      startTime ≤ t ∧ t ≤ endTime ∧ w.Admits t := by
    rw [w.truncateStart_le_iff, w.le_truncateEnd_iff, TimeWindow.Admits]
    constructor
    · rintro ⟨⟨hge, hs⟩, hle, he⟩
      exact ⟨hge, hle, hs, he⟩
    · rintro ⟨hge, hle, hs, he⟩
      exact ⟨⟨hge, hs⟩, hle, he⟩
  cases request <;> simp only [Request.span, Option.some.injEq, Prod.mk.injEq, reduceCtorEq] at hspan
  all_goals
    obtain ⟨rfl, rfl⟩ := hspan
    simp only [sendWithin, if_true]
    split
    · rename_i hex
      simp [hnone hex]
    · simp [Request.span, hcut]

end Promclient
end Proxeus
