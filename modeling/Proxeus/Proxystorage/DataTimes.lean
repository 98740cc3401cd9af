import Proxeus.Proxystorage.NodeReplacerSpec

/-!
# Proxystorage.DataTimes

The data times that an expression reads when it is evaluated here, and when it has been sent to the
server groups without its offsets, for a time that the offset has been taken from. A selector is
evaluated at the times that the subqueries around it hand down (`Reading.evalTimes`), and
`removeOffset` clears its offset but not theirs. The data times stay the same if every subquery passes
the change of the time on: it has no `@`, and its step divides the offset (`Reading.Aligned`). They do
not if there is a subquery with an `@`, or the innermost one has another step (`Reading.Moved`).
-/

namespace Proxeus
namespace Proxystorage

open Promclient Promql

/-! ## Readings -/

/-- A subquery around a selector. -/
structure Enclosing where
  range : Int
  originalOffset : Int
  step : Int
  timestamp : Option Int
deriving DecidableEq, Repr

/-- A selector in a tree: the subqueries around it, the outermost first, and the range of the matrix
selector it belongs to. -/
structure Reading (D : Type) where
  subqueries : List Enclosing
  range : Option Int
  selector : VectorSelector D

/-- The times at which a subquery evaluates what is in it. -/
def Enclosing.times (noStepSubqueryInterval : Int → Int) (q : Enclosing) (t : Int) : List Int :=
  subqueryTimes noStepSubqueryInterval q.range q.originalOffset q.step q.timestamp t

/-- The times at which subqueries evaluate what is in the innermost one. -/
def evalTimes (noStepSubqueryInterval : Int → Int) : List Enclosing → Int → List Int
  | [], t => [t]
  | q :: qs, t =>
    (q.times noStepSubqueryInterval t).flatMap (evalTimes noStepSubqueryInterval qs)

namespace Reading

variable {D : Type}

/-- The data times that the selector reads at an evaluation time. -/
def window (ρ : Reading D) (t : Int) : Set Int :=
  let time := lookupTime ρ.selector.timestamp ρ.selector.originalOffset t
  match ρ.range with
  | some range => Set.Ioc (time - range) time
  | none => if ρ.selector.unexpandedSeriesSet.isSome then ∅ else {time}

/-- The reading as it is inside one more subquery. -/
def within (q : Enclosing) (ρ : Reading D) : Reading D := { ρ with subqueries := q :: ρ.subqueries }

end Reading

section

variable {D : Type}

/-- The selectors of a tree. -/
def readings : Expr D → List (Reading D)
  | .vectorSelector vs => [⟨[], none, vs⟩]
  | .matrixSelector vs range => [⟨[], some range, vs⟩]
  | .subqueryExpr expr range originalOffset _ step timestamp =>
    (readings expr).map (Reading.within ⟨range, originalOffset, step, timestamp⟩)
  | .call _ args => readings args
  | .aggregateExpr _ expr param _ _ => readings expr ++ readings param
  | .binaryExpr _ lhs rhs => readings lhs ++ readings rhs
  | .unaryExpr _ expr => readings expr
  | .parenExpr expr => readings expr
  | .stepInvariantExpr expr => readings expr
  | .argument head tail => readings head ++ readings tail
  | _ => []

/-- A tree reads what its selectors read. -/
theorem mem_reads_iff (noStepSubqueryInterval : Int → Int) (e : Expr D) (t time : Int) :
    time ∈ reads noStepSubqueryInterval e t ↔
      ∃ ρ ∈ readings e, ∃ a ∈ evalTimes noStepSubqueryInterval ρ.subqueries t, time ∈ ρ.window a := by
  induction e generalizing t with
  | vectorSelector vs =>
    cases hd : vs.unexpandedSeriesSet with
    | none => simp [reads, readings, evalTimes, Reading.window, hd]
    | some d => simp [reads, readings, evalTimes, Reading.window, hd]
  | matrixSelector vs range => simp [reads, readings, evalTimes, Reading.window]
  | subqueryExpr expr range originalOffset offset step timestamp ih =>
    simp only [reads, readings, Set.mem_ofPred_eq, ih, List.mem_map, exists_exists_and_eq_and,
      Reading.within, evalTimes, Enclosing.times, List.mem_flatMap]
    constructor
    · rintro ⟨g, hg, ρ, hρ, a, ha, htime⟩
      exact ⟨ρ, hρ, a, ⟨g, hg, ha⟩, htime⟩
    · rintro ⟨ρ, hρ, a, ⟨g, hg, ha⟩, htime⟩
      exact ⟨g, hg, ρ, hρ, a, ha, htime⟩
  | call func args ih => exact ih t
  | aggregateExpr op expr param grouping without ih ih' =>
    simp only [reads, readings, Set.mem_union, ih, ih', List.mem_append, or_and_right, exists_or]
  | binaryExpr op lhs rhs ih ih' =>
    simp only [reads, readings, Set.mem_union, ih, ih', List.mem_append, or_and_right, exists_or]
  | unaryExpr op expr ih => exact ih t
  | parenExpr expr ih => exact ih t
  | stepInvariantExpr expr ih => exact ih t
  | argument head tail ih ih' =>
    simp only [reads, readings, Set.mem_union, ih, ih', List.mem_append, or_and_right, exists_or]
  | _ => simp [reads, readings]

variable {V : Type}

theorem length_readings (e : Expr (Response V)) :
    (readings e).length = booleanFinder isVectorSelector e := by
  simp only [booleanFinder]
  induction e with
  | subqueryExpr expr range originalOffset offset step timestamp ih =>
    rw [readings, List.length_map, ih, Expr.nodes, List.filter_cons_of_neg (by simp [isVectorSelector])]
  | call func args ih =>
    rw [readings, ih, Expr.nodes, List.filter_cons_of_neg (by simp [isVectorSelector])]
  | aggregateExpr op expr param grouping without ih ih' =>
    rw [readings, List.length_append, ih, ih', Expr.nodes,
      List.filter_cons_of_neg (by simp [isVectorSelector]), List.filter_append, List.length_append]
  | binaryExpr op lhs rhs ih ih' =>
    rw [readings, List.length_append, ih, ih', Expr.nodes,
      List.filter_cons_of_neg (by simp [isVectorSelector]), List.filter_append, List.length_append]
  | unaryExpr op expr ih =>
    rw [readings, ih, Expr.nodes, List.filter_cons_of_neg (by simp [isVectorSelector])]
  | parenExpr expr ih =>
    rw [readings, ih, Expr.nodes, List.filter_cons_of_neg (by simp [isVectorSelector])]
  | stepInvariantExpr expr ih =>
    rw [readings, ih, Expr.nodes, List.filter_cons_of_neg (by simp [isVectorSelector])]
  | argument head tail ih ih' =>
    rw [readings, List.length_append, ih, ih', Expr.nodes, List.filter_append, List.length_append]
  | _ => rfl

/-- What the nodes of a tree have in common, its readings have, too. -/
theorem reading_of_nodes {P : VectorSelector (Response V) → Prop} {Q : Enclosing → Prop}
    {e : Expr (Response V)} (hP : ∀ vs, .vectorSelector vs ∈ e.nodes → P vs)
    (hQ : ∀ expr range originalOffset offset step timestamp,
      .subqueryExpr expr range originalOffset offset step timestamp ∈ e.nodes →
      Q ⟨range, originalOffset, step, timestamp⟩) {ρ : Reading (Response V)} (hρ : ρ ∈ readings e) :
    P ρ.selector ∧ ∀ q ∈ ρ.subqueries, Q q := by
  induction e generalizing ρ with
  | vectorSelector vs =>
    rw [List.mem_singleton.mp hρ]
    exact ⟨hP vs (by simp [Expr.nodes]), by simp⟩
  | matrixSelector vs range =>
    rw [List.mem_singleton.mp hρ]
    exact ⟨hP vs (by simp [Expr.nodes]), by simp⟩
  | subqueryExpr expr range originalOffset offset step timestamp ih =>
    obtain ⟨ρ', hρ', rfl⟩ := List.mem_map.mp hρ
    obtain ⟨hselector, hsubqueries⟩ := ih (fun vs h => hP vs (List.mem_cons_of_mem _ h))
      (fun _ _ _ _ _ _ h => hQ _ _ _ _ _ _ (List.mem_cons_of_mem _ h)) hρ'
    refine ⟨hselector, fun q hq => ?_⟩
    rcases List.mem_cons.mp hq with rfl | hq
    · exact hQ _ _ _ _ _ _ List.mem_cons_self
    · exact hsubqueries q hq
  | call func args ih =>
    exact ih (fun vs h => hP vs (List.mem_cons_of_mem _ h))
      (fun _ _ _ _ _ _ h => hQ _ _ _ _ _ _ (List.mem_cons_of_mem _ h)) hρ
  | aggregateExpr op expr param grouping without ih ih' =>
    simp only [Expr.nodes, List.mem_cons, reduceCtorEq, false_or, List.mem_append, or_imp,
      forall_and] at hP hQ
    rcases List.mem_append.mp hρ with hρ | hρ
    · exact ih hP.1 hQ.1 hρ
    · exact ih' hP.2 hQ.2 hρ
  | binaryExpr op lhs rhs ih ih' =>
    simp only [Expr.nodes, List.mem_cons, reduceCtorEq, false_or, List.mem_append, or_imp,
      forall_and] at hP hQ
    rcases List.mem_append.mp hρ with hρ | hρ
    · exact ih hP.1 hQ.1 hρ
    · exact ih' hP.2 hQ.2 hρ
  | unaryExpr op expr ih =>
    exact ih (fun vs h => hP vs (List.mem_cons_of_mem _ h))
      (fun _ _ _ _ _ _ h => hQ _ _ _ _ _ _ (List.mem_cons_of_mem _ h)) hρ
  | parenExpr expr ih =>
    exact ih (fun vs h => hP vs (List.mem_cons_of_mem _ h))
      (fun _ _ _ _ _ _ h => hQ _ _ _ _ _ _ (List.mem_cons_of_mem _ h)) hρ
  | stepInvariantExpr expr ih =>
    exact ih (fun vs h => hP vs (List.mem_cons_of_mem _ h))
      (fun _ _ _ _ _ _ h => hQ _ _ _ _ _ _ (List.mem_cons_of_mem _ h)) hρ
  | argument head tail ih ih' =>
    simp only [Expr.nodes, List.mem_append, or_imp, forall_and] at hP hQ
    rcases List.mem_append.mp hρ with hρ | hρ
    · exact ih hP.1 hQ.1 hρ
    · exact ih' hP.2 hQ.2 hρ
  | _ => cases hρ

/-! ## What is sent -/

/-- The reading after a walk of an `OffsetRemover`. -/
def Reading.cleared (ρ : Reading (Response V)) : Reading (Response V) :=
  { ρ with selector := { ρ.selector with originalOffset := 0 } }

theorem readings_offsetRemover (e : Expr (Response V)) :
    readings (offsetRemover e) = (readings e).map Reading.cleared := by
  induction e with
  | subqueryExpr expr range originalOffset offset step timestamp ih =>
    rw [offsetRemover, readings, readings, ih, List.map_map, List.map_map]
    rfl
  | call func args ih => exact ih
  | aggregateExpr op expr param grouping without ih ih' =>
    rw [offsetRemover, readings, readings, ih, ih', List.map_append]
  | binaryExpr op lhs rhs ih ih' =>
    rw [offsetRemover, readings, readings, ih, ih', List.map_append]
  | unaryExpr op expr ih => exact ih
  | parenExpr expr ih => exact ih
  | stepInvariantExpr expr ih => exact ih
  | argument head tail ih ih' => rw [offsetRemover, readings, readings, ih, ih', List.map_append]
  | _ => rfl

/-- A tree reads the same when it has been printed and read again. -/
theorem reads_of_reparse [Regexp] (noStepSubqueryInterval : Int → Int) {e e' : Expr (Response V)}
    (hfresh : Fresh e) (h : e.reparse = some e') (t : Int) :
    reads noStepSubqueryInterval e' t = reads noStepSubqueryInterval e t := by
  induction e generalizing e' t with
  | vectorSelector vs =>
    obtain ⟨vs', hvs', rfl⟩ := Option.map_eq_some_iff.mp h
    obtain ⟨vs'', hvs'', rfl⟩ := Option.map_eq_some_iff.mp hvs'
    rw [reads, reads, (labelMatchers_of_parseExpr hvs'').2.2.2.2, fresh_vectorSelector.mp hfresh]
  | matrixSelector vs range =>
    obtain ⟨vs', hvs', rfl⟩ := Option.map_eq_some_iff.mp h
    obtain ⟨vs'', hvs'', rfl⟩ := Option.map_eq_some_iff.mp hvs'
    rfl
  | subqueryExpr expr range originalOffset offset step timestamp ih =>
    obtain ⟨expr', hexpr, rfl⟩ := Option.map_eq_some_iff.mp h
    simp only [reads, ih (fresh_subqueryExpr.mp hfresh) hexpr]
  | call func args ih =>
    obtain ⟨args', hargs, rfl⟩ := Option.map_eq_some_iff.mp h
    exact ih (fresh_call.mp hfresh) hargs t
  | aggregateExpr op expr param grouping without ih ih' =>
    obtain ⟨expr', hexpr, h⟩ := Option.bind_eq_some_iff.mp h
    obtain ⟨param', hparam, rfl⟩ := Option.map_eq_some_iff.mp h
    have hboth := fresh_aggregateExpr.mp hfresh
    rw [reads, reads, ih hboth.1 hexpr, ih' hboth.2 hparam]
  | binaryExpr op lhs rhs ih ih' =>
    obtain ⟨lhs', hlhs, h⟩ := Option.bind_eq_some_iff.mp h
    obtain ⟨rhs', hrhs, rfl⟩ := Option.map_eq_some_iff.mp h
    have hboth := fresh_binaryExpr.mp hfresh
    rw [reads, reads, ih hboth.1 hlhs, ih' hboth.2 hrhs]
  | unaryExpr op expr ih =>
    obtain ⟨expr', hexpr, rfl⟩ := Option.map_eq_some_iff.mp h
    exact ih (fresh_unaryExpr.mp hfresh) hexpr t
  | numberLiteral val =>
    cases h
    rfl
  | stringLiteral val =>
    cases h
    rfl
  | parenExpr expr ih =>
    obtain ⟨expr', hexpr, rfl⟩ := Option.map_eq_some_iff.mp h
    exact ih (fresh_parenExpr.mp hfresh) hexpr t
  | stepInvariantExpr expr ih => exact ih (fresh_stepInvariantExpr.mp hfresh) h t
  | noExpr =>
    cases h
    rfl
  | argument head tail ih ih' =>
    obtain ⟨head', hhead, h⟩ := Option.bind_eq_some_iff.mp h
    obtain ⟨tail', htail, rfl⟩ := Option.map_eq_some_iff.mp h
    have hboth := fresh_argument.mp hfresh
    rw [reads, reads, ih hboth.1 hhead, ih' hboth.2 htail]

/-! ## The common offset -/

/-- The offset that an `OffsetFinder` looks at. -/
def offsetOf : Expr (Response V) → Option Int
  | .vectorSelector vs => some vs.originalOffset
  | .subqueryExpr _ _ originalOffset _ _ _ => some originalOffset
  | _ => none

theorem visit_cons (o : OffsetFinder) (node : Expr (Response V)) (nodes : List (Expr (Response V))) :
    o.visit (node :: nodes) =
      if ((offsetOf node).elim o o.note).err then (offsetOf node).elim o o.note
      else ((offsetOf node).elim o o.note).visit nodes := by
  cases node <;> rfl

/-- Without an error, all offsets are the one that is found. -/
theorem offset_of_visit {o : OffsetFinder} (ho : o.err = false) {nodes : List (Expr (Response V))}
    (herr : (o.visit nodes).err = false) :
    (o.found = true → (o.visit nodes).offset = o.offset) ∧
      ∀ n ∈ nodes, ∀ x, offsetOf n = some x → x = (o.visit nodes).offset := by
  induction nodes generalizing o with
  | nil => exact ⟨fun _ => rfl, by simp⟩
  | cons node nodes ih =>
    rw [visit_cons] at herr ⊢
    split at herr
    · rename_i hno
      rw [hno] at herr
      cases herr
    · rename_i hno
      rw [Bool.not_eq_true] at hno
      rw [if_neg (by simp [hno])]
      obtain ⟨hfound, hnodes⟩ := ih hno herr
      cases hx : offsetOf node with
      | none =>
        rw [hx] at hfound hnodes
        refine ⟨hfound, fun n hn x hoffset => ?_⟩
        rcases List.mem_cons.mp hn with rfl | hn
        · rw [hx] at hoffset
          cases hoffset
        · exact hnodes n hn x hoffset
      | some x =>
        rw [hx] at hfound hnodes hno
        simp only [Option.elim_some] at hfound hnodes hno ⊢
        have hnote : (o.note x).found = true ∧ (o.note x).offset = x ∧
            (o.found = true → x = o.offset) := by
          cases hf : o.found with
          | false => simp [OffsetFinder.note, hf]
          | true =>
            by_cases heq : x = o.offset
            · simp [OffsetFinder.note, hf, heq]
            · simp [OffsetFinder.note, hf, heq] at hno
        have hresult := (hfound hnote.1).trans hnote.2.1
        refine ⟨fun hf => hresult.trans (hnote.2.2 hf), fun n hn y hoffset => ?_⟩
        rcases List.mem_cons.mp hn with rfl | hn
        · rw [hx] at hoffset
          cases hoffset
          exact hresult.symm
        · exact hnodes n hn y hoffset

theorem offset_of_offsetFinder {e : Expr (Response V)} (he : isSubQuery e = false)
    (herr : (offsetFinder e).err = false) :
    ∀ n ∈ e.nodes, ∀ x, offsetOf n = some x → x = (offsetFinder e).offset := by
  have hvisit : offsetFinder e = OffsetFinder.visit ⟨false, 0, false⟩ e.nodes := by
    cases e with
    | subqueryExpr expr range originalOffset offset step timestamp => cases he
    | _ => rfl
  rw [hvisit] at herr ⊢
  exact (offset_of_visit rfl herr).2

/-! ## Changing the time -/

section

variable (noStepSubqueryInterval : Int → Int)

/-- The step of a subquery. -/
def Enclosing.interval (q : Enclosing) : Int :=
  if q.step = 0 then noStepSubqueryInterval q.range else q.step

/-- The subquery hands a change of the time by `offset` on. -/
def Enclosing.Aligned (q : Enclosing) (offset : Int) : Prop :=
  q.timestamp = none ∧ q.interval noStepSubqueryInterval ∣ offset

variable {noStepSubqueryInterval}

theorem mem_times {q : Enclosing} {t g : Int} :
    g ∈ q.times noStepSubqueryInterval t ↔
      0 < q.interval noStepSubqueryInterval ∧ q.interval noStepSubqueryInterval ∣ g ∧
        lookupTime q.timestamp q.originalOffset t - q.range < g ∧
        g ≤ lookupTime q.timestamp q.originalOffset t := by
  have htimes : q.times noStepSubqueryInterval t =
      gridTimes (lookupTime q.timestamp q.originalOffset t - q.range)
        (lookupTime q.timestamp q.originalOffset t) (q.interval noStepSubqueryInterval) := rfl
  rw [htimes]
  by_cases hpos : 0 < q.interval noStepSubqueryInterval
  · rw [mem_gridTimes hpos, and_iff_right hpos]
  · rw [gridTimes, if_pos (not_lt.mp hpos)]
    simp [hpos]

theorem mem_times_add {q : Enclosing} {offset : Int} (h : q.Aligned noStepSubqueryInterval offset)
    (t g : Int) :
    g + offset ∈ q.times noStepSubqueryInterval (t + offset) ↔
      g ∈ q.times noStepSubqueryInterval t := by
  obtain ⟨htimestamp, hdvd⟩ := h
  rw [mem_times, mem_times, htimestamp, lookupTime, lookupTime, Option.getD_none, Option.getD_none,
    Int.dvd_add_left hdvd]
  omega

theorem mem_evalTimes_add {qs : List Enclosing} {offset : Int}
    (h : ∀ q ∈ qs, q.Aligned noStepSubqueryInterval offset) (t a : Int) :
    a + offset ∈ evalTimes noStepSubqueryInterval qs (t + offset) ↔
      a ∈ evalTimes noStepSubqueryInterval qs t := by
  induction qs generalizing t with
  | nil => simp [evalTimes]
  | cons q qs ih =>
    have hq := h q List.mem_cons_self
    have hqs := ih fun q hq => h q (List.mem_cons_of_mem _ hq)
    simp only [evalTimes, List.mem_flatMap]
    constructor
    · rintro ⟨g, hg, ha⟩
      have hg' : g - offset ∈ q.times noStepSubqueryInterval t :=
        (mem_times_add hq t (g - offset)).mp (by rwa [Int.sub_add_cancel])
      refine ⟨g - offset, hg', (hqs (g - offset)).mp ?_⟩
      rwa [Int.sub_add_cancel]
    · rintro ⟨g, hg, ha⟩
      exact ⟨g + offset, (mem_times_add hq t g).mpr hg, (hqs g).mpr ha⟩

/-- The times are multiples of the step of the innermost subquery. -/
theorem dvd_of_mem_evalTimes {qs : List Enclosing} {q : Enclosing} (hq : qs.getLast? = some q)
    {t a : Int} (ha : a ∈ evalTimes noStepSubqueryInterval qs t) :
    q.interval noStepSubqueryInterval ∣ a := by
  induction qs generalizing t with
  | nil => cases hq
  | cons q' qs ih =>
    obtain ⟨g, hg, ha⟩ := List.mem_flatMap.mp ha
    cases qs with
    | nil =>
      cases hq
      rw [List.mem_singleton.mp ha]
      exact (mem_times.mp hg).2.1
    | cons q'' qs => exact ih hq ha

/-- Below a subquery with an `@`, the times do not depend on the time above. -/
theorem evalTimes_of_pinned {qs : List Enclosing} (h : ∃ q ∈ qs, q.timestamp.isSome) {t t' a : Int}
    (ha : a ∈ evalTimes noStepSubqueryInterval qs t)
    (hne : evalTimes noStepSubqueryInterval qs t' ≠ []) :
    a ∈ evalTimes noStepSubqueryInterval qs t' := by
  induction qs generalizing t t' with
  | nil =>
    obtain ⟨q, hq, -⟩ := h
    cases hq
  | cons q qs ih =>
    obtain ⟨g, hg, hag⟩ := List.mem_flatMap.mp ha
    obtain ⟨b, hb⟩ := List.exists_mem_of_ne_nil _ hne
    obtain ⟨g', hg', hbg'⟩ := List.mem_flatMap.mp hb
    rcases List.or_exists_of_exists_mem_cons h with hq | hqs
    · rw [mem_times, lookupTime_of_isSome hq _ t t'] at hg
      exact List.mem_flatMap.mpr ⟨g, mem_times.mpr hg, hag⟩
    · exact List.mem_flatMap.mpr ⟨g', hg', ih hqs hag (List.ne_nil_of_mem hbg')⟩

end

/-! ## Data times that are moved -/

/-- What a selector without an offset reads at a time. -/
def span (range : Option Int) (time : Int) : Set Int :=
  match range with
  | some range => Set.Ioc (time - range) time
  | none => {time}

theorem le_of_mem_span {range : Option Int} {time x : Int} (h : x ∈ span range time) : x ≤ time := by
  cases range with
  | some range => exact h.2
  | none => exact le_of_eq h

theorem mem_span_of_nonempty {range : Option Int} {time x : Int} (h : x ∈ span range time)
    (time' : Int) : time' ∈ span range time' := by
  cases range with
  | some range =>
    have hpos : time - range < time := lt_of_lt_of_le h.1 h.2
    exact ⟨by omega, le_rfl⟩
  | none => rfl

/-- Times that read the same have the same latest one. -/
theorem exists_latest {range : Option Int} {times times' : List Int}
    (heq : ∀ x, (∃ a ∈ times, x ∈ span range a) ↔ ∃ b ∈ times', x ∈ span range b)
    (hne : ∃ x, ∃ a ∈ times, x ∈ span range a) :
    ∃ m ∈ times, m ∈ times' ∧ (∀ a ∈ times, a ≤ m) ∧ ∀ b ∈ times', b ≤ m := by
  obtain ⟨x, a, ha, hx⟩ := hne
  have hself := mem_span_of_nonempty hx
  obtain ⟨m, hm, hmax⟩ := times.toFinset.exists_max_image id ⟨a, List.mem_toFinset.mpr ha⟩
  rw [List.mem_toFinset] at hm
  have hle : ∀ b ∈ times', b ≤ m := by
    intro b hb
    obtain ⟨a, ha, hba⟩ := (heq b).mpr ⟨b, hb, hself b⟩
    exact (le_of_mem_span hba).trans (hmax a (List.mem_toFinset.mpr ha))
  obtain ⟨b, hb, hmb⟩ := (heq m).mp ⟨m, hm, hself m⟩
  have hbm : b = m := le_antisymm (hle b hb) (le_of_mem_span hmb)
  exact ⟨m, hm, hbm ▸ hb, fun a ha => hmax a (List.mem_toFinset.mpr ha), hle⟩

section

variable (noStepSubqueryInterval : Int → Int)

/-- A change of the time by `offset` gets past all subqueries. -/
def Reading.Aligned (ρ : Reading (Response V)) (offset : Int) : Prop :=
  ∀ q ∈ ρ.subqueries, q.Aligned noStepSubqueryInterval offset

/-- A change of the time by `offset` is lost at a subquery with an `@`, or does not fit the step of the
innermost one. -/
def Reading.Moved (ρ : Reading (Response V)) (offset : Int) : Prop :=
  (∃ q ∈ ρ.subqueries, q.timestamp.isSome) ∨
    ∃ q, ρ.subqueries.getLast? = some q ∧ ¬ q.interval noStepSubqueryInterval ∣ offset

variable {noStepSubqueryInterval} {qs : List Enclosing} {offset t : Int}

/-- The times before and after a change of the time by the offset have no latest one in common. -/
theorem no_latest {ρ : Reading (Response V)} (hmoved : ρ.Moved noStepSubqueryInterval offset)
    (hoffset : offset ≠ 0) {m : Int}
    (hm : m + offset ∈ evalTimes noStepSubqueryInterval ρ.subqueries t)
    (hm' : m ∈ evalTimes noStepSubqueryInterval ρ.subqueries (t - offset))
    (hmax : ∀ a ∈ evalTimes noStepSubqueryInterval ρ.subqueries t, a - offset ≤ m)
    (hmax' : ∀ b ∈ evalTimes noStepSubqueryInterval ρ.subqueries (t - offset), b ≤ m) : False := by
  rcases hmoved with hpinned | ⟨q, hq, hdvd⟩
  · -- both are all the times below the `@`
    have hle := hmax' _ (evalTimes_of_pinned hpinned hm (List.ne_nil_of_mem hm'))
    have hle' := hmax _ (evalTimes_of_pinned hpinned hm' (List.ne_nil_of_mem hm))
    omega
  · exact hdvd ((Int.dvd_add_right (dvd_of_mem_evalTimes hq hm')).mp (dvd_of_mem_evalTimes hq hm))

end

/-! ## What is read -/

section

variable [Regexp] [Engine V] {p : ProxyStorage V} {node : Expr (Response V)}
  {path : List (Expr (Response V))} {r : Prepared}

omit [Regexp] in
/-- The selector and the subqueries of an accepted tree have one offset. -/
theorem Accepted.reading_offset (h : Accepted p node path r) (hnode : isSubQuery node = false)
    {ρ : Reading (Response V)} (hρ : ρ ∈ readings node) :
    ρ.selector.originalOffset = r.offset ∧ ∀ q ∈ ρ.subqueries, q.originalOffset = r.offset := by
  have hoffset := offset_of_offsetFinder hnode h.found.2
  rw [h.offset]
  exact reading_of_nodes (P := fun vs => vs.originalOffset = (offsetFinder node).offset)
    (Q := fun q => q.originalOffset = (offsetFinder node).offset)
    (fun vs hvs => hoffset _ hvs _ rfl) (fun _ _ _ _ _ _ hq => hoffset _ hq _ rfl) hρ

omit [Regexp] in
theorem Accepted.timestamp_eq_none (h : Accepted p node path r) (hkeep : r.keepOffsets = false)
    {ρ : Reading (Response V)} (hρ : ρ ∈ readings node) : ρ.selector.timestamp = none := by
  have hnone : ∀ vs, .vectorSelector vs ∈ node.nodes → vs.timestamp = none := by
    intro vs hvs
    by_contra hsome
    have hpos : 0 < booleanFinder hasTimestamp node :=
      List.length_pos_of_mem (List.mem_filter.mpr ⟨hvs, Option.isSome_iff_ne_none.mpr hsome⟩)
    have hkept := h.keepOffsets.mpr (Or.inl hpos)
    rw [hkeep] at hkept
    cases hkept
  exact (reading_of_nodes (P := fun vs => vs.timestamp = none) (Q := fun _ => True) hnone
    (fun _ _ _ _ _ _ _ => trivial) hρ).1

omit [Regexp] [Engine V] in
theorem window_eq_span {ρ : Reading (Response V)} (htimestamp : ρ.selector.timestamp = none)
    (hdata : ρ.selector.unexpandedSeriesSet = none) (t : Int) :
    ρ.window t = span ρ.range (t - ρ.selector.originalOffset) := by
  rw [Reading.window, lookupTime, htimestamp, hdata]
  cases ρ.range with
  | some range => rfl
  | none => rfl

omit [Regexp] [Engine V] in
theorem data_of_fresh (hfresh : Fresh node) {ρ : Reading (Response V)} (hρ : ρ ∈ readings node) :
    ρ.selector.unexpandedSeriesSet = none :=
  (reading_of_nodes (P := fun vs => vs.unexpandedSeriesSet = none) (Q := fun _ => True) hfresh
    (fun _ _ _ _ _ _ _ => trivial) hρ).1

variable {noStepSubqueryInterval : Int → Int}

omit [Regexp] in
theorem Accepted.mem_reads (h : Accepted p node path r) (hnode : isSubQuery node = false)
    (hfresh : Fresh node) (hkeep : r.keepOffsets = false) (t x : Int) :
    x ∈ reads noStepSubqueryInterval node t ↔
      ∃ ρ ∈ readings node, ∃ a ∈ evalTimes noStepSubqueryInterval ρ.subqueries t,
        x ∈ span ρ.range (a - r.offset) := by
  rw [mem_reads_iff]
  refine exists_congr fun ρ => and_congr_right fun hρ => exists_congr fun a => and_congr_right fun _ => ?_
  rw [window_eq_span (h.timestamp_eq_none hkeep hρ) (data_of_fresh hfresh hρ),
    (h.reading_offset hnode hρ).1]

omit [Regexp] in
theorem Accepted.mem_reads_removeOffset (h : Accepted p node path r) (hfresh : Fresh node)
    (hkeep : r.keepOffsets = false) (t x : Int) :
    x ∈ reads noStepSubqueryInterval (removeOffset r node) t ↔
      ∃ ρ ∈ readings node, ∃ b ∈ evalTimes noStepSubqueryInterval ρ.subqueries t,
        x ∈ span ρ.range b := by
  rw [removeOffset, hkeep, if_neg (by simp), mem_reads_iff, readings_offsetRemover]
  simp only [List.mem_map, exists_exists_and_eq_and]
  refine exists_congr fun ρ => and_congr_right fun hρ => exists_congr fun a => and_congr_right fun _ => ?_
  have htimestamp := h.timestamp_eq_none hkeep hρ
  have hdata := data_of_fresh hfresh hρ
  rw [@window_eq_span _ ρ.cleared htimestamp hdata]
  show x ∈ span ρ.range (a - 0) ↔ _
  rw [Int.sub_zero]

/-- What is read by an expression that is sent, at the time the engine will look its result up for, is
what the expression reads, if the offsets are kept, or are zero, or every subquery hands the change of
the time on. Otherwise, unless it is only an outer subquery whose step does not fit, the two are the
same only where nothing is read. -/
theorem sent_reads_iff (p : ProxyStorage V) (node : Expr (Response V))
    (hnode : isSubQuery node = false) (hfresh : Fresh node) (path : List (Expr (Response V)))
    (r : Prepared) (hprepare : prepare p node path = .ok (.inr r)) (sent : Expr (Response V))
    (hsent : (removeOffset r node).reparse = some sent) (noStepSubqueryInterval : Int → Int) :
    (∀ t, lookupTime none r.synthOffset t = t - r.reqOffset) ∧
    (r.keepOffsets = true ∨ r.offset = 0 ∨
        (∀ ρ ∈ readings node, ρ.Aligned noStepSubqueryInterval r.offset) →
      ∀ t, reads noStepSubqueryInterval sent (t - r.reqOffset) =
        reads noStepSubqueryInterval node t) ∧
    (r.keepOffsets = false → r.offset ≠ 0 →
        (∃ ρ ∈ readings node, ρ.Moved noStepSubqueryInterval r.offset) →
      ∀ t, reads noStepSubqueryInterval sent (t - r.reqOffset) =
          reads noStepSubqueryInterval node t ↔
        reads noStepSubqueryInterval sent (t - r.reqOffset) = ∅ ∧
          reads noStepSubqueryInterval node t = ∅) := by
  have h := prepare_eq_inr hprepare
  have hreparse : ∀ t, reads noStepSubqueryInterval sent t =
      reads noStepSubqueryInterval (removeOffset r node) t :=
    reads_of_reparse noStepSubqueryInterval (fresh_removeOffset r hfresh) hsent
  refine ⟨fun t => by rw [h.synthOffset]; rfl, fun hsame t => ?_, fun hkeep hoffset hmoved t => ?_⟩
  · rw [hreparse]
    cases hkeep : r.keepOffsets with
    | true => rw [h.reqOffset, hkeep, if_pos rfl, Int.sub_zero, removeOffset, hkeep, if_pos rfl]
    | false =>
      rw [h.reqOffset, hkeep, if_neg (by simp)]
      ext x
      rw [h.mem_reads_removeOffset hfresh hkeep, h.mem_reads hnode hfresh hkeep]
      refine exists_congr fun ρ => and_congr_right fun hρ => ?_
      rcases hsame with htrue | hzero | haligned
      · rw [hkeep] at htrue
        cases htrue
      · simp only [hzero, Int.sub_zero]
      · have hadd := mem_evalTimes_add (haligned ρ hρ) (t - r.offset)
        rw [Int.sub_add_cancel] at hadd
        constructor
        · rintro ⟨b, hb, hx⟩
          exact ⟨b + r.offset, (hadd b).mpr hb, by rwa [Int.add_sub_cancel]⟩
        · rintro ⟨a, ha, hx⟩
          exact ⟨a - r.offset, (hadd _).mp (by rwa [Int.sub_add_cancel]), hx⟩
  · obtain ⟨ρ, hρ, hmoved⟩ := hmoved
    have honly : readings node = [ρ] := by
      have hlen := h.selectors hnode
      rw [← length_readings] at hlen
      obtain ⟨ρ', hρ'⟩ := List.length_eq_one_iff.mp
        (le_antisymm hlen (List.length_pos_of_mem hρ))
      rw [hρ'] at hρ ⊢
      rw [List.mem_singleton.mp hρ]
    have hreq : r.reqOffset = r.offset := by rw [h.reqOffset, hkeep, if_neg (by simp)]
    have hbefore : ∀ x, x ∈ reads noStepSubqueryInterval node t ↔
        ∃ a ∈ (evalTimes noStepSubqueryInterval ρ.subqueries t).map (· - r.offset),
          x ∈ span ρ.range a := by
      intro x
      rw [h.mem_reads hnode hfresh hkeep, honly]
      simp
    have hafter : ∀ x, x ∈ reads noStepSubqueryInterval sent (t - r.reqOffset) ↔
        ∃ b ∈ evalTimes noStepSubqueryInterval ρ.subqueries (t - r.offset), x ∈ span ρ.range b := by
      intro x
      rw [hreparse, hreq, h.mem_reads_removeOffset hfresh hkeep, honly]
      simp
    refine ⟨fun heq => ?_, fun hempty => hempty.1.trans hempty.2.symm⟩
    rw [heq, and_self]
    by_contra hne
    obtain ⟨x, hx⟩ := Set.nonempty_iff_ne_empty.mpr hne
    obtain ⟨m, hm, hm', hmax, hmax'⟩ := exists_latest
      (fun x => (hbefore x).symm.trans ((Set.ext_iff.mp heq x).symm.trans (hafter x)))
      ⟨x, (hbefore x).mp hx⟩
    obtain ⟨a, ha, rfl⟩ := List.mem_map.mp hm
    refine no_latest hmoved hoffset (by rwa [Int.sub_add_cancel]) hm' (fun a' ha' => ?_) hmax'
    exact hmax _ (List.mem_map_of_mem ha')

end

end

section

attribute [local instance] sortingLibraries

/-- `foo offset 5m` -/
def fooEarlier : VectorSelector (Response ℚ) := ⟨"foo", [nameMatcher "foo"], 300000, none, 0, none⟩

def preparedEarlier : Prepared := ⟨300000, 300000, 300000, false, none, 0⟩

/-- `rate(foo[10m] offset 5m)` -/
theorem sent_reads_rate :
    ∃ sent, (removeOffset preparedEarlier (.call "rate"
        (.argument (.matrixSelector fooEarlier 600000) .noExpr))).reparse = some sent ∧
      ∀ t, reads (fun _ => 60000) sent (t - 300000) = reads (fun _ => 60000)
        (.call "rate" (.argument (.matrixSelector fooEarlier 600000) .noExpr)) t := by
  refine ⟨_, rfl, ?_⟩
  refine (sent_reads_iff (answering ⟨[], false⟩) (.call "rate"
    (.argument (.matrixSelector fooEarlier 600000) .noExpr)) rfl (by simp [fooEarlier]) []
    preparedEarlier (by decide +kernel) _ rfl fun _ => 60000).2.1 (Or.inr (Or.inr fun ρ hρ => ?_))
  rw [List.mem_singleton.mp hρ]
  exact fun q hq => absurd hq List.not_mem_nil

/-- `max_over_time((foo offset 5m)[10m:1m] @ 1000 offset 5m)`: the offset of the selector is cleared,
and the time of the request does not matter below the `@`. -/
theorem sent_reads_moved :
    ∃ r sent, prepare (answering ⟨[], false⟩) (.call "max_over_time" (.argument
        (.subqueryExpr (.parenExpr (.vectorSelector fooEarlier)) 600000 300000 300000 60000
          (some 1000000)) .noExpr)) [] = .ok (.inr r) ∧
      (removeOffset r (.call "max_over_time" (.argument
        (.subqueryExpr (.parenExpr (.vectorSelector fooEarlier)) 600000 300000 300000 60000
          (some 1000000)) .noExpr))).reparse = some sent ∧
      reads (fun _ => 60000) sent (1000000 - r.reqOffset) ≠ reads (fun _ => 60000)
        (.call "max_over_time" (.argument
          (.subqueryExpr (.parenExpr (.vectorSelector fooEarlier)) 600000 300000 300000 60000
            (some 1000000)) .noExpr)) 1000000 := by
  refine ⟨_, _, rfl, rfl, fun heq => ?_⟩
  have hsent : (660000 : Int) ∈ reads (fun _ => 60000) (D := Response ℚ) (.call "max_over_time"
      (.argument (.subqueryExpr (.parenExpr (.vectorSelector { fooEarlier with originalOffset := 0 }))
        600000 300000 300000 60000 (some 1000000)) .noExpr)) (1000000 - 300000) :=
    Or.inl ⟨660000, by decide, rfl⟩
  rcases (heq ▸ hsent : (660000 : Int) ∈ reads (fun _ => 60000) (D := Response ℚ)
      (.call "max_over_time" (.argument (.subqueryExpr (.parenExpr (.vectorSelector fooEarlier)) 600000
        300000 300000 60000 (some 1000000)) .noExpr)) 1000000) with ⟨g, hg, hread⟩ | hnone
  · obtain ⟨-, -, -, hle⟩ := (mem_times (q := ⟨600000, 300000, 60000, some 1000000⟩)).mp hg
    have hread : (660000 : Int) = g - 300000 := hread
    have hle : g ≤ 1000000 - 300000 := hle
    omega
  · exact hnone

end

end Proxystorage
end Proxeus
