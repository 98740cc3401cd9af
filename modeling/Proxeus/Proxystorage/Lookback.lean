import Proxeus.Proxystorage.NodeReplacerSpec

/-!
# Proxystorage.Lookback

What the engine sees of the responses that `NodeReplacer` has put into selectors. The engine takes the
latest sample of its own lookback, so a sample is seen again at every later step that has none, up to
the lookback (`lookup_eq_sampleAt_iff`). Only the arm for calls fills these steps with stale markers
(`lookup_fillStaleNaNGaps`); the others hand the response on as it is (`Answers`).
-/

namespace Proxeus
namespace Proxystorage

open Lib Promclient Promql

section

variable {V : Type}

/-! ## The latest sample -/

/-- The sample of a series at a time. -/
def ResponseSeries.sampleAt (s : ResponseSeries V) (time : Int) : Option V :=
  (s.samples.find? fun p => p.1 = time).bind fun p => p.2.value

/-- A series as a range query returns it: its samples ascend in time, and none of them is stale. -/
structure ResponseSeries.WellFormed (s : ResponseSeries V) : Prop where
  ascending : s.samples.Pairwise fun p q => p.1 < q.1
  fresh : ∀ p ∈ s.samples, p.2.value.isSome

section

variable {lookback time : Int} {samples : List (Int × Point V)}

theorem latest_eq_none_iff :
    latest lookback samples time = none ↔
      ∀ p ∈ samples, ¬ (time - lookback < p.1 ∧ p.1 ≤ time) := by
  simp [latest]

theorem mem_of_latest {p : Int × Point V} (h : latest lookback samples time = some p) :
    p ∈ samples ∧ time - lookback < p.1 ∧ p.1 ≤ time := by
  simpa using List.mem_of_getLast? h

/-- The sample at the time itself is the latest one. -/
theorem latest_of_mem (h : 0 < lookback) (hasc : samples.Pairwise fun p q => p.1 < q.1)
    {p : Int × Point V} (hp : p ∈ samples) (htime : p.1 = time) :
    latest lookback samples time = some p := by
  have hmem : p ∈ samples.filter fun p => time - lookback < p.1 ∧ p.1 ≤ time :=
    List.mem_filter.mpr ⟨hp, by simp; omega⟩
  cases hl : latest lookback samples time with
  | none => exact absurd ⟨by omega, by omega⟩ (latest_eq_none_iff.mp hl p hp)
  | some q =>
    obtain ⟨init, hinit⟩ := List.getLast?_eq_some_iff.mp hl
    have hpw := hasc.filter fun p => decide (time - lookback < p.1 ∧ p.1 ≤ time)
    rw [hinit] at hmem hpw
    rcases List.mem_append.mp hmem with hlt | heq
    · have hlater := (List.pairwise_append.mp hpw).2.2 p hlt q List.mem_cons_self
      have hq := (mem_of_latest hl).2.2
      omega
    · rw [List.mem_singleton.mp heq]

end

theorem sampleAt_eq_none_iff {s : ResponseSeries V} (h : s.WellFormed) {time : Int} :
    s.sampleAt time = none ↔ ∀ p ∈ s.samples, p.1 ≠ time := by
  rw [ResponseSeries.sampleAt]
  cases hf : s.samples.find? fun p => p.1 = time with
  | none =>
    simp only [Option.bind_none, true_iff]
    simpa using List.find?_eq_none.mp hf
  | some p =>
    have hmem := List.mem_of_find?_eq_some hf
    have htime : p.1 = time := by simpa using List.find?_some hf
    have hsome := h.fresh p hmem
    rw [Option.bind_some, ← Option.not_isSome_iff_eq_none]
    exact iff_of_false (not_not.mpr hsome) fun hno => hno p hmem htime

/-- A series is seen as it is at a time exactly if it has a sample then, or none within the lookback
before. -/
theorem lookup_eq_sampleAt_iff {lookback : Int} (hlookback : 0 < lookback) {s : ResponseSeries V}
    (h : s.WellFormed) (time : Int) :
    s.lookup lookback time = s.sampleAt time ↔
      (s.sampleAt time = none → ∀ p ∈ s.samples, ¬ (time - lookback < p.1 ∧ p.1 < time)) := by
  by_cases hnone : s.sampleAt time = none
  · have hno := (sampleAt_eq_none_iff h).mp hnone
    have hlookup : s.lookup lookback time = none ↔ latest lookback s.samples time = none := by
      rw [ResponseSeries.lookup]
      cases hl : latest lookback s.samples time with
      | none => simp
      | some p =>
        have hsome := h.fresh p (mem_of_latest hl).1
        simpa [Option.isSome_iff_ne_none] using hsome
    rw [hnone, hlookup, latest_eq_none_iff, eq_self_iff_true, true_imp_iff]
    exact forall₂_congr fun p hp => not_congr (and_congr_right fun _ =>
      ⟨fun hle => lt_of_le_of_ne hle (hno p hp), le_of_lt⟩)
  · refine iff_of_true ?_ fun h' => absurd h' hnone
    rw [ResponseSeries.lookup, ResponseSeries.sampleAt]
    cases hf : s.samples.find? fun p => p.1 = time with
    | none =>
      rw [ResponseSeries.sampleAt, hf] at hnone
      exact absurd rfl hnone
    | some p =>
      have htime : p.1 = time := by simpa using List.find?_some hf
      rw [latest_of_mem hlookback h.ascending (List.mem_of_find?_eq_some hf) htime]

/-! ## The answers of the arms -/

/-- Every selector with data has the response to a request at the times it will look up. -/
def Answers (p : ProxyStorage V) (s : EvalStmt) (e : Expr (Response V)) : Prop :=
  ∀ vs, .vectorSelector vs ∈ e.nodes → ∀ d, vs.unexpandedSeriesSet = some d →
    vs.timestamp = none ∧ ∃ aggregatePushdown query,
      d = p.client.queryRange aggregatePushdown query (s.start - vs.originalOffset)
        (s.stop - vs.originalOffset) s.interval

theorem Fresh.answers {p : ProxyStorage V} {s : EvalStmt} {e : Expr (Response V)} (h : Fresh e) :
    Answers p s e := by
  intro vs hvs d hd
  rw [h vs hvs] at hd
  cases hd

/-! ## The arms -/

section

variable {p : ProxyStorage V} {s : EvalStmt} {r : Prepared}

theorem answers_vectorSelector {vs : VectorSelector (Response V)} (htimestamp : vs.timestamp = none)
    (h : ∃ aggregatePushdown query, vs.unexpandedSeriesSet =
      some (p.client.queryRange aggregatePushdown query (s.start - vs.originalOffset)
        (s.stop - vs.originalOffset) s.interval)) :
    Answers p s (.vectorSelector vs) := by
  obtain ⟨aggregatePushdown, query, hquery⟩ := h
  intro vs' hvs' d hd
  simp only [Expr.nodes, List.mem_singleton, Expr.vectorSelector.injEq] at hvs'
  subst hvs'
  exact ⟨htimestamp, aggregatePushdown, query, Option.some.inj (hd.symm.trans hquery)⟩

theorem answers_responseSelector (hinterval : 0 < s.interval) (hsynth : r.synthOffset = r.reqOffset)
    (aggregatePushdown : Bool) (query : Expr (Response V)) (name : String)
    (labelMatchers : List Matcher) :
    Answers p s (.vectorSelector { responseSelector s r (request p s r aggregatePushdown query) with
      name, labelMatchers }) :=
  answers_vectorSelector rfl ⟨aggregatePushdown, query, by
    simp only [responseSelector, request, if_pos hinterval, hsynth]⟩

theorem answers_aggregateExpr {expr param : Expr (Response V)} (h : Answers p s expr)
    (hparam : Fresh param) (op : ItemType) (grouping : List String) (without : Bool) :
    Answers p s (.aggregateExpr op expr param grouping without) := by
  intro vs hvs
  simp only [Expr.nodes, List.mem_cons, reduceCtorEq, false_or, List.mem_append] at hvs
  rcases hvs with hvs | hvs
  · exact h vs hvs
  · exact hparam.answers vs hvs

theorem answers_replaceAggregate [Regexp] (hinterval : 0 < s.interval)
    (hsynth : r.synthOffset = r.reqOffset) {op : ItemType} {expr param : Expr (Response V)}
    {grouping : List String} {without : Bool}
    (hfresh : Fresh (.aggregateExpr op expr param grouping without)) {node : Expr (Response V)}
    (h : (replaceAggregate p s r op expr param grouping without).outcome = .pushed node) :
    Answers p s node := by
  have hparam := (fresh_aggregateExpr.mp hfresh).2
  have hselector := fun query => answers_responseSelector (p := p) hinterval hsynth true query "" []
  have hreplaced : ∀ (lossy : Bool) (query ast ast' : Expr (Response V)) (outer : ItemType)
      (offsets : List Int),
      (if lossy then (⟨.fallback .lossyHistogram, ast, offsets⟩ : Visit V)
        else ⟨.pushed (.aggregateExpr outer
          (.vectorSelector (responseSelector s r (request p s r true query)))
          (removeOffset r param) grouping without), ast', offsets⟩).outcome = .pushed node →
      Answers p s node := by
    intro lossy query ast ast' outer offsets hn
    cases lossy with
    | true => cases hn
    | false =>
      cases hn
      exact answers_aggregateExpr (hselector query) (fresh_removeOffset r hparam) _ _ _
  unfold replaceAggregate at h
  cases hdata : hasData expr with
  | true =>
    rw [hdata] at h
    cases h
  | false =>
    rw [hdata] at h
    cases op with
    | avg =>
      simp only [Bool.false_eq_true, if_false] at h
      split at h
      · exact hreplaced _ _ _ _ _ _ h
      · split at h
        · cases h
          refine Fresh.answers ?_
          simp [fresh_preserveLabel]
        · cases h
          refine Fresh.answers ?_
          simp [fresh_cloneExpr, hparam]
    | countValues =>
      simp only [Bool.false_eq_true, if_false] at h
      split at h
      · split at h
        · cases h
        · cases h
          exact answers_aggregateExpr (hselector _) fresh_noExpr _ _ _
      · cases h
    | quantile => cases h
    | stddev => cases h
    | stdvar => cases h
    | limitk => cases h
    | limitRatio => cases h
    | _ => exact hreplaced _ _ _ _ _ _ h

theorem answers_replaceVectorSelector (hinterval : 0 < s.interval)
    (hsynth : r.synthOffset = r.reqOffset) {path : List (Expr (Response V))}
    {vs : VectorSelector (Response V)} (hoffset : vs.timestamp = none → r.offset = r.reqOffset)
    {visit : Visit V} (hvisit : replaceVectorSelector p s r path vs = .ok visit)
    {node : Expr (Response V)} (h : visit.outcome = .pushed node) : Answers p s node := by
  simp only [replaceVectorSelector] at hvisit
  split at hvisit
  · cases hvisit
    cases h
  · split at hvisit
    · cases hvisit
      cases h
    · split at hvisit
      · cases hvisit
      · split at hvisit
        · cases hvisit
          cases h
        · cases htimestamp : vs.timestamp with
          | some ts =>
            rw [htimestamp] at hvisit
            cases hvisit
            cases h
            exact answers_responseSelector hinterval hsynth _ _ _ _
          | none =>
            rw [htimestamp] at hvisit
            cases hvisit
            cases h
            refine answers_vectorSelector htimestamp ⟨false, .vectorSelector (tightenedSelector s r vs), ?_⟩
            simp only [request, if_pos hinterval, hoffset htimestamp]

theorem answers_replaceBinary (hinterval : 0 < s.interval) (hsynth : r.synthOffset = r.reqOffset)
    {op : String} {lhs rhs : Expr (Response V)} {visit : Visit V}
    (hvisit : replaceBinary p s r op lhs rhs = .ok visit) {node : Expr (Response V)}
    (h : visit.outcome = .pushed node) : Answers p s node := by
  have hsent : ∀ {operands : VectorSelector (Response V) → Expr (Response V)}
      {vs : VectorSelector (Response V)},
      vectorBinaryExpr p s r operands vs = .ok visit → Answers p s node := by
    intro operands vs hvisit
    simp only [vectorBinaryExpr] at hvisit
    split at hvisit
    · cases hvisit
    · split at hvisit
      · cases hvisit
        cases h
      · cases hvisit
        cases h
        exact answers_responseSelector hinterval hsynth _ _ _ _
  simp only [replaceBinary] at hvisit
  split at hvisit
  · split at hvisit
    · exact hsent hvisit
    · cases hvisit
      cases h
  · split at hvisit
    · split at hvisit
      · exact hsent hvisit
      · cases hvisit
        cases h
    · cases hvisit
      cases h

/-- Every arm but the ones for calls and subqueries gives the engine the responses as they are. -/
theorem answers_nodeReplacer [Regexp] [Engine V]
    {inspect : EvalStmt → Expr (Response V) → Except Failure (Expr (Response V) × Bool)}
    {path : List (Expr (Response V))} {node : Expr (Response V)} (hinterval : 0 < s.interval)
    (hfresh : Fresh node)
    (harm : isAgg node = true ∨ isVectorSelector node = true ∨ isBinaryExpr node = true)
    {visit : Visit V} (hvisit : nodeReplacer p inspect s path node = .ok visit)
    {replacement : Expr (Response V)} (h : visit.outcome = .pushed replacement) :
    Answers p s replacement := by
  obtain ⟨prepared, hprepare, hvisit⟩ := bind_eq_ok hvisit
  cases prepared with
  | inl reason =>
    cases hvisit
    cases h
  | inr r =>
    have haccepted := prepare_eq_inr hprepare
    obtain ⟨visit', hnode, rfl⟩ := map_eq_ok hvisit
    have h' : visit'.outcome = .pushed replacement := by
      cases ho : visit'.outcome with
      | pushed n =>
        simp only [ho] at h
        exact h
      | fallback reason =>
        simp only [ho] at h
        cases h
      | revisit =>
        simp only [ho] at h
        cases h
    cases node with
    | aggregateExpr op expr param grouping without =>
      cases hnode
      exact answers_replaceAggregate hinterval haccepted.synthOffset hfresh h'
    | vectorSelector vs =>
      refine answers_replaceVectorSelector hinterval haccepted.synthOffset (fun hnone => ?_) hnode h'
      have hkeep : r.keepOffsets = false := by
        rw [← Bool.not_eq_true, haccepted.keepOffsets]
        simp [booleanFinder, Expr.nodes, hasTimestamp, isAtModifierUnsafeCall, hnone]
      rw [haccepted.reqOffset, hkeep]
      rfl
    | binaryExpr op lhs rhs =>
      exact answers_replaceBinary hinterval haccepted.synthOffset hnode h'
    | _ => simp [isAgg, isVectorSelector, isBinaryExpr] at harm

/-- What the engine sees of the response in a selector is the response, exactly if every series that
lacks a sample at a step has none within the lookback before that step. -/
theorem seen_eq_returned_iff [Regexp] [Engine V] (p : ProxyStorage V)
    (inspect : EvalStmt → Expr (Response V) → Except Failure (Expr (Response V) × Bool))
    (s : EvalStmt) (hinterval : 0 < s.interval) (path : List (Expr (Response V)))
    (node : Expr (Response V)) (hfresh : Fresh node)
    (harm : isAgg node = true ∨ isVectorSelector node = true ∨ isBinaryExpr node = true)
    (visit : Visit V) (hvisit : nodeReplacer p inspect s path node = .ok visit)
    (replacement : Expr (Response V)) (h : visit.outcome = .pushed replacement)
    (vs : VectorSelector (Response V)) (hvs : .vectorSelector vs ∈ replacement.nodes)
    (d : Response V) (hd : vs.unexpandedSeriesSet = some d) (hd' : ∀ σ ∈ d.series, σ.WellFormed)
    (lookback : Int) (hlookback : 0 < lookback) :
    (∃ aggregatePushdown query,
      d = p.client.queryRange aggregatePushdown query (s.start - vs.originalOffset)
        (s.stop - vs.originalOffset) s.interval) ∧
    ((∀ t ∈ stepTimes s.start s.stop s.interval, ∀ σ ∈ d.series,
        σ.lookup lookback (lookupTime vs.timestamp vs.originalOffset t) =
          σ.sampleAt (t - vs.originalOffset)) ↔
      ∀ t ∈ stepTimes s.start s.stop s.interval, ∀ σ ∈ d.series,
        σ.sampleAt (t - vs.originalOffset) = none →
        ∀ q ∈ σ.samples,
          ¬ (t - vs.originalOffset - lookback < q.1 ∧ q.1 < t - vs.originalOffset)) := by
  obtain ⟨htimestamp, hquery⟩ := answers_nodeReplacer hinterval hfresh harm hvisit h vs hvs d hd
  refine ⟨hquery, forall₄_congr fun t _ σ hσ => ?_⟩
  rw [htimestamp, lookupTime, Option.getD_none]
  exact lookup_eq_sampleAt_iff hlookback (hd' σ hσ) _

end

/-! ## The arm for calls -/

theorem ascending_filled {samples : List (Int × Point V)}
    (hasc : samples.Pairwise fun p q => p.1 < q.1) {times : List Int} (hnodup : times.Nodup) :
    (sortBy Prod.fst (samples ++
      (times.filter fun ts => ts ∉ samples.map Prod.fst).map fun ts => (ts, Point.staleNaN))).Pairwise
      fun p q => p.1 < q.1 := by
  refine ascending_sortBy_iff.mpr ?_
  rw [List.map_append, List.map_map, List.nodup_append]
  refine ⟨Ascending.nodup_keys hasc, ?_, ?_⟩
  · exact (hnodup.filter _).map fun _ _ h => h
  · intro t ht t' ht'
    obtain ⟨ts, hts, rfl⟩ := List.mem_map.mp ht'
    have hnot : ts ∉ samples.map Prod.fst := by simpa using (List.mem_filter.mp hts).2
    rintro rfl
    exact hnot ht

/-- A response whose gaps are filled is seen as it was returned. -/
theorem lookup_fillStaleNaNGaps {ss : Response V} {start stop step lookback : Int}
    (hlookback : 0 < lookback) {σ : ResponseSeries V} (hσ : σ ∈ ss.series) (hwell : σ.WellFormed)
    (hbound : (stop - start).tdiv step + 1 ≤ σ.samples.length + 10000) :
    ∃ filled ∈ (fillStaleNaNGaps ss start stop step).series, filled.labels = σ.labels ∧
      ∀ t ∈ stepTimes start stop step, filled.lookup lookback t = σ.sampleAt t := by
  rw [fillStaleNaNGaps]
  split
  · refine ⟨σ, hσ, rfl, fun t ht => ?_⟩
    have hpos := (le_of_mem_stepTimes ht).1
    omega
  · refine ⟨_, List.mem_map_of_mem hσ, rfl, fun t ht => ?_⟩
    obtain ⟨hstep, hle⟩ := le_of_mem_stepTimes ht
    have hpresent : (σ.samples.map Prod.fst).dedup = σ.samples.map Prod.fst :=
      (Ascending.nodup_keys hwell.ascending).dedup
    have hexpected : 0 < (stop - start).tdiv step + 1 := by
      have hnonneg := Int.tdiv_nonneg (show 0 ≤ stop - start by omega) hstep.le
      omega
    simp only [hpresent, List.length_map]
    rw [if_pos ⟨hexpected, hbound⟩, ResponseSeries.lookup, ResponseSeries.sampleAt]
    have hasc := ascending_filled hwell.ascending (nodup_stepTimes start stop step)
    cases hf : σ.samples.find? fun p => p.1 = t with
    | some p =>
      have htime : p.1 = t := by simpa using List.find?_some hf
      rw [latest_of_mem hlookback hasc _ htime]
      exact mem_sortBy.mpr (List.mem_append_left _ (List.mem_of_find?_eq_some hf))
    | none =>
      have hmissing : t ∉ σ.samples.map Prod.fst := by
        intro hmem
        obtain ⟨p, hp, htime⟩ := List.mem_map.mp hmem
        exact List.find?_eq_none.mp hf p hp (decide_eq_true htime)
      rw [latest_of_mem hlookback hasc (p := (t, Point.staleNaN)) _ rfl]
      · rfl
      · refine mem_sortBy.mpr (List.mem_append_right _ (List.mem_map_of_mem ?_))
        exact List.mem_filter.mpr ⟨ht, by simpa using hmissing⟩

end

section

attribute [local instance] sortingLibraries

/-- A series with a value at each of the given times. -/
def seriesAt (times : List Int) : Response ℚ :=
  ⟨[⟨Labels.empty, times.map fun t => (t, .float 1)⟩], false⟩

def foo : VectorSelector (Response ℚ) := ⟨"foo", [nameMatcher "foo"], 0, none, 0, none⟩

/-- `foo` from 0 to 2m, where the series has a sample at every step. -/
theorem seen_eq_returned_foo :
    ∃ visit vs,
      nodeReplacer (answering (seriesAt [0, 60000, 120000])) (fun _ _ => .error .depth)
        ⟨0, 120000, 60000⟩ [] (.vectorSelector foo) = .ok visit ∧
      visit.outcome = .pushed (.vectorSelector vs) ∧
      vs.unexpandedSeriesSet = some (seriesAt [0, 60000, 120000]) ∧
      ∀ t ∈ stepTimes 0 120000 60000, ∀ σ ∈ (seriesAt [0, 60000, 120000]).series,
        σ.lookup 300000 (lookupTime vs.timestamp vs.originalOffset t) =
          σ.sampleAt (t - vs.originalOffset) := by
  obtain ⟨visit, vs, hvisit, houtcome, hd, hoffset⟩ : ∃ visit vs,
      nodeReplacer (answering (seriesAt [0, 60000, 120000])) (fun _ _ => .error .depth)
        ⟨0, 120000, 60000⟩ [] (.vectorSelector foo) = .ok visit ∧
      visit.outcome = .pushed (.vectorSelector vs) ∧
      vs.unexpandedSeriesSet = some (seriesAt [0, 60000, 120000]) ∧ vs.originalOffset = 0 :=
    ⟨_, _, rfl, rfl, rfl, rfl⟩
  refine ⟨visit, vs, hvisit, houtcome, hd, ?_⟩
  refine (seen_eq_returned_iff _ _ ⟨0, 120000, 60000⟩ (by decide) [] (.vectorSelector foo)
    (fresh_vectorSelector.mpr rfl) (Or.inr (Or.inl rfl)) visit hvisit _ houtcome vs
    (by simp [Expr.nodes]) _ hd ?_ 300000 (by decide)).2.mpr ?_
  · intro σ hσ
    rw [List.mem_singleton.mp hσ]
    exact ⟨by decide, by decide⟩
  · rw [hoffset]
    decide

/-- `foo` from 0 to 2m, where the series ends at 0: it is seen at 1m and 2m, too. -/
theorem seen_after_end :
    ∃ visit vs,
      nodeReplacer (answering (seriesAt [0])) (fun _ _ => .error .depth) ⟨0, 120000, 60000⟩ []
        (.vectorSelector foo) = .ok visit ∧
      visit.outcome = .pushed (.vectorSelector vs) ∧
      vs.unexpandedSeriesSet = some (seriesAt [0]) ∧
      ∃ t ∈ stepTimes 0 120000 60000, ∃ σ ∈ (seriesAt [0]).series,
        σ.sampleAt (t - vs.originalOffset) = none ∧
        σ.lookup 300000 (lookupTime vs.timestamp vs.originalOffset t) = some 1 := by
  exact ⟨_, _, rfl, rfl, rfl, 60000, by decide, _, List.mem_cons_self, by decide, by decide⟩

end

end Proxystorage
end Proxeus
