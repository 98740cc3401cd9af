import Proxeus.Proxystorage.NodeReplacerSpec

/-!
# Proxystorage.StepInvariant

The instant query that `queryRangeAt` sends instead of a range query. Its result is replicated at every
step, which is right if the expression does not depend on the time it is evaluated at. With the `@` on
the selector that is so exactly if every subquery that is not inside another one has an `@`, too
(`queryRangeAt_stepwise_iff`): otherwise the times a subquery evaluates at, and the window that its
function is applied to, move with the steps.
-/

namespace Proxeus
namespace Proxystorage

open Promclient Promql

/-! ## Expressions that do not depend on the time -/

section

variable {D : Type}

/-- Every subquery that is not inside another one has an `@`. -/
def subqueriesPinned : Expr D → Bool
  | .subqueryExpr _ _ _ _ _ timestamp => timestamp.isSome
  | .call _ args => subqueriesPinned args
  | .aggregateExpr _ expr param _ _ => subqueriesPinned expr && subqueriesPinned param
  | .binaryExpr _ lhs rhs => subqueriesPinned lhs && subqueriesPinned rhs
  | .unaryExpr _ expr => subqueriesPinned expr
  | .parenExpr expr => subqueriesPinned expr
  | .stepInvariantExpr expr => subqueriesPinned expr
  | .argument head tail => subqueriesPinned head && subqueriesPinned tail
  | _ => true

/-- Every selector has an `@`, and no call reads the evaluation time. -/
structure AtPinned (atModifierUnsafe : String → Bool) (e : Expr D) : Prop where
  selectors : ∀ vs, .vectorSelector vs ∈ e.nodes → vs.timestamp.isSome
  calls : ∀ func args, .call func args ∈ e.nodes → atModifierUnsafe func = false

theorem AtPinned.of_subset {atModifierUnsafe : String → Bool} {e e' : Expr D}
    (h : AtPinned atModifierUnsafe e) (hsub : e'.nodes ⊆ e.nodes) : AtPinned atModifierUnsafe e' :=
  ⟨fun vs hvs => h.selectors vs (hsub hvs), fun func args hcall => h.calls func args (hsub hcall)⟩

variable {V : Type} [Regexp] [Engine V] {src : Source D V}

/-- An expression that is pinned has one value. -/
theorem eval_eq_of_pinned {e : Expr D} (h : AtPinned (Engine.atModifierUnsafe V) e)
    (hpinned : subqueriesPinned e = true) (t t' : Int) : eval src e t = eval src e t' := by
  induction e with
  | vectorSelector vs =>
    have hvs := h.selectors vs (by simp [Expr.nodes])
    rw [eval, eval, evalVectorSelector, evalVectorSelector, lookupTime_of_isSome hvs _ t t']
  | matrixSelector vs range =>
    have hvs := h.selectors vs (by simp [Expr.nodes])
    rw [eval, eval, evalMatrixSelector, evalMatrixSelector, lookupTime_of_isSome hvs _ t t']
  | subqueryExpr expr range originalOffset offset step timestamp ih =>
    rw [eval, eval, subqueryTimes, subqueryTimes, lookupTime_of_isSome hpinned _ t t']
  | call func args ih =>
    have hcall := h.calls func args (by simp [Expr.nodes])
    rw [eval, eval, ih (h.of_subset (List.subset_cons_self _ _)) hpinned]
    congr 1
    funext v
    exact Engine.call_safe func hcall v t t'
  | aggregateExpr op expr param grouping without ih ih' =>
    rw [subqueriesPinned, Bool.and_eq_true] at hpinned
    rw [eval, eval,
      ih (h.of_subset (List.subset_cons_of_subset _ (List.subset_append_left _ _))) hpinned.1,
      ih' (h.of_subset (List.subset_cons_of_subset _ (List.subset_append_right _ _))) hpinned.2]
  | binaryExpr op lhs rhs ih ih' =>
    rw [subqueriesPinned, Bool.and_eq_true] at hpinned
    rw [eval, eval,
      ih (h.of_subset (List.subset_cons_of_subset _ (List.subset_append_left _ _))) hpinned.1,
      ih' (h.of_subset (List.subset_cons_of_subset _ (List.subset_append_right _ _))) hpinned.2]
  | unaryExpr op expr ih =>
    rw [eval, eval, ih (h.of_subset (List.subset_cons_self _ _)) hpinned]
  | numberLiteral val => rfl
  | stringLiteral val => rfl
  | parenExpr expr ih => exact ih (h.of_subset (List.subset_cons_self _ _)) hpinned
  | stepInvariantExpr expr ih => exact ih (h.of_subset (List.subset_cons_self _ _)) hpinned
  | noExpr => rfl
  | argument head tail ih ih' =>
    rw [subqueriesPinned, Bool.and_eq_true] at hpinned
    rw [eval, eval, ih (h.of_subset (List.subset_append_left _ _)) hpinned.1,
      ih' (h.of_subset (List.subset_append_right _ _)) hpinned.2]

end

/-! ## Expressions that depend on the time -/

section

variable {D : Type}

/-- Whether the value of the expression may be a vector, by its outermost operator. -/
def yieldsVector : Expr D → Bool
  | .vectorSelector _ => true
  | .call _ _ => true
  | .aggregateExpr _ _ _ _ _ => true
  | .binaryExpr _ _ _ => true
  | .unaryExpr _ _ => true
  | .parenExpr expr => yieldsVector expr
  | .stepInvariantExpr expr => yieldsVector expr
  | _ => false

/-- What `checkAST` asks of the operands of subqueries and aggregations. -/
def checkAST : Expr D → Bool
  | .subqueryExpr expr _ _ _ _ _ => yieldsVector expr && checkAST expr
  | .call _ args => checkAST args
  | .aggregateExpr _ expr param _ _ => yieldsVector expr && (checkAST expr && checkAST param)
  | .binaryExpr _ lhs rhs => checkAST lhs && checkAST rhs
  | .unaryExpr _ expr => checkAST expr
  | .parenExpr expr => checkAST expr
  | .stepInvariantExpr expr => checkAST expr
  | .argument head tail => checkAST head && checkAST tail
  | _ => true

/-- A number that tells values apart by the ends of their windows. -/
def weight : Value ℚ → ℚ
  | .vector v => (v.map VectorSample.value).sum
  | .matrix stop _ _ => stop
  | .values head tail => weight head + weight tail
  | _ => 0

/-- A vector of one sample. -/
def weighed (w : ℚ) : InstantVector ℚ := [⟨Labels.empty, w⟩]

/-- An engine whose functions return the weights of their arguments. -/
abbrev weighingEngine (atModifierUnsafe : String → Bool) : Engine ℚ where
  atModifierUnsafe := atModifierUnsafe
  call _ args _ := some (.vector (weighed (weight args)))
  aggregation _ param _ _ v := some (weighed (weight (.vector v) + weight param))
  binary _ lhs rhs := some (.vector (weighed (weight lhs + weight rhs)))
  unary _ v := some (.vector (weighed (weight v)))
  call_safe _ _ _ _ _ := rfl

/-- A source without series. -/
def emptySource : Source D ℚ where
  instant _ := []
  window _ _ := []
  fetched _ _ := some []
  noStepSubqueryInterval _ := 1

theorem weight_weighed (w : ℚ) : weight (.vector (weighed w)) = w := by
  simp [weight, weighed]

theorem exists_allAnswers {α : Type} {answers : List (Option α)} (h : ∀ a ∈ answers, a.isSome) :
    ∃ as, allAnswers answers = some as := by
  induction answers with
  | nil => exact ⟨[], rfl⟩
  | cons answer answers ih =>
    obtain ⟨a, ha⟩ := Option.isSome_iff_exists.mp (h answer List.mem_cons_self)
    obtain ⟨as, has⟩ := ih fun a ha => h a (List.mem_cons_of_mem _ ha)
    exact ⟨a :: as, by rw [allAnswers, ha, has]; rfl⟩

/-- A weight that does not decrease, and increases unless it is that of something pinned. -/
def Grows (pinned : Bool) (w w' : ℚ) : Prop := w ≤ w' ∧ (pinned = false → w < w')

theorem Grows.of_le {w w' : ℚ} (h : w ≤ w') : Grows true w w' := ⟨h, fun hfalse => by cases hfalse⟩

theorem Grows.add {pinned pinned' : Bool} {w₁ w₁' w₂ w₂' : ℚ} (h : Grows pinned w₁ w₁')
    (h' : Grows pinned' w₂ w₂') : Grows (pinned && pinned') (w₁ + w₂) (w₁' + w₂') := by
  refine ⟨add_le_add h.1 h'.1, fun hfalse => ?_⟩
  rcases Bool.and_eq_false_iff.mp hfalse with hp | hp
  · exact add_lt_add_of_lt_of_le (h.2 hp) h'.1
  · exact add_lt_add_of_le_of_lt h.1 (h'.2 hp)

theorem lookupTime_le (timestamp : Option Int) (offset : Int) {t t' : Int} (h : t < t') :
    Grows timestamp.isSome (lookupTime timestamp offset t) (lookupTime timestamp offset t') := by
  cases timestamp with
  | some ts => exact Grows.of_le le_rfl
  | none =>
    have hlt : lookupTime none offset t < lookupTime none offset t' := Int.sub_lt_sub_right h offset
    exact ⟨Int.cast_le.mpr hlt.le, fun _ => Int.cast_lt.mpr hlt⟩

variable [Regexp] (atModifierUnsafe : String → Bool)

/-- The values `val` that the weighing engine gives an expression. -/
structure Weighs (e : Expr D) (val : Int → Value ℚ) : Prop where
  value : ∀ t, @eval _ _ _ (weighingEngine atModifierUnsafe) emptySource e t = some (val t)
  vector : yieldsVector e = true → ∀ t, ∃ v, val t = .vector v
  grows : ∀ t t', t < t' → Grows (subqueriesPinned e) (weight (val t)) (weight (val t'))

theorem exists_weighs (e : Expr D) (hcheck : checkAST e = true) :
    ∃ val, Weighs atModifierUnsafe e val := by
  induction e with
  | vectorSelector vs =>
    refine ⟨fun _ => .vector [], fun t => ?_, fun _ _ => ⟨[], rfl⟩, fun _ _ _ => Grows.of_le le_rfl⟩
    simp only [eval, evalVectorSelector]
    cases vs.unexpandedSeriesSet with
    | none => rfl
    | some d => rfl
  | matrixSelector vs range =>
    refine ⟨fun t => evalMatrixSelector emptySource vs range t, fun t => rfl, fun h => (by cases h),
      fun t t' h => Grows.of_le (lookupTime_le _ _ h).1⟩
  | subqueryExpr expr range originalOffset offset step timestamp ih =>
    rw [checkAST, Bool.and_eq_true] at hcheck
    obtain ⟨val, hval⟩ := ih hcheck.2
    have hsteps : ∀ t, ∃ steps, allAnswers
        ((subqueryTimes (fun _ => 1) range originalOffset step timestamp t).map fun g =>
          ((@eval _ _ _ (weighingEngine atModifierUnsafe) emptySource expr g).bind Value.toVector).map
            fun v => (g, v)) = some steps := by
      intro t
      refine exists_allAnswers fun a ha => ?_
      obtain ⟨g, -, rfl⟩ := List.mem_map.mp ha
      obtain ⟨v, hv⟩ := hval.vector hcheck.1 g
      rw [hval.value, hv]
      rfl
    choose steps hsteps using hsteps
    refine ⟨fun t => .matrix (lookupTime timestamp originalOffset t) range (steps t), fun t => ?_,
      fun h => (by cases h), fun t t' h => lookupTime_le timestamp originalOffset h⟩
    simp only [eval]
    rw [show (emptySource : Source D ℚ).noStepSubqueryInterval = fun _ => 1 from rfl, hsteps]
    rfl
  | call func args ih =>
    obtain ⟨val, hval⟩ := ih hcheck
    refine ⟨fun t => .vector (weighed (weight (val t))), fun t => ?_, fun _ t => ⟨_, rfl⟩,
      fun t t' h => ?_⟩
    · simp only [eval, hval.value, Option.bind_some]
      rfl
    · simp only [weight_weighed]
      exact hval.grows t t' h
  | aggregateExpr op expr param grouping without ih ih' =>
    rw [checkAST, Bool.and_eq_true, Bool.and_eq_true] at hcheck
    obtain ⟨val, hval⟩ := ih hcheck.2.1
    obtain ⟨val', hval'⟩ := ih' hcheck.2.2
    choose v hv using hval.vector hcheck.1
    refine ⟨fun t => .vector (weighed (weight (val t) + weight (val' t))), fun t => ?_,
      fun _ t => ⟨_, rfl⟩, fun t t' h => ?_⟩
    · simp only [eval, hval.value, hval'.value, hv]
      rfl
    · simp only [weight_weighed]
      exact (hval.grows t t' h).add (hval'.grows t t' h)
  | binaryExpr op lhs rhs ih ih' =>
    rw [checkAST, Bool.and_eq_true] at hcheck
    obtain ⟨val, hval⟩ := ih hcheck.1
    obtain ⟨val', hval'⟩ := ih' hcheck.2
    refine ⟨fun t => .vector (weighed (weight (val t) + weight (val' t))), fun t => ?_,
      fun _ t => ⟨_, rfl⟩, fun t t' h => ?_⟩
    · simp only [eval, hval.value, hval'.value, Option.bind_some]
      rfl
    · simp only [weight_weighed]
      exact (hval.grows t t' h).add (hval'.grows t t' h)
  | unaryExpr op expr ih =>
    obtain ⟨val, hval⟩ := ih hcheck
    refine ⟨fun t => .vector (weighed (weight (val t))), fun t => ?_, fun _ t => ⟨_, rfl⟩,
      fun t t' h => ?_⟩
    · simp only [eval, hval.value, Option.bind_some]
      rfl
    · simp only [weight_weighed]
      exact hval.grows t t' h
  | numberLiteral val =>
    exact ⟨fun _ => .scalar val, fun _ => rfl, fun h => (by cases h),
      fun _ _ _ => Grows.of_le le_rfl⟩
  | stringLiteral val =>
    exact ⟨fun _ => .string val, fun _ => rfl, fun h => (by cases h),
      fun _ _ _ => Grows.of_le le_rfl⟩
  | parenExpr expr ih =>
    obtain ⟨val, hval⟩ := ih hcheck
    exact ⟨val, hval.value, hval.vector, hval.grows⟩
  | stepInvariantExpr expr ih =>
    obtain ⟨val, hval⟩ := ih hcheck
    exact ⟨val, hval.value, hval.vector, hval.grows⟩
  | noExpr =>
    exact ⟨fun _ => .noValue, fun _ => rfl, fun h => (by cases h), fun _ _ _ => Grows.of_le le_rfl⟩
  | argument head tail ih ih' =>
    rw [checkAST, Bool.and_eq_true] at hcheck
    obtain ⟨val, hval⟩ := ih hcheck.1
    obtain ⟨val', hval'⟩ := ih' hcheck.2
    refine ⟨fun t => .values (val t) (val' t), fun t => ?_, fun h => (by cases h),
      fun t t' h => (hval.grows t t' h).add (hval'.grows t t' h)⟩
    simp only [eval, hval.value, hval'.value]
    rfl

end

/-! ## The replicated response -/

section

variable {V : Type}

/-- The samples of a response at a time. -/
def Response.vectorAt (ss : Response V) (time : Int) : Option (InstantVector V) :=
  if ss.err then none
  else some (ss.series.filterMap fun s =>
    ((s.samples.find? fun p => p.1 = time).bind fun p => p.2.value).map fun v => ⟨s.labels, v⟩)

theorem find?_eq_self {l : List Int} {t : Int} (h : t ∈ l) : l.find? (fun ts => ts = t) = some t := by
  cases hf : l.find? fun ts => ts = t with
  | none => exact absurd (decide_eq_true rfl) (List.find?_eq_none.mp hf t h)
  | some ts =>
    have hts : ts = t := by simpa using List.find?_some hf
    rw [hts]

theorem vectorAt_vectorToStepMatrix {ts start stop step t : Int} (v : InstantVector V)
    (ht : t ∈ stepTimes start stop step) :
    (vectorToStepMatrix (instantResponse ts (some v)) start stop step).vectorAt t = some v := by
  have hvalue : ∀ s ∈ v,
      ((((stepTimes start stop step).map fun ts => (ts, Point.float s.value)).find?
        fun p => p.1 = t).bind fun p => p.2.value).map (fun x => (⟨s.metric, x⟩ : VectorSample V)) =
      some s := by
    intro s _
    rw [List.find?_map, Function.comp_def, find?_eq_self ht]
    rfl
  obtain ⟨hstep, hle⟩ := le_of_mem_stepTimes ht
  rw [vectorToStepMatrix, if_neg (by omega), Response.vectorAt, instantResponse, if_neg (by simp),
    List.map_map, List.filterMap_map, Function.comp_def, Function.comp_def]
  simp only [List.getLast?_singleton]
  rw [List.filterMap_congr hvalue, List.filterMap_some]

end

section

variable [Regexp]

/-- A client that answers an instant query with what its expression evaluates to. -/
def AnswersQueries (E : Engine ℚ) (src : Source (Response ℚ) ℚ) (client : Client ℚ) : Prop :=
  ∀ e ts, client.query false e ts = instantResponse ts ((eval src e ts).bind Value.toVector)

variable [E₀ : Engine ℚ] {p : ProxyStorage ℚ} {node : Expr (Response ℚ)}
  {path : List (Expr (Response ℚ))} {r : Prepared}

omit [Regexp] in
/-- The one selector of an expression that is sent as an instant query has an `@`. -/
theorem Accepted.atPinned (h : Accepted p node path r) (hnode : isSubQuery node = false)
    (hkeep : r.keepOffsets = true) (hpinned : r.atUnsafe = 0) :
    AtPinned (Engine.atModifierUnsafe ℚ) node := by
  have hcalls : ∀ n ∈ node.nodes, isAtModifierUnsafeCall (V := ℚ) n = false := by
    have hnil := h.atUnsafe.symm.trans hpinned
    rw [booleanFinder, List.length_eq_zero_iff, List.filter_eq_nil_iff] at hnil
    simpa using hnil
  have htimestamp : 0 < booleanFinder hasTimestamp node := by
    rcases h.keepOffsets.mp hkeep with htimestamp | ⟨-, hpos⟩
    · exact htimestamp
    · rw [← h.atUnsafe, hpinned] at hpos
      cases hpos
  obtain ⟨n, hn⟩ := List.exists_mem_of_length_pos htimestamp
  rw [List.mem_filter] at hn
  refine ⟨fun vs hvs => ?_, fun func args hcall => hcalls _ hcall⟩
  cases n with
  | vectorSelector vs' =>
    have hmem : ∀ {vs : VectorSelector (Response ℚ)}, .vectorSelector vs ∈ node.nodes →
        .vectorSelector vs ∈ node.nodes.filter isVectorSelector :=
      fun hvs => List.mem_filter.mpr ⟨hvs, rfl⟩
    obtain ⟨only, honly⟩ : ∃ only, node.nodes.filter isVectorSelector = [only] :=
      List.length_eq_one_iff.mp (le_antisymm (h.selectors hnode)
        (List.length_pos_of_mem (hmem hvs)))
    have heq := List.mem_singleton.mp (honly ▸ hmem hvs)
    have heq' := List.mem_singleton.mp (honly ▸ hmem hn.1)
    cases heq.trans heq'.symm
    exact hn.2
  | _ => exact absurd hn.2 (by simp [hasTimestamp])

/-- For the calls that `queryRangeAt` sends as one instant query: the replicated result is what the
expression evaluates to at every step, whatever the functions of the engine do, exactly if every
subquery that is not inside another one has an `@`. -/
theorem queryRangeAt_stepwise_iff (p : ProxyStorage ℚ) (func : String) (args : Expr (Response ℚ))
    (hcheck : checkAST args = true) (path : List (Expr (Response ℚ))) (r : Prepared)
    (hprepare : prepare p (.call func args) path = .ok (.inr r))
    (hshortcut : (r.keepOffsets && r.atTimestamp.isSome && r.atUnsafe = 0) = true) :
    (∀ E : Engine ℚ, E.atModifierUnsafe = E₀.atModifierUnsafe →
      ∀ (src : Source (Response ℚ) ℚ) (client : Client ℚ), AnswersQueries E src client →
      ∀ s : EvalStmt, 0 < s.interval → ∀ t ∈ stepTimes s.start s.stop s.interval,
        (queryRangeAt { p with client } s r (removeOffset r (.call func args))).vectorAt t =
          (eval src (.call func args) t).bind Value.toVector) ↔
      subqueriesPinned args = true := by
  have haccepted := prepare_eq_inr hprepare
  have hkeep : r.keepOffsets = true := by
    rw [Bool.and_eq_true, Bool.and_eq_true] at hshortcut
    exact hshortcut.1.1
  have hpinned : r.atUnsafe = 0 := by
    rw [Bool.and_eq_true, decide_eq_true_eq] at hshortcut
    exact hshortcut.2
  have hreq : r.reqOffset = 0 := by rw [haccepted.reqOffset, if_pos hkeep]
  have hat := haccepted.atPinned rfl hkeep hpinned
  have hquery : ∀ (E : Engine ℚ) (src : Source (Response ℚ) ℚ) (client : Client ℚ),
      AnswersQueries E src client → ∀ s : EvalStmt, 0 < s.interval →
      ∀ t ∈ stepTimes s.start s.stop s.interval,
        (queryRangeAt { p with client } s r (removeOffset r (.call func args))).vectorAt t =
          (eval src (.call func args) (r.atTimestamp.getD 0)).bind Value.toVector := by
    intro E src client hclient s hinterval t ht
    have hcond : (r.keepOffsets && r.atTimestamp.isSome && r.atUnsafe = 0 && 0 < s.interval) =
        true := by rw [hshortcut, decide_eq_true hinterval]; rfl
    rw [queryRangeAt, if_pos hcond, removeOffset, if_pos hkeep, hreq, Int.sub_zero, Int.sub_zero]
    simp only [hclient (.call func args) (r.atTimestamp.getD 0)]
    cases (eval src (.call func args) (r.atTimestamp.getD 0)).bind Value.toVector with
    | none => rfl
    | some v => exact vectorAt_vectorToStepMatrix v ht
  constructor
  · intro h
    by_contra hpinned
    rw [Bool.not_eq_true] at hpinned
    obtain ⟨val, hval⟩ := exists_weighs E₀.atModifierUnsafe (.call func args) hcheck
    have hstep : ∀ ts : Int, ts ∈ stepTimes ts ts 1 := fun ts => by simp [stepTimes]
    -- one step after the `@` of the instant query
    have heq := h (weighingEngine E₀.atModifierUnsafe) rfl emptySource
      ⟨fun _ e ts => instantResponse ts ((@eval _ _ _ (weighingEngine E₀.atModifierUnsafe)
        emptySource e ts).bind Value.toVector), fun _ _ _ _ _ => ⟨[], false⟩⟩ (fun _ _ => rfl)
      ⟨_, _, 1⟩ one_pos (r.atTimestamp.getD 0 + 1) (hstep _)
    rw [hquery _ _ _ (fun _ _ => rfl) ⟨_, _, 1⟩ one_pos (r.atTimestamp.getD 0 + 1) (hstep _),
      hval.value, hval.value] at heq
    obtain ⟨v, hv⟩ := hval.vector rfl (r.atTimestamp.getD 0)
    obtain ⟨v', hv'⟩ := hval.vector rfl (r.atTimestamp.getD 0 + 1)
    have hlt := (hval.grows _ _ (lt_add_one (r.atTimestamp.getD 0))).2 hpinned
    rw [hv, hv'] at heq hlt
    cases heq
    exact lt_irrefl _ hlt
  · intro hpinned E hE src client hclient s hinterval t ht
    rw [← hE] at hat
    rw [hquery E src client hclient s hinterval t ht,
      eval_eq_of_pinned hat hpinned (r.atTimestamp.getD 0) t]

end

/-! ## A concrete instance -/

/-- The libraries with `count_over_time`. -/
abbrev countingLibraries : Libraries :=
  { sortingLibraries with
    rest :=
      { sortingLibraries.rest with
        call := fun func args _ =>
          match func, args with
          | "count_over_time", .values (.matrix _ _ steps) .noValue =>
            some (.vector (aggregateBy (fun s => groupingLabels [] true s.metric) countOf
              (steps.flatMap Prod.snd)))
          | _, _ => none
        call_safe := fun _ _ _ _ _ => rfl } }

section

attribute [local instance] countingLibraries

/-- One series that has the value 1 all the time. -/
def oneSeries : Source (Response ℚ) ℚ where
  instant _ := [⟨Labels.empty.set metricNameLabel "foo", 1⟩]
  window start stop :=
    (gridTimes start stop 60000).map fun t => (t, [⟨Labels.empty.set metricNameLabel "foo", 1⟩])
  fetched _ _ := none
  noStepSubqueryInterval _ := 60000

/-- Two server groups that answer instant queries from the series. -/
def answeringOneSeries : ProxyStorage ℚ :=
  { answering ⟨[], false⟩ with
    client :=
      { query := fun _ e ts => instantResponse ts ((eval oneSeries e ts).bind Value.toVector)
        queryRange := fun _ _ _ _ _ => ⟨[], false⟩ } }

/-- `foo @ 1000` -/
def fooAt : VectorSelector (Response ℚ) := ⟨"foo", [nameMatcher "foo"], 0, some 1000000, 0, none⟩

def preparedAt : Prepared := ⟨0, 0, 0, true, some 1000000, 0⟩

/-- `count_over_time(foo[5m] @ 1000)` -/
theorem queryRangeAt_stepwise_foo :
    (queryRangeAt answeringOneSeries ⟨1020000, 1020000, 60000⟩ preparedAt
      (.call "count_over_time" (.argument (.matrixSelector fooAt 300000) .noExpr))).vectorAt 1020000 =
      some [⟨Labels.empty, 5⟩] := by
  have hstep : (1020000 : Int) ∈ stepTimes 1020000 1020000 60000 := by decide
  have hiff := queryRangeAt_stepwise_iff answeringOneSeries "count_over_time"
    (.argument (.matrixSelector fooAt 300000) .noExpr) rfl [] preparedAt (by decide +kernel) rfl
  have hanswers : AnswersQueries rationalEngine oneSeries answeringOneSeries.client :=
    fun _ _ => rfl
  refine (hiff.mpr rfl rationalEngine rfl oneSeries _ hanswers ⟨1020000, 1020000, 60000⟩ (by decide) _
    hstep).trans ?_
  decide +kernel

/-- `count_over_time((foo @ 1000)[90s:1m])` at 1020: the instant query at 1000 finds one time of the
subquery, and at 1020 there are two. -/
theorem queryRangeAt_misses_step :
    prepare answeringOneSeries (.call "count_over_time" (.argument
        (.subqueryExpr (.vectorSelector fooAt) 90000 0 0 60000 none) .noExpr)) [] =
      .ok (.inr preparedAt) ∧
    (queryRangeAt answeringOneSeries ⟨1020000, 1020000, 60000⟩ preparedAt (.call "count_over_time"
      (.argument (.subqueryExpr (.vectorSelector fooAt) 90000 0 0 60000 none) .noExpr))).vectorAt
        1020000 = some [⟨Labels.empty, 1⟩] ∧
    (eval oneSeries (.call "count_over_time" (.argument
        (.subqueryExpr (.vectorSelector fooAt) 90000 0 0 60000 none) .noExpr)) 1020000).bind
      Value.toVector = some [⟨Labels.empty, 2⟩] := by
  decide +kernel

end

end Proxystorage
end Proxeus
