import Proxeus.Proxystorage.Termination

/-!
# Proxystorage.Sendable

What a walk asks the server groups for. Whatever the tree, and wherever in it, a query that is sent
has one selector at most, no native histograms, no call over several series, and no aggregation but
the one at its top, for which the request is marked: the walk does not depend on what the groups would
answer to any other query (`walk_asks`). With `cross_group_exact` and several groups nothing is sent.
-/

namespace Proxeus
namespace Proxystorage

open Promclient Promql

section

variable {V : Type}

/-- A query that may be sent, and whether it is marked by `WithAggregatePushdown`. -/
structure Sendable (p : ProxyStorage V) (aggregatePushdown : Bool) (query : Expr (Response V)) :
    Prop where
  floats : histogramFinder (histogramNamePredicate p) query = false
  notExact : p.crossGroupExact = true → p.sgs.length ≤ 1
  aggregates : booleanFinder isAgg query = if aggregatePushdown then 1 else 0
  marked : isAgg query = aggregatePushdown
  selectors : booleanFinder isVectorSelector query ≤ 1
  perSeries : booleanFinder isCrossSeriesCall query = 0

/-- The proxy over other server groups. -/
def ProxyStorage.over (p : ProxyStorage V) (client : Client V) : ProxyStorage V := { p with client }

/-- The groups of the two clients answer the queries that may be sent alike. -/
def AnswerAlike (p : ProxyStorage V) (client client' : Client V) : Prop :=
  ∀ aggregatePushdown query, Sendable p aggregatePushdown query →
    client.query aggregatePushdown query = client'.query aggregatePushdown query ∧
      client.queryRange aggregatePushdown query = client'.queryRange aggregatePushdown query

/-! ## What is found in a query that is sent -/

theorem nodes_offsetRemover (e : Expr (Response V)) :
    (offsetRemover e).nodes = e.nodes.map offsetRemover := by
  induction e <;> simp_all [offsetRemover, Expr.nodes]

theorem booleanFinder_offsetRemover {f : Expr (Response V) → Bool}
    (hf : ∀ e, f (offsetRemover e) = f e) (e : Expr (Response V)) :
    booleanFinder f (offsetRemover e) = booleanFinder f e := by
  rw [booleanFinder, nodes_offsetRemover, List.filter_map, List.length_map]
  exact congrArg (fun f => (e.nodes.filter f).length) (funext hf)

theorem histogramFinder_offsetRemover (isHistogramName : String → Bool) (e : Expr (Response V)) :
    histogramFinder isHistogramName (offsetRemover e) = histogramFinder isHistogramName e := by
  rw [histogramFinder, nodes_offsetRemover, List.any_map, histogramFinder]
  congr 1
  funext e
  cases e <;> rfl

theorem isAgg_offsetRemover (e : Expr (Response V)) : isAgg (offsetRemover e) = isAgg e := by
  cases e <;> rfl

variable {p : ProxyStorage V} {query : Expr (Response V)} {aggregatePushdown : Bool} {r : Prepared}

theorem Sendable.offsetRemover (h : Sendable p aggregatePushdown query) :
    Sendable p aggregatePushdown (offsetRemover query) where
  floats := by rw [histogramFinder_offsetRemover, h.floats]
  notExact := h.notExact
  aggregates := by rw [booleanFinder_offsetRemover isAgg_offsetRemover, h.aggregates]
  marked := by rw [isAgg_offsetRemover, h.marked]
  selectors := by
    rw [booleanFinder_offsetRemover fun e => by cases e <;> rfl]
    exact h.selectors
  perSeries := by
    rw [booleanFinder_offsetRemover fun e => by cases e <;> rfl]
    exact h.perSeries

theorem Sendable.removeOffset (h : Sendable p aggregatePushdown query) (r : Prepared) :
    Sendable p aggregatePushdown (removeOffset r query) := by
  rw [Proxystorage.removeOffset]
  split
  · exact h
  · exact h.offsetRemover

variable [Engine V] {path : List (Expr (Response V))}

/-- A node that is accepted may be sent, if its aggregations allow for it. -/
theorem Accepted.sendable {node : Expr (Response V)} (h : Accepted p node path r)
    (hsub : isSubQuery node = false)
    (haggs : booleanFinder isAgg node = if isAgg node then 1 else 0) :
    Sendable p (isAgg node) node :=
  ⟨h.notHistogram.2, h.notExact, haggs, rfl, h.selectors hsub, h.crossSeries hsub⟩

theorem Accepted.sendable_aggregateExpr {op : ItemType} {expr param : Expr (Response V)}
    {grouping : List String} {without : Bool}
    (h : Accepted p (.aggregateExpr op expr param grouping without) path r) :
    Sendable p true (.aggregateExpr op expr param grouping without) := by
  refine h.sendable rfl (h.aggregates rfl ?_).2
  rw [booleanFinder, Expr.nodes, List.filter_cons, if_pos (by rfl)]
  exact Nat.succ_pos _

theorem Accepted.sendable_call {func : String} {args : Expr (Response V)}
    (h : Accepted p (.call func args) path r) : Sendable p false (.call func args) := by
  refine h.sendable rfl ?_
  rcases Nat.eq_zero_or_pos (booleanFinder isAgg (.call func args)) with hzero | hpos
  · exact hzero
  · rcases (h.aggregates rfl hpos).1 with hagg | hbinary
    · cases hagg
    · cases hbinary

theorem Accepted.sendable_vectorSelector {vs : VectorSelector (Response V)}
    (h : Accepted p (.vectorSelector vs) path r) (s : EvalStmt) :
    Sendable p false (.vectorSelector (tightenedSelector s r vs)) :=
  ⟨h.notHistogram.2, h.notExact, rfl, rfl, le_rfl, rfl⟩

omit [Engine V] in
theorem booleanFinder_isAgg_literal {l : Expr (Response V)}
    (h : exprIsLiteral (unwrapExpr l) = true) : booleanFinder isAgg l = 0 := by
  cases l with
  | numberLiteral val => rfl
  | stringLiteral val => rfl
  | stepInvariantExpr expr =>
    cases expr with
    | numberLiteral val => rfl
    | stringLiteral val => rfl
    | _ => cases h
  | _ => cases h

omit [Engine V] in
/-- The finders see the selector that is sent as they see the one of the node. -/
theorem booleanFinder_binaryExpr {f : Expr (Response V) → Bool} {op : String}
    {lhs rhs : Expr (Response V)} :
    booleanFinder f (.binaryExpr op lhs rhs) =
      (if f (.binaryExpr op lhs rhs) then 1 else 0) + (booleanFinder f lhs + booleanFinder f rhs) := by
  rw [booleanFinder, Expr.nodes, List.filter_cons, List.filter_append]
  split
  · rw [List.length_cons, List.length_append, Nat.add_comm]
    rfl
  · rw [List.length_append, Nat.zero_add]
    rfl

theorem Accepted.sendable_literal_left {op : String} {lhs : Expr (Response V)}
    {vs : VectorSelector (Response V)}
    (h : Accepted p (.binaryExpr op lhs (.vectorSelector vs)) path r)
    (hlit : exprIsLiteral (unwrapExpr lhs) = true) (s : EvalStmt) :
    Sendable p false (.binaryExpr op lhs (.vectorSelector (tightenedSelector s r vs))) where
  floats := by
    have hfloats := h.notHistogram.2
    rw [histogramFinder, Expr.nodes, List.any_cons, List.any_append] at hfloats ⊢
    exact hfloats
  notExact := h.notExact
  aggregates := by
    rw [booleanFinder_binaryExpr, booleanFinder_isAgg_literal hlit]
    rfl
  marked := rfl
  selectors := by
    have hselectors := h.selectors rfl
    rw [booleanFinder_binaryExpr] at hselectors ⊢
    exact hselectors
  perSeries := by
    have hcross := h.crossSeries rfl
    rw [booleanFinder_binaryExpr] at hcross ⊢
    exact hcross

theorem Accepted.sendable_literal_right {op : String} {rhs : Expr (Response V)}
    {vs : VectorSelector (Response V)}
    (h : Accepted p (.binaryExpr op (.vectorSelector vs) rhs) path r)
    (hlit : exprIsLiteral (unwrapExpr rhs) = true) (s : EvalStmt) :
    Sendable p false (.binaryExpr op (.vectorSelector (tightenedSelector s r vs)) rhs) where
  floats := by
    have hfloats := h.notHistogram.2
    rw [histogramFinder, Expr.nodes, List.any_cons, List.any_append] at hfloats ⊢
    exact hfloats
  notExact := h.notExact
  aggregates := by
    rw [booleanFinder_binaryExpr, booleanFinder_isAgg_literal hlit]
    rfl
  marked := rfl
  selectors := by
    have hselectors := h.selectors rfl
    rw [booleanFinder_binaryExpr] at hselectors ⊢
    exact hselectors
  perSeries := by
    have hcross := h.crossSeries rfl
    rw [booleanFinder_binaryExpr] at hcross ⊢
    exact hcross

/-! ## The walk asks nothing else -/

variable {s : EvalStmt} {client : Client V}

omit [Engine V] in
theorem request_over (h : AnswerAlike p p.client client) (hsend : Sendable p aggregatePushdown query) :
    request (p.over client) s r aggregatePushdown query = request p s r aggregatePushdown query := by
  obtain ⟨hquery, hrange⟩ := h aggregatePushdown query hsend
  rw [request, request]
  simp only [ProxyStorage.over, hquery, hrange]

omit [Engine V] in
theorem queryRangeAt_over (h : AnswerAlike p p.client client) (hsend : Sendable p false query) :
    queryRangeAt (p.over client) s r query = queryRangeAt p s r query := by
  obtain ⟨hquery, hrange⟩ := h false query hsend
  rw [queryRangeAt, queryRangeAt]
  simp only [ProxyStorage.over, hquery, hrange]
  rfl

theorem replaceAggregate_over [Regexp] (h : AnswerAlike p p.client client) {op : ItemType}
    {expr param : Expr (Response V)} {grouping : List String} {without : Bool}
    (haccepted : Accepted p (.aggregateExpr op expr param grouping without) path r) :
    replaceAggregate (p.over client) s r op expr param grouping without =
      replaceAggregate p s r op expr param grouping without := by
  have hrequest := request_over (s := s) (r := r) h (haccepted.sendable_aggregateExpr.removeOffset r)
  unfold replaceAggregate
  simp only [hrequest]
  rfl

theorem replaceCall_over (h : AnswerAlike p p.client client) {func : String}
    {args : Expr (Response V)} (haccepted : Accepted p (.call func args) path r) :
    replaceCall (p.over client) s r func args = replaceCall p s r func args := by
  have hsend := haccepted.sendable_call.removeOffset r
  have hquery := (h false _ hsend).1
  rw [replaceCall, replaceCall]
  simp only [queryRangeAt_over h hsend]
  simp only [ProxyStorage.over, hquery]
  rfl

theorem replaceVectorSelector_over (h : AnswerAlike p p.client client)
    {vs : VectorSelector (Response V)} (haccepted : Accepted p (.vectorSelector vs) path r) :
    replaceVectorSelector (p.over client) s r path vs = replaceVectorSelector p s r path vs := by
  rw [replaceVectorSelector, replaceVectorSelector]
  simp only [request_over h (haccepted.sendable_vectorSelector s)]

omit [Engine V] in
theorem vectorBinaryExpr_over (h : AnswerAlike p p.client client)
    (node : VectorSelector (Response V) → Expr (Response V)) {vs : VectorSelector (Response V)}
    (hsend : Sendable p false (node (tightenedSelector s r vs))) :
    vectorBinaryExpr (p.over client) s r node vs = vectorBinaryExpr p s r node vs := by
  rw [vectorBinaryExpr, vectorBinaryExpr]
  simp only [request_over h hsend]

theorem replaceBinary_over (h : AnswerAlike p p.client client) {op : String}
    {lhs rhs : Expr (Response V)} (haccepted : Accepted p (.binaryExpr op lhs rhs) path r) :
    replaceBinary (p.over client) s r op lhs rhs = replaceBinary p s r op lhs rhs := by
  unfold replaceBinary
  cases hleft : exprIsLiteral (unwrapExpr lhs) with
  | true =>
    cases rhs with
    | vectorSelector vs =>
      exact vectorBinaryExpr_over h (fun vs => .binaryExpr op lhs (.vectorSelector vs))
        (haccepted.sendable_literal_left hleft s)
    | _ => rfl
  | false =>
    cases hright : exprIsLiteral (unwrapExpr rhs) with
    | true =>
      cases lhs with
      | vectorSelector vs =>
        exact vectorBinaryExpr_over h (fun vs => .binaryExpr op (.vectorSelector vs) rhs)
          (haccepted.sendable_literal_right hright s)
      | _ => rfl
    | false => rfl

variable [Regexp]
  {inspect : EvalStmt → Expr (Response V) → Except Failure (Expr (Response V) × Bool)}

theorem replaceNode_over (h : AnswerAlike p p.client client) {node : Expr (Response V)}
    (haccepted : Accepted p node path r) :
    replaceNode (p.over client) inspect s r path node = replaceNode p inspect s r path node := by
  cases node with
  | aggregateExpr op expr param grouping without =>
    exact congrArg Except.ok (replaceAggregate_over h haccepted)
  | call func args => exact congrArg Except.ok (replaceCall_over h haccepted)
  | vectorSelector vs => exact replaceVectorSelector_over h haccepted
  | binaryExpr op lhs rhs => exact replaceBinary_over h haccepted
  | _ => rfl

theorem nodeReplacer_over (h : AnswerAlike p p.client client) (node : Expr (Response V)) :
    nodeReplacer (p.over client) inspect s path node = nodeReplacer p inspect s path node := by
  have hprepare : prepare (p.over client) node path = prepare p node path := rfl
  rw [nodeReplacer, nodeReplacer, hprepare]
  cases hprepared : prepare p node path with
  | error err => rfl
  | ok prepared =>
    cases prepared with
    | inl reason => rfl
    | inr r =>
      show replace (p.over client) inspect s r path node = replace p inspect s r path node
      rw [replace, replace, replaceNode_over h (prepare_eq_inr hprepared)]

/-- The walk of any tree is decided by the answers to the queries that may be sent. -/
theorem walk_asks (p : ProxyStorage V) (client : Client V) (h : AnswerAlike p p.client client)
    (fuel : Nat) (s : EvalStmt) (path : List (Expr (Response V))) (e : Expr (Response V)) :
    walk (p.over client) fuel s path e = walk p fuel s path e := by
  induction fuel generalizing s path e with
  | zero => rfl
  | succ fuel ih =>
    have hwalk (s path) : walk (p.over client) fuel s path = walk p fuel s path :=
      funext fun e => ih s path e
    cases e with
    | argument head tail =>
      show walkChildren (walk (p.over client) fuel s path) _ = walkChildren (walk p fuel s path) _
      rw [hwalk]
    | noExpr => rfl
    | _ =>
      simp only [walk, hwalk, nodeReplacer_over h]

end

section

attribute [local instance] sortingLibraries

/-- A proxy without groups, of which some requests fail. -/
def failingIf (fails : Expr (Response ℚ) → Bool) : ProxyStorage ℚ where
  sgs := []
  crossGroupExact := false
  client := ⟨fun _ query _ => ⟨[], fails query⟩, fun _ query _ _ _ => ⟨[], fails query⟩⟩
  noStepSubqueryIntervalFn _ := 60000

/-- A query with two selectors need not be answered. -/
theorem walk_asks_two :
    walk ((failingIf fun _ => false).over
      (failingIf fun query => 1 < booleanFinder isVectorSelector query).client) 9 (⟨0, 0, 0⟩ : EvalStmt)
        [] (.binaryExpr "+" (.vectorSelector ⟨"up", [], 0, none, 0, none⟩)
          (.vectorSelector ⟨"up", [], 0, none, 0, none⟩)) =
      walk (failingIf fun _ => false) 9 ⟨0, 0, 0⟩ []
        (.binaryExpr "+" (.vectorSelector ⟨"up", [], 0, none, 0, none⟩)
          (.vectorSelector ⟨"up", [], 0, none, 0, none⟩)) := by
  refine walk_asks _ _ (fun _ query hsend => ?_) 9 _ _ _
  have hone : ¬ 1 < booleanFinder isVectorSelector query := by
    have hselectors := hsend.selectors
    omega
  simp only [failingIf, hone, decide_false, and_self]

end

/-! ## Groups that are not to be merged -/

section

variable {V : Type} [Regexp] [Engine V] {p : ProxyStorage V}


/-- Nothing has been pushed down, and a walk that fails has found histograms that cannot be fetched. -/
structure Declines (p : ProxyStorage V) (walked : Except Failure (Expr (Response V) × Bool)) :
    Prop where
  ok : ∀ e' pushed, walked = .ok (e', pushed) → pushed = false
  error : ∀ err, walked = .error err →
    err = .depth ∨ err = .histogramFidelity (strictMissingRemoteRead p)

omit [Engine V] [Regexp] in
theorem Declines.of_ok {e : Expr (Response V)} :
    Declines p (.ok (e, false) : Except Failure (Expr (Response V) × Bool)) :=
  ⟨fun _ _ heq => by cases heq; rfl, fun _ heq => by cases heq⟩

omit [Engine V] [Regexp] in
theorem Declines.of_error {err : Failure}
    (h : err = .depth ∨ err = .histogramFidelity (strictMissingRemoteRead p)) :
    Declines p (.error err : Except Failure (Expr (Response V) × Bool)) :=
  ⟨fun _ _ heq => (by cases heq), fun _ heq => by cases heq; exact h⟩

omit [Engine V] [Regexp] in
theorem Declines.map {walked : Except Failure (Expr (Response V) × Bool)} (h : Declines p walked)
    {node : Expr (Response V) × Bool → Expr (Response V) × Bool} (hnode : ∀ x, (node x).2 = x.2) :
    Declines p (walked.map node) := by
  cases walked with
  | error err => exact Declines.of_error (h.error err rfl)
  | ok x =>
    refine ⟨fun e' pushed heq => ?_, fun _ heq => by cases heq⟩
    obtain ⟨e, pushed'⟩ := x
    have hpushed := hnode (e, pushed')
    rw [Except.ok.inj heq] at hpushed
    exact hpushed.trans (h.ok e pushed' rfl)

omit [Engine V] [Regexp] in
theorem declines_walkBoth {fst snd : Except Failure (Expr (Response V) × Bool)}
    (hfst : Declines p fst) (hsnd : Declines p snd)
    (node : Expr (Response V) → Expr (Response V) → Expr (Response V)) :
    Declines p (walkBoth node fst snd) := by
  cases fst with
  | error err => exact Declines.of_error (hfst.error err rfl)
  | ok x =>
    obtain ⟨e, pushed⟩ := x
    cases hfst.ok e pushed rfl
    exact hsnd.map fun _ => rfl

omit [Engine V] [Regexp] in
theorem declines_walkChildren
    {walk : Expr (Response V) → Except Failure (Expr (Response V) × Bool)}
    (hwalk : ∀ e, Declines p (walk e)) (node : Expr (Response V)) :
    Declines p (walkChildren walk node) := by
  cases node with
  | matrixSelector vs range => exact (hwalk _).map fun x => by obtain ⟨e, pushed⟩ := x; cases e <;> rfl
  | subqueryExpr expr range originalOffset offset step timestamp => exact (hwalk _).map fun _ => rfl
  | call func args => exact (hwalk _).map fun _ => rfl
  | aggregateExpr op expr param grouping without =>
    exact declines_walkBoth (hwalk expr) (hwalk param) fun expr param =>
      .aggregateExpr op expr param grouping without
  | binaryExpr op lhs rhs => exact declines_walkBoth (hwalk _) (hwalk _) _
  | unaryExpr op expr => exact (hwalk _).map fun _ => rfl
  | parenExpr expr => exact (hwalk _).map fun _ => rfl
  | stepInvariantExpr expr => exact (hwalk _).map fun _ => rfl
  | argument head tail => exact declines_walkBoth (hwalk _) (hwalk _) _
  | _ => exact Declines.of_ok

variable (hexact : p.crossGroupExact = true) (hsgs : 1 < p.sgs.length)

omit [Regexp] in
include hexact hsgs in
/-- Every node is declined. -/
theorem not_accepted (node : Expr (Response V)) (path : List (Expr (Response V))) (r : Prepared) :
    ¬ Accepted p node path r := by
  intro h
  have hle := h.notExact hexact
  omega

include hexact hsgs in
theorem declines_walk (fuel : Nat) (s : EvalStmt) (path : List (Expr (Response V)))
    (e : Expr (Response V)) : Declines p (walk p fuel s path e) := by
  induction fuel generalizing s path e with
  | zero => exact Declines.of_error (Or.inl rfl)
  | succ fuel ih =>
    by_cases hnode : IsNode e
    · rw [walk_of_isNode hnode]
      cases hvisit : nodeReplacer p (fun s expr => walk p fuel s [] expr) s path e with
      | error err =>
        cases hprepare : prepare p e path with
        | error err' =>
          rw [nodeReplacer, hprepare] at hvisit
          cases hvisit
          exact Declines.of_error (Or.inr (error_of_prepare hprepare))
        | ok prepared =>
          cases prepared with
          | inl reason =>
            rw [nodeReplacer, hprepare] at hvisit
            cases hvisit
          | inr r => exact absurd (prepare_eq_inr hprepare) (not_accepted hexact hsgs e path r)
      | ok visit =>
        cases hout : visit.outcome with
        | pushed node' =>
          obtain ⟨r, haccepted, -⟩ := visit_cases hvisit hout
          exact absurd haccepted (not_accepted hexact hsgs e path r)
        | fallback reason => simpa [Except.bind, hout] using declines_walkChildren (ih s _) visit.ast
        | revisit => simpa [Except.bind, hout] using declines_walkChildren (ih s _) visit.ast
    · cases e with
      | argument head tail => exact declines_walkChildren (ih s path) _
      | noExpr => exact Declines.of_ok
      | _ => exact absurd trivial hnode

include hexact hsgs in
/-- With `cross_group_exact` the tree is left to the engine as it is. -/
theorem walk_exact (s : EvalStmt) (path : List (Expr (Response V))) (e : Expr (Response V)) :
    ∃ depth, ∀ fuel, depth ≤ fuel →
      walk p fuel s path e = .ok (e, false) ∨
        walk p fuel s path e = .error (.histogramFidelity (strictMissingRemoteRead p)) := by
  obtain ⟨depth, result, hresult, hwalk⟩ := walk_ends p s path e
  refine ⟨depth, fun fuel hfuel => ?_⟩
  have hdeclines := declines_walk hexact hsgs fuel s path e
  have hkeeps := keeps_walk (p := p) fuel s path e
  cases hw : walk p fuel s path e with
  | error err =>
    rcases hdeclines.error err hw with rfl | rfl
    · exact absurd ((hwalk fuel hfuel).symm.trans hw) hresult
    · exact Or.inr rfl
  | ok x =>
    obtain ⟨e', pushed⟩ := x
    cases hdeclines.ok e' pushed hw
    exact Or.inl (by rw [hkeeps e' hw])

end

section

attribute [local instance] sortingLibraries

/-- A proxy over two groups that are not to be merged. -/
def exactOverTwo : ProxyStorage ℚ := { answering ⟨[], false⟩ with crossGroupExact := true }

theorem walk_exact_two :
    ∃ depth, ∀ fuel, depth ≤ fuel →
      walk exactOverTwo fuel ⟨0, 0, 0⟩ []
          (.aggregateExpr .avg (.vectorSelector ⟨"up", [], 0, none, 0, none⟩) .noExpr [] false) =
        .ok (.aggregateExpr .avg (.vectorSelector ⟨"up", [], 0, none, 0, none⟩) .noExpr [] false,
          false) ∨
      walk exactOverTwo fuel ⟨0, 0, 0⟩ []
          (.aggregateExpr .avg (.vectorSelector ⟨"up", [], 0, none, 0, none⟩) .noExpr [] false) =
        .error (.histogramFidelity (strictMissingRemoteRead exactOverTwo)) :=
  walk_exact (p := exactOverTwo) rfl (by decide) _ _ _

end

end Proxystorage
end Proxeus
