import Proxeus.Promclient.LabelSpec
import Proxeus.Promql.EngineSpec
import Proxeus.Proxystorage.NodeReplacer

/-!
# Proxystorage.NodeReplacerSpec

What a visit of `NodeReplacer` does. `prepare_eq_inr` has the guards that a prepared node has passed,
and a visit that does not replace its node leaves the tree as it was (`declined_restores`).
-/

namespace Proxeus
namespace Proxystorage

open Promclient Promql

section

variable {V : Type}

/-! ## The guards -/

/-- The guards that a node has passed, and what `prepare` has made of its offsets. -/
structure Accepted [Engine V] (p : ProxyStorage V) (node : Expr (Response V))
    (path : List (Expr (Response V))) (r : Prepared) : Prop where
  notBelowSubquery : path.any isSubQuery = false
  notHistogram : path.any isHistogramOnlyCall = false ∧
    histogramFinder (histogramNamePredicate p) node = false
  notExact : p.crossGroupExact = true → p.sgs.length ≤ 1
  aggregates : isSubQuery node = false → 0 < booleanFinder isAgg node →
    (isAgg node = true ∨ isBinaryExpr node = true) ∧ booleanFinder isAgg node = 1
  selectors : isSubQuery node = false → booleanFinder isVectorSelector node ≤ 1
  crossSeries : isSubQuery node = false → booleanFinder isCrossSeriesCall node = 0
  found : (offsetFinder node).found = true ∧ (offsetFinder node).err = false
  offset : r.offset = (offsetFinder node).offset
  keepOffsets : r.keepOffsets = true ↔
    0 < booleanFinder hasTimestamp node ∨
      (r.offset ≠ 0 ∧ 0 < booleanFinder (isAtModifierUnsafeCall (V := V)) node)
  reqOffset : r.reqOffset = if r.keepOffsets then 0 else r.offset
  synthOffset : r.synthOffset = r.reqOffset
  atTimestamp : r.atTimestamp = timestampFinder node
  atUnsafe : r.atUnsafe = booleanFinder (isAtModifierUnsafeCall (V := V)) node

theorem prepare_eq_inr [Engine V] {p : ProxyStorage V} {node : Expr (Response V)}
    {path : List (Expr (Response V))} {r : Prepared} (h : prepare p node path = .ok (.inr r)) :
    Accepted p node path r := by
  rw [prepare] at h
  dsimp only at h
  split at h
  · cases h
  rename_i hpath
  split at h
  · split at h
    · cases h
    · cases h
  rename_i hhist
  split at h
  · cases h
  rename_i hexact
  split at h
  · cases h
  rename_i hagg
  split at h
  · cases h
  rename_i hvec
  split at h
  · cases h
  rename_i hoffset
  split at h
  · cases h
  rename_i hcross
  cases h
  refine ⟨by simpa using hpath, by simpa using hhist, by simpa using hexact, ?_, ?_, ?_,
    by simpa using hoffset, rfl, by simp, rfl, rfl, rfl, rfl⟩
  · intro hsub hpos
    simpa [hsub, hpos, or_iff_not_imp_left] using hagg
  · intro hsub
    simpa [hsub] using hvec
  · intro hsub
    simpa [hsub] using hcross

/-! ## Trees without data -/

/-- No selector of the tree has been given its data. -/
def Fresh (e : Expr (Response V)) : Prop :=
  ∀ vs, .vectorSelector vs ∈ e.nodes → vs.unexpandedSeriesSet = none

section

variable {expr expr' : Expr (Response V)}

attribute [local simp] Expr.nodes

@[simp] theorem fresh_vectorSelector {vs : VectorSelector (Response V)} :
    Fresh (.vectorSelector vs) ↔ vs.unexpandedSeriesSet = none := by simp [Fresh]

@[simp] theorem fresh_matrixSelector {vs : VectorSelector (Response V)} {range : Int} :
    Fresh (.matrixSelector vs range) ↔ vs.unexpandedSeriesSet = none := by simp [Fresh]

@[simp] theorem fresh_subqueryExpr {range originalOffset offset step : Int}
    {timestamp : Option Int} :
    Fresh (.subqueryExpr expr range originalOffset offset step timestamp) ↔ Fresh expr := by
  simp [Fresh]

@[simp] theorem fresh_call {func : String} : Fresh (.call func expr) ↔ Fresh expr := by
  simp [Fresh]

@[simp] theorem fresh_aggregateExpr {op : ItemType} {grouping : List String} {without : Bool} :
    Fresh (.aggregateExpr op expr expr' grouping without) ↔ Fresh expr ∧ Fresh expr' := by
  simp [Fresh, or_imp, forall_and]

@[simp] theorem fresh_binaryExpr {op : String} :
    Fresh (.binaryExpr op expr expr') ↔ Fresh expr ∧ Fresh expr' := by
  simp [Fresh, or_imp, forall_and]

@[simp] theorem fresh_unaryExpr {op : String} : Fresh (.unaryExpr op expr) ↔ Fresh expr := by
  simp [Fresh]

@[simp] theorem fresh_parenExpr : Fresh (.parenExpr expr) ↔ Fresh expr := by
  simp [Fresh]

@[simp] theorem fresh_stepInvariantExpr : Fresh (.stepInvariantExpr expr) ↔ Fresh expr := by
  simp [Fresh]

@[simp] theorem fresh_argument : Fresh (.argument expr expr') ↔ Fresh expr ∧ Fresh expr' := by
  simp [Fresh, or_imp, forall_and]

@[simp] theorem fresh_numberLiteral (val : ℚ) : Fresh (.numberLiteral val : Expr (Response V)) := by
  simp [Fresh]

@[simp] theorem fresh_stringLiteral (val : String) :
    Fresh (.stringLiteral val : Expr (Response V)) := by simp [Fresh]

@[simp] theorem fresh_noExpr : Fresh (.noExpr : Expr (Response V)) := by simp [Fresh]

end

theorem fresh_offsetRemover {e : Expr (Response V)} (h : Fresh e) : Fresh (offsetRemover e) := by
  induction e with
  | aggregateExpr op expr param grouping without ih ih' =>
    simp only [fresh_aggregateExpr, offsetRemover] at h ⊢
    exact ⟨ih h.1, ih' h.2⟩
  | binaryExpr op lhs rhs ih ih' =>
    simp only [fresh_binaryExpr, offsetRemover] at h ⊢
    exact ⟨ih h.1, ih' h.2⟩
  | argument head tail ih ih' =>
    simp only [fresh_argument, offsetRemover] at h ⊢
    exact ⟨ih h.1, ih' h.2⟩
  | _ => simp_all [offsetRemover]

theorem fresh_removeOffset (r : Prepared) {e : Expr (Response V)} (h : Fresh e) :
    Fresh (removeOffset r e) := by
  rw [removeOffset]
  split
  · exact h
  · exact fresh_offsetRemover h

/-- A tree that is read from a text has no data. -/
theorem fresh_of_reparse [Regexp] {e e' : Expr (Response V)} (h : e.reparse = some e') :
    Fresh e' := by
  induction e generalizing e' with
  | vectorSelector vs =>
    obtain ⟨vs', hvs', rfl⟩ := Option.map_eq_some_iff.mp h
    obtain ⟨vs'', hvs'', rfl⟩ := Option.map_eq_some_iff.mp hvs'
    rw [fresh_vectorSelector]
    exact (labelMatchers_of_parseExpr hvs'').2.2.2.2
  | matrixSelector vs range =>
    obtain ⟨vs', hvs', rfl⟩ := Option.map_eq_some_iff.mp h
    obtain ⟨vs'', hvs'', rfl⟩ := Option.map_eq_some_iff.mp hvs'
    rw [fresh_matrixSelector]
    exact (labelMatchers_of_parseExpr hvs'').2.2.2.2
  | subqueryExpr expr range originalOffset offset step timestamp ih =>
    obtain ⟨expr', hexpr, rfl⟩ := Option.map_eq_some_iff.mp h
    exact fresh_subqueryExpr.mpr (ih hexpr)
  | call func args ih =>
    obtain ⟨args', hargs, rfl⟩ := Option.map_eq_some_iff.mp h
    exact fresh_call.mpr (ih hargs)
  | aggregateExpr op expr param grouping without ih ih' =>
    obtain ⟨expr', hexpr, h⟩ := Option.bind_eq_some_iff.mp h
    obtain ⟨param', hparam, rfl⟩ := Option.map_eq_some_iff.mp h
    exact fresh_aggregateExpr.mpr ⟨ih hexpr, ih' hparam⟩
  | binaryExpr op lhs rhs ih ih' =>
    obtain ⟨lhs', hlhs, h⟩ := Option.bind_eq_some_iff.mp h
    obtain ⟨rhs', hrhs, rfl⟩ := Option.map_eq_some_iff.mp h
    exact fresh_binaryExpr.mpr ⟨ih hlhs, ih' hrhs⟩
  | unaryExpr op expr ih =>
    obtain ⟨expr', hexpr, rfl⟩ := Option.map_eq_some_iff.mp h
    exact fresh_unaryExpr.mpr (ih hexpr)
  | numberLiteral val =>
    cases h
    exact fresh_numberLiteral val
  | stringLiteral val =>
    cases h
    exact fresh_stringLiteral val
  | parenExpr expr ih =>
    obtain ⟨expr', hexpr, rfl⟩ := Option.map_eq_some_iff.mp h
    exact fresh_parenExpr.mpr (ih hexpr)
  | stepInvariantExpr expr ih => exact ih h
  | noExpr =>
    cases h
    exact fresh_noExpr
  | argument head tail ih ih' =>
    obtain ⟨head', hhead, h⟩ := Option.bind_eq_some_iff.mp h
    obtain ⟨tail', htail, rfl⟩ := Option.map_eq_some_iff.mp h
    exact fresh_argument.mpr ⟨ih hhead, ih' htail⟩

theorem fresh_cloneExpr [Regexp] (e : Expr (Response V)) : Fresh (cloneExpr e) := by
  rw [cloneExpr]
  cases h : e.reparse with
  | none => exact fresh_noExpr
  | some e' => exact fresh_of_reparse h

theorem fresh_preserveLabel [Regexp] (e : Expr (Response V)) (srcLabel dstLabel : String) :
    Fresh (preserveLabel e srcLabel dstLabel) := by
  simp [preserveLabel, fresh_cloneExpr]

/-! ## Restoring -/

theorem restoreOffset_nil (e : Expr (Response V)) : restoreOffset e [] = (e, []) := by
  induction e with
  | vectorSelector vs => rfl
  | matrixSelector vs range => rfl
  | subqueryExpr expr range originalOffset offset step timestamp ih => simp [restoreOffset, ih]
  | call func args ih => simp [restoreOffset, ih]
  | aggregateExpr op expr param grouping without ih ih' => simp [restoreOffset, ih, ih']
  | binaryExpr op lhs rhs ih ih' => simp [restoreOffset, ih, ih']
  | unaryExpr op expr ih => simp [restoreOffset, ih]
  | numberLiteral val => rfl
  | stringLiteral val => rfl
  | parenExpr expr ih => simp [restoreOffset, ih]
  | stepInvariantExpr expr ih => simp [restoreOffset, ih]
  | noExpr => rfl
  | argument head tail ih ih' => simp [restoreOffset, ih, ih']

/-- The offsets go back to the selectors they were taken from. -/
theorem restoreOffset_offsetRemover (e : Expr (Response V)) (rest : List Int) :
    restoreOffset (offsetRemover e) (selectorOffsets e ++ rest) = (e, rest) := by
  induction e generalizing rest with
  | vectorSelector vs => rfl
  | matrixSelector vs range => rfl
  | subqueryExpr expr range originalOffset offset step timestamp ih =>
    simp [offsetRemover, selectorOffsets, restoreOffset, ih]
  | call func args ih => simp [offsetRemover, selectorOffsets, restoreOffset, ih]
  | aggregateExpr op expr param grouping without ih ih' =>
    simp [offsetRemover, selectorOffsets, restoreOffset, List.append_assoc, ih, ih']
  | binaryExpr op lhs rhs ih ih' =>
    simp [offsetRemover, selectorOffsets, restoreOffset, List.append_assoc, ih, ih']
  | unaryExpr op expr ih => simp [offsetRemover, selectorOffsets, restoreOffset, ih]
  | numberLiteral val => rfl
  | stringLiteral val => rfl
  | parenExpr expr ih => simp [offsetRemover, selectorOffsets, restoreOffset, ih]
  | stepInvariantExpr expr ih => simp [offsetRemover, selectorOffsets, restoreOffset, ih]
  | noExpr => rfl
  | argument head tail ih ih' =>
    simp [offsetRemover, selectorOffsets, restoreOffset, List.append_assoc, ih, ih']

theorem restoreOffset_removeOffset (r : Prepared) (n : Expr (Response V)) :
    (restoreOffset (removeOffset r n) (removed r n)).1 = n := by
  rw [removeOffset, removed]
  split
  · rw [restoreOffset_nil]
  · rw [← List.append_nil (selectorOffsets n), restoreOffset_offsetRemover]

/-- A visit that does not replace the node leaves what `restoreOffset` makes the node of. -/
def Restored (node : Expr (Response V)) (visit : Visit V) : Prop :=
  (∀ n, visit.outcome ≠ .pushed n) → (restoreOffset visit.ast visit.offsets).1 = node

theorem restored_of_pushed (node n ast : Expr (Response V)) (offsets : List Int) :
    Restored node ⟨.pushed n, ast, offsets⟩ := fun h => absurd rfl (h n)

theorem restored_unchanged (node : Expr (Response V)) (outcome : Outcome V) :
    Restored node ⟨outcome, node, []⟩ := fun _ => by rw [restoreOffset_nil]

theorem restored_removed (r : Prepared) (node : Expr (Response V)) (outcome : Outcome V) :
    Restored node ⟨outcome, removeOffset r node, removed r node⟩ :=
  fun _ => restoreOffset_removeOffset r node

section

variable [Regexp] (p : ProxyStorage V) (s : EvalStmt) (r : Prepared)

omit [Regexp] in
/-- An arm that restores the offsets, if the response is lossy, and replaces the node, if not. -/
theorem restored_ite (node n ast : Expr (Response V)) (lossy : Bool) (offsets : List Int) :
    Restored node (if lossy then ⟨.fallback .lossyHistogram, removeOffset r node, removed r node⟩
      else ⟨.pushed n, ast, offsets⟩) := by
  cases lossy with
  | true => exact restored_removed r node _
  | false => exact restored_of_pushed node n ast offsets

theorem restored_replaceAggregate (op : ItemType) (expr param : Expr (Response V))
    (grouping : List String) (without : Bool) :
    Restored (.aggregateExpr op expr param grouping without)
      (replaceAggregate p s r op expr param grouping without) := by
  unfold replaceAggregate
  cases hasData expr with
  | true => exact restored_unchanged _ _
  | false =>
    cases op with
    | avg =>
      simp only [Bool.false_eq_true, if_false]
      split
      · exact restored_ite r _ _ _ _ _
      · split
        · exact restored_of_pushed _ _ _ _
        · exact restored_of_pushed _ _ _ _
    | countValues =>
      simp only [Bool.false_eq_true, if_false]
      split
      · exact restored_ite r _ _ _ _ _
      · exact restored_unchanged _ _
    | quantile => exact restored_unchanged _ _
    | stddev => exact restored_unchanged _ _
    | stdvar => exact restored_unchanged _ _
    | limitk => exact restored_unchanged _ _
    | limitRatio => exact restored_unchanged _ _
    | _ => exact restored_ite r _ _ _ _ _

omit [Regexp] in
theorem restored_replaceCall (func : String) (args : Expr (Response V)) :
    Restored (.call func args) (replaceCall p s r func args) := by
  simp only [replaceCall]
  cases perSeriesFuncs.contains func with
  | false => exact restored_unchanged _ _
  | true => exact restored_ite r _ _ _ _ _

omit [Regexp] in
/-- Undoing what an arm does to the lookback of its selector. -/
theorem tightenedSelector_undone (vs : VectorSelector (Response V)) :
    { tightenedSelector s r vs with lookbackDelta := vs.lookbackDelta } =
      if r.keepOffsets then vs else { vs with originalOffset := 0 } := by
  rw [tightenedSelector]
  split
  · rfl
  · rfl

omit [Regexp] in
theorem restored_replaceVectorSelector {path : List (Expr (Response V))}
    {vs : VectorSelector (Response V)} {visit : Visit V}
    (h : replaceVectorSelector p s r path vs = .ok visit) :
    Restored (.vectorSelector vs) visit := by
  have hundone : Expr.vectorSelector
      { tightenedSelector s r vs with lookbackDelta := vs.lookbackDelta } =
        removeOffset r (.vectorSelector vs) := by
    rw [tightenedSelector_undone, removeOffset, apply_ite Expr.vectorSelector, offsetRemover]
  simp only [replaceVectorSelector, hundone] at h
  split at h
  · cases h
    exact restored_unchanged _ _
  · split at h
    · cases h
      exact restored_unchanged _ _
    · split at h
      · cases h
      · split at h
        · cases h
          exact restored_removed _ _ _
        · split at h
          · cases h
            exact restored_of_pushed _ _ _ _
          · cases h
            exact restored_of_pushed _ _ _ _

omit [Regexp] in
theorem offsetRemover_literal {l : Expr (Response V)} (h : exprIsLiteral (unwrapExpr l) = true) :
    offsetRemover l = l := by
  cases l with
  | numberLiteral val => rfl
  | stringLiteral val => rfl
  | stepInvariantExpr expr =>
    cases expr with
    | numberLiteral val => rfl
    | stringLiteral val => rfl
    | _ => cases h
  | _ => cases h

omit [Regexp] in
theorem restored_vectorBinaryExpr {node : VectorSelector (Response V) → Expr (Response V)}
    (hnode : ∀ vs, offsetRemover (node vs) = node { vs with originalOffset := 0 })
    {vs : VectorSelector (Response V)} {visit : Visit V}
    (h : vectorBinaryExpr p s r node vs = .ok visit) : Restored (node vs) visit := by
  have hundone : node { tightenedSelector s r vs with lookbackDelta := vs.lookbackDelta } =
      removeOffset r (node vs) := by
    rw [tightenedSelector_undone, removeOffset, hnode, apply_ite node]
  simp only [vectorBinaryExpr, hundone] at h
  split at h
  · cases h
  · split at h
    · cases h
      exact restored_removed _ _ _
    · cases h
      exact restored_of_pushed _ _ _ _

omit [Regexp] in
theorem restored_replaceBinary {op : String} {lhs rhs : Expr (Response V)} {visit : Visit V}
    (h : replaceBinary p s r op lhs rhs = .ok visit) : Restored (.binaryExpr op lhs rhs) visit := by
  simp only [replaceBinary] at h
  split at h
  · rename_i hlit
    split at h
    · refine restored_vectorBinaryExpr p s r (fun vs => ?_) h
      rw [offsetRemover, offsetRemover_literal hlit, offsetRemover]
    · cases h
      exact restored_unchanged _ _
  · split at h
    · rename_i hlit
      split at h
      · refine restored_vectorBinaryExpr p s r (fun vs => ?_) h
        rw [offsetRemover, offsetRemover_literal hlit, offsetRemover]
      · cases h
        exact restored_unchanged _ _
    · cases h
      exact restored_unchanged _ _

end

/-! ## A visit and a walk -/

section

variable {α β : Type}

theorem map_eq_ok {x : Except Failure α} {f : α → β} {b : β} (h : x.map f = .ok b) :
    ∃ a, x = .ok a ∧ f a = b := by
  cases x with
  | error e => cases h
  | ok a =>
    cases h
    exact ⟨a, rfl, rfl⟩

theorem bind_eq_ok {x : Except Failure α} {f : α → Except Failure β} {b : β}
    (h : x.bind f = .ok b) : ∃ a, x = .ok a ∧ f a = .ok b := by
  cases x with
  | error e => cases h
  | ok a => exact ⟨a, rfl, h⟩

end

section

variable [Regexp] [Engine V] {p : ProxyStorage V}
  {inspect : EvalStmt → Expr (Response V) → Except Failure (Expr (Response V) × Bool)}

/-- A tree of which nothing was pushed down is the one there was before. -/
def Keeps (walked : Except Failure (Expr (Response V) × Bool)) (e : Expr (Response V)) : Prop :=
  ∀ e', walked = .ok (e', false) → e' = e

omit [Engine V] in
theorem restored_replaceNode (hinspect : ∀ s e, Keeps (inspect s e) e) {s : EvalStmt} {r : Prepared}
    {path : List (Expr (Response V))} {node : Expr (Response V)} {visit : Visit V}
    (h : replaceNode p inspect s r path node = .ok visit) : Restored node visit := by
  cases node with
  | aggregateExpr op expr param grouping without =>
    cases h
    exact restored_replaceAggregate p s r op expr param grouping without
  | call func args =>
    cases h
    exact restored_replaceCall p s r func args
  | vectorSelector vs => exact restored_replaceVectorSelector p s r h
  | binaryExpr op lhs rhs => exact restored_replaceBinary p s r h
  | subqueryExpr expr range originalOffset offset step timestamp =>
    obtain ⟨⟨newN, pushed⟩, hnewN, rfl⟩ := map_eq_ok h
    cases pushed with
    | true => exact restored_of_pushed _ _ _ _
    | false =>
      rw [hinspect _ _ _ hnewN]
      exact restored_unchanged _ _
  | _ =>
    cases h
    exact restored_unchanged _ _

theorem ast_of_declined (hinspect : ∀ s e, Keeps (inspect s e) e) {s : EvalStmt}
    {path : List (Expr (Response V))} {node : Expr (Response V)} {visit : Visit V}
    (h : nodeReplacer p inspect s path node = .ok visit)
    (hdeclined : ∀ n, visit.outcome ≠ .pushed n) : visit.ast = node := by
  obtain ⟨prepared, -, hvisit⟩ := bind_eq_ok h
  cases prepared with
  | inl reason =>
    cases hvisit
    rfl
  | inr r =>
    obtain ⟨⟨outcome, ast, offsets⟩, hnode, rfl⟩ := map_eq_ok hvisit
    have hrestored := restored_replaceNode hinspect hnode
    cases outcome with
    | pushed n => exact absurd rfl (hdeclined n)
    | fallback reason => exact hrestored (by simp)
    | revisit => exact hrestored (by simp)

omit [Regexp] [Engine V] in
theorem keeps_map {x : Except Failure (Expr (Response V) × Bool)} {e : Expr (Response V)}
    (hx : Keeps x e) (node : Expr (Response V) → Expr (Response V)) :
    Keeps (x.map fun y => (node y.1, y.2)) (node e) := by
  intro e' h
  obtain ⟨⟨y, pushed⟩, hy, heq⟩ := map_eq_ok h
  cases heq
  rw [hx _ hy]

omit [Regexp] [Engine V] in
theorem keeps_walkBoth {fst snd : Except Failure (Expr (Response V) × Bool)}
    {e e' : Expr (Response V)} (hfst : Keeps fst e) (hsnd : Keeps snd e')
    (node : Expr (Response V) → Expr (Response V) → Expr (Response V)) :
    Keeps (walkBoth node fst snd) (node e e') := by
  intro n h
  obtain ⟨⟨x, pushed⟩, hx, h⟩ := bind_eq_ok h
  obtain ⟨⟨y, pushed'⟩, hy, heq⟩ := map_eq_ok h
  rw [Prod.mk.injEq, Bool.or_eq_false_iff] at heq
  obtain ⟨rfl, rfl, rfl⟩ := heq
  rw [hfst _ hx, hsnd _ hy]

omit [Regexp] [Engine V] in
theorem keeps_walkChildren
    {walk : Expr (Response V) → Except Failure (Expr (Response V) × Bool)}
    (hwalk : ∀ e, Keeps (walk e) e) (node : Expr (Response V)) :
    Keeps (walkChildren walk node) node := by
  cases node with
  | matrixSelector vs range =>
    intro e' h
    obtain ⟨⟨y, pushed⟩, hy, heq⟩ := map_eq_ok h
    cases pushed with
    | true => cases y <;> cases heq
    | false =>
      rw [hwalk _ _ hy] at heq
      cases heq
      rfl
  | subqueryExpr expr range originalOffset offset step timestamp =>
    exact keeps_map (hwalk expr) fun expr => .subqueryExpr expr range originalOffset offset step timestamp
  | call func args => exact keeps_map (hwalk args) (.call func)
  | aggregateExpr op expr param grouping without =>
    exact keeps_walkBoth (hwalk expr) (hwalk param) fun expr param =>
      .aggregateExpr op expr param grouping without
  | binaryExpr op lhs rhs => exact keeps_walkBoth (hwalk lhs) (hwalk rhs) (.binaryExpr op)
  | unaryExpr op expr => exact keeps_map (hwalk expr) (.unaryExpr op)
  | parenExpr expr => exact keeps_map (hwalk expr) .parenExpr
  | stepInvariantExpr expr => exact keeps_map (hwalk expr) .stepInvariantExpr
  | argument head tail => exact keeps_walkBoth (hwalk head) (hwalk tail) .argument
  | _ =>
    intro e' h
    cases h
    rfl

/-- What the walk goes on with after a visit. -/
theorem keeps_visit (hinspect : ∀ s e, Keeps (inspect s e) e)
    {next : Visit V → Except Failure (Expr (Response V) × Bool)} {s : EvalStmt}
    {path : List (Expr (Response V))} {node : Expr (Response V)}
    (hpushed : ∀ visit n, visit.outcome = .pushed n → ∀ e', next visit ≠ .ok (e', false))
    (hkept : ∀ visit, (∀ n, visit.outcome ≠ .pushed n) → Keeps (next visit) visit.ast) :
    Keeps ((nodeReplacer p inspect s path node).bind next) node := by
  intro e' h
  obtain ⟨visit, hvisit, h⟩ := bind_eq_ok h
  have hdeclined : ∀ n, visit.outcome ≠ .pushed n := fun n ho => hpushed visit n ho e' h
  exact (hkept visit hdeclined e' h).trans (ast_of_declined hinspect hvisit hdeclined)

theorem keeps_walk (fuel : Nat) (s : EvalStmt) (path : List (Expr (Response V)))
    (node : Expr (Response V)) : Keeps (walk p fuel s path node) node := by
  induction fuel generalizing s path node with
  | zero =>
    intro e' h
    cases h
  | succ fuel ih =>
    cases node with
    | argument head tail => exact keeps_walkChildren (ih s path) _
    | noExpr =>
      intro e' h
      cases h
      rfl
    | _ =>
      refine keeps_visit (fun s e => ih s [] e) (fun visit n ho e' h => ?_) fun visit ho => ?_
      · simp only [ho] at h
        obtain ⟨y, -, heq⟩ := map_eq_ok h
        cases heq
      · cases hout : visit.outcome with
        | pushed n => exact absurd hout (ho n)
        | fallback reason => exact keeps_walkChildren (ih s (visit.ast :: path)) visit.ast
        | revisit => exact keeps_walkChildren (ih s (visit.ast :: path)) visit.ast

/-- A visit that does not replace its node leaves the tree as it was, and so does a walk without a
replacement. -/
theorem declined_restores (p : ProxyStorage V) (fuel : Nat) (s : EvalStmt)
    (path : List (Expr (Response V))) (node : Expr (Response V)) :
    (∀ visit, nodeReplacer p (fun s expr => walk p fuel s [] expr) s path node = .ok visit →
      (∀ n, visit.outcome ≠ .pushed n) → visit.ast = node) ∧
    ∀ node', walk p fuel s path node = .ok (node', false) → node' = node :=
  ⟨fun _ h hdeclined => ast_of_declined (fun s e => keeps_walk fuel s [] e) h hdeclined,
    keeps_walk fuel s path node⟩

end

end

section

attribute [local instance] sortingLibraries

/-- Two server groups that answer every request with `result`. -/
def answering (result : Response ℚ) : ProxyStorage ℚ where
  sgs := [⟨0, false, false, 0, fun _ => false⟩, ⟨1, false, false, 0, fun _ => false⟩]
  crossGroupExact := false
  client := ⟨fun _ _ _ => result, fun _ _ _ _ _ => result⟩
  noStepSubqueryIntervalFn _ := 60000

/-- `foo offset 1m` -/
def fooOffset : VectorSelector (Response ℚ) :=
  ⟨"foo", [nameMatcher "foo"], 60000, none, 0, none⟩

def oneHistogram : Response ℚ := ⟨[⟨Labels.empty, [(0, .histogram 1)]⟩], false⟩

/-- `sum(foo offset 1m)`, which is answered by a histogram. -/
theorem declined_restores_sum :
    ∃ visit,
      nodeReplacer (answering oneHistogram) (fun s expr => walk (answering oneHistogram) 3 s [] expr)
        ⟨0, 600000, 60000⟩ [] (.aggregateExpr .sum (.vectorSelector fooOffset) .noExpr [] false) =
          .ok visit ∧
      visit.outcome = .fallback .lossyHistogram ∧
      visit.ast = .aggregateExpr .sum (.vectorSelector fooOffset) .noExpr [] false := by
  obtain ⟨visit, hvisit, houtcome⟩ : ∃ visit,
      nodeReplacer (answering oneHistogram) (fun s expr => walk (answering oneHistogram) 3 s [] expr)
        ⟨0, 600000, 60000⟩ [] (.aggregateExpr .sum (.vectorSelector fooOffset) .noExpr [] false) =
          .ok visit ∧
      visit.outcome = .fallback .lossyHistogram := ⟨_, rfl, rfl⟩
  refine ⟨visit, hvisit, houtcome, (declined_restores _ 3 _ [] _).1 visit hvisit fun n hn => ?_⟩
  rw [houtcome] at hn
  cases hn

end

end Proxystorage
end Proxeus
