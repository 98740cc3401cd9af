import Proxeus.Proxystorage.SeriesContext

/-!
# Proxystorage.WholeQuery

Instant queries over server groups, as a whole. `NodeReplacer` sends some parts of a query to the
groups, and leaves others to the engine, over what has been sent below them. `Query` are the queries of
selectors, functions and operators on each series, aggregations that are split, and whatever the engine
does with these. The tree that the walk leaves of one has in the engine the value that the query has
over the labelled series of all groups (`walk_preserves`).
-/

namespace Proxeus
namespace Proxystorage

open Lib Promclient Promql

/-! ## What becomes of a part of a query -/

section

variable [Libraries]

/-- The walk leaves a tree that the engine evaluates to the same answer, or fails where there is none. -/
def Preserves (p : ProxyStorage ℚ) (src : Source (Response ℚ) ℚ) (ts : Int)
    (path : List (Expr (Response ℚ))) (e : Expr (Response ℚ)) (answer : Option (Value ℚ)) : Prop :=
  (∃ tree pushed, Walks p (instantStmt ts) path e tree pushed ∧ SameAnswer (eval src tree ts) answer) ∨
    (answer = none ∧
      ∃ depth, ∀ fuel, depth ≤ fuel → walk p fuel (instantStmt ts) path e = .error .downstream)

/-- The same for the children of a node. -/
def PreservesChildren (p : ProxyStorage ℚ) (src : Source (Response ℚ) ℚ) (ts : Int)
    (path : List (Expr (Response ℚ))) (node : Expr (Response ℚ)) (answer : Option (Value ℚ)) : Prop :=
  (∃ node' pushed, WalksChildren p (instantStmt ts) path node node' pushed ∧
      SameAnswer (eval src node' ts) answer) ∨
    (answer = none ∧
      ∃ depth, ∀ fuel, depth ≤ fuel →
        walkChildren (walk p fuel (instantStmt ts) path) node = .error .downstream)

/-- No arm replaces the node. -/
def Left (p : ProxyStorage ℚ) (s : EvalStmt) (path : List (Expr (Response ℚ)))
    (node : Expr (Response ℚ)) : Prop :=
  ∀ inspect r, prepare p node path = .ok (.inr r) → ∃ outcome, (∀ n, outcome ≠ .pushed n) ∧
    replaceNode p inspect s r path node = .ok ⟨outcome, node, []⟩

variable {p : ProxyStorage ℚ} {src : Source (Response ℚ) ℚ} {ts : Int} {s : EvalStmt}
  {path : List (Expr (Response ℚ))} {node e : Expr (Response ℚ)} {answer answer' : Option (Value ℚ)}

theorem visit_of_left (h : Floats p path node) (hleft : Left p s path node)
    (inspect : EvalStmt → Expr (Response ℚ) → Except Failure (Expr (Response ℚ) × Bool)) :
    ∃ visit, nodeReplacer p inspect s path node = .ok visit ∧ (∀ n, visit.outcome ≠ .pushed n) ∧
      visit.ast = node := by
  obtain ⟨prepared, hprepared⟩ := exists_prepare h
  rw [nodeReplacer, hprepared, Except.bind]
  cases prepared with
  | inl reason => exact ⟨_, rfl, fun n => by simp, rfl⟩
  | inr r =>
    obtain ⟨outcome, hout, hok⟩ := hleft inspect r hprepared
    show ∃ visit, replace p inspect s r path node = .ok visit ∧ _
    rw [replace, hok]
    refine ⟨_, rfl, ?_⟩
    cases outcome with
    | pushed n => exact absurd rfl (hout n)
    | fallback reason => exact ⟨fun n => by simp, congrArg Prod.fst (restoreOffset_nil node)⟩
    | revisit => exact ⟨fun n => by simp, congrArg Prod.fst (restoreOffset_nil node)⟩

/-- A node that is not replaced is answered by way of its children. -/
theorem Preserves.left (hnode : IsNode node) (h : Floats p path node)
    (hleft : Left p (instantStmt ts) path node)
    (hchildren : PreservesChildren p src ts (node :: path) node answer) :
    Preserves p src ts path node answer := by
  rcases hchildren with ⟨node', pushed, hwalk, hsame⟩ | ⟨hnone, depth, hdepth⟩
  · exact Or.inl ⟨node', pushed, Walks.kept hnode (visit_of_left h hleft) hwalk, hsame⟩
  · refine Or.inr ⟨hnone, depth + 1, fun fuel hfuel => ?_⟩
    obtain ⟨fuel, rfl⟩ := Nat.exists_eq_add_of_le' (Nat.le_trans (Nat.le_add_left 1 depth) hfuel)
    obtain ⟨visit, hok, hout, hast⟩ := visit_of_left h hleft fun s expr => walk p fuel s [] expr
    rw [walk_of_isNode hnode, hok, Except.bind, hast]
    have hfails := hdepth fuel (Nat.le_of_succ_le_succ hfuel)
    cases hvisit : visit.outcome with
    | pushed n => exact absurd hvisit (hout n)
    | _ => exact hfails

/-! ## Children -/

theorem PreservesChildren.map {child : Expr (Response ℚ)} {f : Expr (Response ℚ) → Expr (Response ℚ)}
    (hchild : Preserves p src ts path child answer)
    (hwalk : ∀ walk, walkChildren walk (f child) = (walk child).map fun e => (f e.1, e.2))
    {g : Value ℚ → Option (Value ℚ)} (heval : ∀ e, eval src (f e) ts = (eval src e ts).bind g)
    (hg : ∀ x x', Value.Same x x' → SameAnswer (g x) (g x')) :
    PreservesChildren p src ts path (f child) (answer.bind g) := by
  rcases hchild with ⟨tree, pushed, ⟨depth, hdepth⟩, hsame⟩ | ⟨rfl, depth, hdepth⟩
  · refine Or.inl ⟨f tree, pushed, ⟨depth, fun fuel hfuel => ?_⟩, ?_⟩
    · rw [hwalk, hdepth fuel hfuel]
      rfl
    · rw [heval]
      exact hsame.bind hg
  · refine Or.inr ⟨rfl, depth, fun fuel hfuel => ?_⟩
    rw [hwalk, hdepth fuel hfuel]
    rfl

theorem PreservesChildren.both {fst snd : Expr (Response ℚ)}
    {f : Expr (Response ℚ) → Expr (Response ℚ) → Expr (Response ℚ)}
    (hfst : Preserves p src ts path fst answer) (hsnd : Preserves p src ts path snd answer')
    (hwalk : ∀ walk, walkChildren walk (f fst snd) = walkBoth f (walk fst) (walk snd))
    {g : Value ℚ → Value ℚ → Option (Value ℚ)}
    (heval : ∀ e e', eval src (f e e') ts = (eval src e ts).bind fun x => (eval src e' ts).bind (g x))
    (hg : ∀ x x' y y', Value.Same x x' → Value.Same y y' → SameAnswer (g x y) (g x' y')) :
    PreservesChildren p src ts path (f fst snd) (answer.bind fun x => answer'.bind (g x)) := by
  rcases hfst with ⟨tree, pushed, hwalks, hsame⟩ | ⟨rfl, depth, hdepth⟩
  · rcases hsnd with ⟨tree', pushed', hwalks', hsame'⟩ | ⟨rfl, depth, hdepth⟩
    · obtain ⟨depth, hdepth⟩ := walkBoth_walks f hwalks hwalks'
      refine Or.inl ⟨f tree tree', pushed || pushed', ⟨depth, fun fuel hfuel => ?_⟩, ?_⟩
      · rw [hwalk, hdepth fuel hfuel]
      · rw [heval]
        exact hsame.bind fun x x' hx => hsame'.bind fun y y' hy => hg x x' y y' hx hy
    · obtain ⟨depth', hdepth'⟩ := hwalks
      refine Or.inr ⟨by cases answer <;> rfl, max depth depth', fun fuel hfuel => ?_⟩
      rw [hwalk, hdepth fuel (le_of_max_le_left hfuel), hdepth' fuel (le_of_max_le_right hfuel)]
      rfl
  · refine Or.inr ⟨rfl, depth, fun fuel hfuel => ?_⟩
    rw [hwalk, hdepth fuel hfuel]
    rfl

theorem PreservesChildren.leaf {leaf : Expr (Response ℚ)}
    (h : ∀ walk, walkChildren (V := ℚ) walk leaf = .ok (leaf, false)) :
    PreservesChildren p src ts path leaf (eval src leaf ts) :=
  Or.inl ⟨leaf, false, WalksChildren.leaf h, SameAnswer.refl _⟩

/-- A list of arguments is no node. -/
theorem Preserves.argument {head tail : Expr (Response ℚ)}
    (hhead : Preserves p src ts path head (eval src head ts))
    (htail : Preserves p src ts path tail (eval src tail ts)) :
    Preserves p src ts path (.argument head tail) (eval src (.argument head tail) ts) := by
  have heval (e e' : Expr (Response ℚ)) : eval src (.argument e e') ts =
      (eval src e ts).bind fun x => (eval src e' ts).bind fun y => some (.values x y) := by
    simp only [eval, Option.map_eq_bind]
    rfl
  have hboth := PreservesChildren.both hhead htail (fun _ => rfl) heval
    fun x x' y y' hx hy => .some (.values hx hy)
  rw [← heval] at hboth
  rcases hboth with ⟨tree, pushed, ⟨depth, hdepth⟩, hsame⟩ | ⟨hnone, depth, hdepth⟩
  · refine Or.inl ⟨tree, pushed, ⟨depth + 1, fun fuel hfuel => ?_⟩, hsame⟩
    obtain ⟨fuel, rfl⟩ := Nat.exists_eq_add_of_le' (Nat.le_trans (Nat.le_add_left 1 depth) hfuel)
    exact hdepth fuel (Nat.le_of_succ_le_succ hfuel)
  · refine Or.inr ⟨hnone, depth + 1, fun fuel hfuel => ?_⟩
    obtain ⟨fuel, rfl⟩ := Nat.exists_eq_add_of_le' (Nat.le_trans (Nat.le_add_left 1 depth) hfuel)
    exact hdepth fuel (Nat.le_of_succ_le_succ hfuel)

theorem Preserves.noExpr : Preserves p src ts path .noExpr (eval src .noExpr ts) :=
  Or.inl ⟨.noExpr, false, Walks.noExpr, SameAnswer.refl _⟩

end

/-! ## Nodes that are left -/

section

variable [Libraries] {p : ProxyStorage ℚ} {s : EvalStmt} {path : List (Expr (Response ℚ))}
  {node : Expr (Response ℚ)}

/-- What keeps the guards from passing a node. -/
inductive Held : Expr (Response ℚ) → Prop where
  | selectors {node : Expr (Response ℚ)} (h : 1 < booleanFinder isVectorSelector node) : Held node
  | crossSeries {node : Expr (Response ℚ)} (h : 0 < booleanFinder isCrossSeriesCall node) : Held node
  | aggregates {node : Expr (Response ℚ)} (h : 1 < booleanFinder isAgg node) : Held node
  | belowCall {func : String} {args : Expr (Response ℚ)}
      (h : 0 < booleanFinder isAgg (.call func args : Expr (Response ℚ))) : Held (.call func args)

theorem left_of_held (hsub : isSubQuery node = false) (h : Held node) : Left p s path node := by
  intro inspect r hprepare
  have haccepted := prepare_eq_inr hprepare
  exfalso
  cases h with
  | selectors h =>
    have hone := haccepted.selectors hsub
    omega
  | crossSeries h =>
    have hnone := haccepted.crossSeries hsub
    omega
  | aggregates h =>
    have hone := (haccepted.aggregates hsub (by omega)).2
    omega
  | belowCall h =>
    rcases (haccepted.aggregates hsub h).1 with hagg | hbinary
    · cases hagg
    · cases hbinary

theorem left_call {func : String} (hfunc : perSeriesFuncs.contains func = false)
    (args : Expr (Response ℚ)) : Left p s path (.call func args) := by
  intro inspect r _
  refine ⟨.fallback .unsupportedFunc, by simp, ?_⟩
  show Except.ok (replaceCall p s r func args) = _
  rw [replaceCall, hfunc]
  rfl

/-- A binary expression that is not one of a selector and a literal. -/
def isScaled : Expr (Response ℚ) → Expr (Response ℚ) → Bool
  | lhs, rhs =>
    (exprIsLiteral (unwrapExpr lhs) && isVectorSelector rhs) ||
      (exprIsLiteral (unwrapExpr rhs) && isVectorSelector lhs)

theorem left_binaryExpr (op : String) {lhs rhs : Expr (Response ℚ)} (h : isScaled lhs rhs = false) :
    Left p s path (.binaryExpr op lhs rhs) := by
  intro inspect r _
  rw [isScaled, Bool.or_eq_false_iff] at h
  show ∃ outcome, _ ∧ replaceBinary p s r op lhs rhs = _
  unfold replaceBinary
  split
  · rename_i hleft
    rw [hleft, Bool.true_and] at h
    cases rhs with
    | vectorSelector vs => cases h.1
    | _ => exact ⟨_, by simp, rfl⟩
  · split
    · rename_i hright
      rw [hright, Bool.true_and] at h
      cases lhs with
      | vectorSelector vs => cases h.2
      | _ => exact ⟨_, by simp, rfl⟩
    · exact ⟨_, by simp, rfl⟩

theorem left_aggregateExpr {op : ItemType} (hop : op ∈ [.stddev, .stdvar, .quantile])
    (expr param : Expr (Response ℚ)) (grouping : List String) (without : Bool) :
    Left p s path (.aggregateExpr op expr param grouping without) := by
  intro inspect r _
  have houtcome : replaceAggregate p s r op expr param grouping without =
      ⟨if hasData expr then .revisit else .fallback .nonReentrantAgg,
        .aggregateExpr op expr param grouping without, []⟩ := by
    simp only [List.mem_cons, List.not_mem_nil, or_false] at hop
    unfold replaceAggregate
    rcases hop with rfl | rfl | rfl <;> cases hasData expr <;> rfl
  refine ⟨if hasData expr then .revisit else .fallback .nonReentrantAgg, fun n => ?_,
    congrArg Except.ok houtcome⟩
  split <;> simp

/-- The nodes without an arm of their own. -/
theorem left_unsupported
    (h : ∀ inspect r, replaceNode p inspect s r path node = .ok ⟨.fallback .unsupported, node, []⟩) :
    Left p s path node := fun inspect r _ => ⟨_, by simp, h inspect r⟩

end

/-! ## Nodes that are sent -/

section

variable [Libraries] [MergeSeriesSet]

/-- A proxy that asks the groups alike whether a request is marked or not. -/
structure FrontsAll (p : ProxyStorage ℚ) (apis : List (QueryAPI (Response ℚ))) : Prop
    extends Fronts p apis where
  plain : ∀ e t, p.client.query false e t = instantResponse t ((multiAPI apis).query e t)

variable {p : ProxyStorage ℚ} {apis : List (QueryAPI (Response ℚ))} {src : Source (Response ℚ) ℚ}
  {ts : Int} {path : List (Expr (Response ℚ))} {groups : List ServerGroup}
  {e : Expr (Response ℚ)} {answers : ServerGroup → Option (InstantVector ℚ)} {r : Prepared}

/-- An operand without an aggregation is accepted too. -/
theorem SentOperand.accepted_alone
    (h : SentOperand groups ServerGroup.toDownstream ts e answers) (hfronts : Fronts p apis)
    (hpath : Clean path) (hsub : isSubQuery e = false) :
    ∃ r, prepare p e path = .ok (.inr r) ∧
      ∀ g ∈ groups, g.answer (removeOffset r e) (ts - r.reqOffset) = answers g := by
  obtain ⟨offset, hvisit, hmoved⟩ := h.moved
  have hfound : offsetFinder e = ⟨true, offset, false⟩ := by
    have hfinder : offsetFinder e = OffsetFinder.visit ⟨false, 0, false⟩ (e.nodes ++ []) := by
      rw [List.append_nil]
      cases e with
      | subqueryExpr => cases hsub
      | _ => rfl
    rw [hfinder, hvisit]
    rfl
  have hfinder := (Floats.mk hfronts.metrics hpath.histogram h.floats).histogramFinder
  have hprepare : ∃ r, prepare p e path = .ok (.inr r) := by
    rw [prepare]
    dsimp only
    rw [hpath.subQuery, hpath.histogram, hfinder, hfronts.notExact, hfound, h.noAggregates,
      h.oneSelector, h.perSeries]
    exact ⟨_, rfl⟩
  obtain ⟨r, hprepare⟩ := hprepare
  have haccepted := prepare_eq_inr hprepare
  refine ⟨r, hprepare, fun g hg => ?_⟩
  rw [haccepted.reqOffset, removeOffset]
  cases hkeep : r.keepOffsets with
  | true =>
    rw [if_pos rfl, if_pos rfl, Int.sub_zero]
    exact h.kept g hg
  | false =>
    have hoffset : r.offset = offset := by rw [haccepted.offset, hfound]
    rw [if_neg Bool.false_ne_true, if_neg Bool.false_ne_true, hoffset]
    refine hmoved ?_ g hg
    by_contra hsome
    have hkept := haccepted.keepOffsets.mpr (Or.inl (Nat.pos_of_ne_zero hsome))
    rw [hkeep] at hkept
    cases hkept

/-- What the groups answer to an operand. -/
theorem query_sent (he : e.reparse = some e) {t : Int}
    (hanswers : ∀ g ∈ groups, g.answer (removeOffset r e) t = answers g) :
    (multiAPI (groups.map fun g => g.api)).query (removeOffset r e) t =
      (allAnswers (groups.map fun g => (answers g).map (List.map (addLabels g.labels)))).map
        (mergeSeriesSets VectorSample.metric) := by
  simp only [multiAPI, List.map_map, Function.comp_def]
  refine congrArg (fun l => (allAnswers l).map _) (List.map_congr_left fun g hg => ?_)
  rw [Downstream.query_eq _ (reparse_removeOffset r he), hanswers g hg]

omit [Libraries] in
/-- The merged answers of the groups are the value. -/
theorem Pools.merged {answer : Option (Value ℚ)} (h : Pools groups answer answers)
    (hdist : groups.Pairwise fun g h => Distinguished g.labels h.labels) :
    SameAnswer (((allAnswers (groups.map fun g => (answers g).map (List.map (addLabels g.labels)))).map
      (mergeSeriesSets VectorSample.metric)).map .vector) answer := by
  cases h with
  | answered hperm hnodup hlacks hanswers =>
    rename_i parts
    have hall : groups.map (fun g => (answers g).map (List.map (addLabels g.labels))) =
        groups.map fun g => some ((parts g).map (addLabels g.labels)) :=
      List.map_congr_left fun g hg => by rw [hanswers g hg, Option.map_some]
    rw [hall, allAnswers_map_some]
    exact .some (.vector ((keptApart hdist hnodup hlacks).trans hperm.symm))
  | failed hg hnone =>
    rename_i g
    have hfails : allAnswers (groups.map fun g =>
        (answers g).map (List.map (addLabels g.labels))) = none :=
      allAnswers_map_eq_none.mpr ⟨g, hg, by rw [hnone]; rfl⟩
    rw [hfails]
    exact .none

omit [Libraries] [MergeSeriesSet] in
theorem containsLossyHistogram_instantResponse (t : Int) (answer : Option (InstantVector ℚ)) :
    containsLossyHistogram (instantResponse t answer) = false := by
  cases answer with
  | none => rfl
  | some v => simp [containsLossyHistogram, instantResponse, Point.isHistogram]

omit [MergeSeriesSet] in
/-- A selector with the response to a request is evaluated to the answer. -/
theorem eval_response (hsrc : LooksUp src) {vs : VectorSelector (Response ℚ)}
    {answer : Option (InstantVector ℚ)} {offset : Int} (htimestamp : vs.timestamp = none)
    (hoffset : vs.originalOffset = offset)
    (hdata : vs.unexpandedSeriesSet = some (instantResponse (ts - offset) answer)) :
    eval src (.vectorSelector vs) ts = answer.map .vector := by
  obtain ⟨lookback, hlookback, hfetched⟩ := hsrc
  rw [eval, evalVectorSelector, hdata, htimestamp, hoffset]
  show (src.fetched _ (ts - offset)).map _ = _
  rw [hfetched, lookup_instantResponse hlookback]

omit [MergeSeriesSet] in
theorem Preserves.congr {answer answer' : Option (Value ℚ)} (h : Preserves p src ts path e answer)
    (hsame : SameAnswer answer answer') : Preserves p src ts path e answer' := by
  rcases h with ⟨tree, pushed, hwalks, heval⟩ | ⟨rfl, hfails⟩
  · exact Or.inl ⟨tree, pushed, hwalks, heval.trans hsame⟩
  · cases hsame
    exact Or.inr ⟨rfl, hfails⟩

omit [MergeSeriesSet] in
/-- A node that a selector with the response takes the place of. -/
theorem Preserves.sent {node : Expr (Response ℚ)} (hnode : IsNode node)
    (hprepare : prepare p node path = .ok (.inr r)) {vs : VectorSelector (Response ℚ)}
    (hvisit : ∀ inspect, ∃ ast offsets, replaceNode p inspect (instantStmt ts) r path node =
      .ok ⟨.pushed (.vectorSelector vs), ast, offsets⟩)
    {answer : Option (InstantVector ℚ)}
    (heval : eval src (.vectorSelector vs) ts = answer.map .vector) :
    Preserves p src ts path node (answer.map .vector) := by
  refine Or.inl ⟨.vectorSelector vs, true, Walks.pushed hnode (fun inspect => ?_)
    (WalksChildren.leaf fun _ => rfl), by rw [heval]; exact SameAnswer.refl _⟩
  obtain ⟨ast, offsets, hok⟩ := hvisit inspect
  refine ⟨⟨.pushed (.vectorSelector vs), ast, offsets⟩, ?_, rfl⟩
  rw [nodeReplacer, hprepare]
  show replace p inspect (instantStmt ts) r path node = _
  rw [replace, hok]
  rfl

omit [MergeSeriesSet] in
/-- A node for which the groups have no answer. -/
theorem Preserves.downstream {node : Expr (Response ℚ)} (hnode : IsNode node)
    (hprepare : prepare p node path = .ok (.inr r))
    (hvisit : ∀ inspect, replaceNode p inspect (instantStmt ts) r path node = .error .downstream) :
    Preserves p src ts path node none := by
  refine Or.inr ⟨rfl, 1, fun fuel hfuel => ?_⟩
  obtain ⟨fuel, rfl⟩ := Nat.exists_eq_add_of_le' hfuel
  rw [walk_of_isNode hnode, nodeReplacer, hprepare]
  show (replace p _ (instantStmt ts) r path node).bind _ = _
  rw [replace, hvisit]
  rfl

omit [MergeSeriesSet] in
/-- The selector that the answer to a request is put into. -/
theorem eval_responseSelector (hsrc : LooksUp src) (hr : r.synthOffset = r.reqOffset)
    (answer : Option (InstantVector ℚ)) :
    eval src (.vectorSelector (responseSelector (instantStmt ts) r
      (instantResponse (ts - r.reqOffset) answer))) ts = answer.map .vector :=
  eval_response hsrc rfl hr rfl

theorem preserves_call (hfronts : FrontsAll p apis) (hsrc : LooksUp src) {func : String}
    (hfunc : SeriesContext.SentFunc func) {args : Expr (Response ℚ)}
    (hprepare : prepare p (.call func args) path = .ok (.inr r)) :
    Preserves p src ts path (.call func args)
      (((multiAPI apis).query (removeOffset r (.call func args)) (ts - r.reqOffset)).map .vector) := by
  have hnode : IsNode (.call func args : Expr (Response ℚ)) := trivial
  refine Preserves.sent hnode hprepare (fun inspect => ⟨removeOffset r (.call func args),
    removed r (.call func args), ?_⟩)
    (eval_responseSelector hsrc (prepare_eq_inr hprepare).synthOffset _)
  have hsort : (func = "sort" || func = "sort_desc") = false := by
    simp [hfunc.unsorted.1, hfunc.unsorted.2]
  have hinterval : ¬ 0 < (instantStmt ts).interval := lt_irrefl _
  have hresult : p.client.query false (removeOffset r (.call func args))
      ((instantStmt ts).start - r.reqOffset) =
        instantResponse (ts - r.reqOffset)
          ((multiAPI apis).query (removeOffset r (.call func args)) (ts - r.reqOffset)) :=
    hfronts.plain _ _
  show Except.ok (replaceCall p (instantStmt ts) r func args) = _
  unfold replaceCall
  simp only [hinterval, if_false, hresult, hfunc.perSeries, Bool.not_true, Bool.false_eq_true,
    containsLossyHistogram_instantResponse, hsort]

omit [MergeSeriesSet] [Libraries] in
theorem removeOffset_vectorSelector (r : Prepared) (vs : VectorSelector (Response ℚ)) :
    removeOffset r (.vectorSelector vs) = .vectorSelector (tightenedSelector (instantStmt ts) r vs) := by
  rw [removeOffset, tightenedSelector]
  cases r.keepOffsets with
  | true => rfl
  | false => rfl

theorem preserves_vectorSelector (hfronts : FrontsAll p apis) (hsrc : LooksUp src)
    (hpath : path.any isMatrixSelector = false) {vs : VectorSelector (Response ℚ)}
    (hfresh : vs.unexpandedSeriesSet = none)
    (hprepare : prepare p (.vectorSelector vs) path = .ok (.inr r)) :
    Preserves p src ts path (.vectorSelector vs)
      (((multiAPI apis).query (removeOffset r (.vectorSelector vs)) (ts - r.reqOffset)).map .vector) := by
  have hnode : IsNode (.vectorSelector vs : Expr (Response ℚ)) := trivial
  have haccepted := prepare_eq_inr hprepare
  have hhead : path.head?.any isMatrixSelector = false := by
    cases path with
    | nil => rfl
    | cons node path =>
      rw [List.any_cons, Bool.or_eq_false_iff] at hpath
      exact hpath.1
  have hresult : request p (instantStmt ts) r false
      (.vectorSelector (tightenedSelector (instantStmt ts) r vs)) =
        instantResponse (ts - r.reqOffset)
          ((multiAPI apis).query (removeOffset r (.vectorSelector vs)) (ts - r.reqOffset)) := by
    rw [removeOffset_vectorSelector]
    exact hfronts.plain _ _
  cases hanswer : (multiAPI apis).query (removeOffset r (.vectorSelector vs)) (ts - r.reqOffset) with
  | none =>
    rw [hanswer] at hresult
    refine Preserves.downstream hnode hprepare fun inspect => ?_
    show replaceVectorSelector p (instantStmt ts) r path vs = _
    simp [replaceVectorSelector, hfresh, hhead, hresult, instantResponse]
  | some v =>
    rw [hanswer] at hresult
    have herr : (instantResponse (ts - r.reqOffset) (some v)).err = false := rfl
    have hlossy := containsLossyHistogram_instantResponse (ts - r.reqOffset) (some v)
    cases htimestamp : vs.timestamp with
    | some t =>
      have heval : eval src (.vectorSelector { responseSelector (instantStmt ts) r
          (instantResponse (ts - r.reqOffset) (some v)) with
            name := vs.name, labelMatchers := vs.labelMatchers }) ts = (some v).map .vector :=
        eval_response hsrc rfl haccepted.synthOffset rfl
      refine Preserves.sent hnode hprepare (fun inspect =>
        ⟨.vectorSelector (tightenedSelector (instantStmt ts) r vs), removed r (.vectorSelector vs), ?_⟩)
        heval
      show replaceVectorSelector p (instantStmt ts) r path vs = _
      unfold replaceVectorSelector
      simp only [hfresh, hhead, hresult, herr, hlossy, htimestamp, Option.isSome_none,
        Bool.false_eq_true, if_false]
    | none =>
      have hunsafe : booleanFinder (isAtModifierUnsafeCall (V := ℚ)) (.vectorSelector vs) = 0 := rfl
      have hkeep : r.keepOffsets = false := by
        cases hkeep : r.keepOffsets with
        | false => rfl
        | true =>
          have hpin : booleanFinder hasTimestamp (.vectorSelector vs : Expr (Response ℚ)) = 0 := by
            simp [booleanFinder, Expr.nodes, hasTimestamp, htimestamp]
          rcases haccepted.keepOffsets.mp hkeep with hpos | ⟨-, hpos⟩
          · omega
          · omega
      have hoffset : r.offset = r.reqOffset := by
        rw [haccepted.reqOffset, hkeep]
        rfl
      have heval : eval src (.vectorSelector { tightenedSelector (instantStmt ts) r vs with
          originalOffset := r.offset
          unexpandedSeriesSet := some (instantResponse (ts - r.reqOffset) (some v)) }) ts =
            (some v).map .vector :=
        eval_response hsrc htimestamp hoffset rfl
      refine Preserves.sent hnode hprepare (fun inspect =>
        ⟨.vectorSelector { tightenedSelector (instantStmt ts) r vs with
          originalOffset := r.offset
          unexpandedSeriesSet := some (instantResponse (ts - r.reqOffset) (some v)) },
          removed r (.vectorSelector vs), ?_⟩) heval
      show replaceVectorSelector p (instantStmt ts) r path vs = _
      unfold replaceVectorSelector
      simp only [hfresh, hhead, hresult, herr, hlossy, htimestamp, Option.isSome_none,
        Bool.false_eq_true, if_false]

/-- An operator between a selector and a number. -/
theorem preserves_scaled (hfronts : FrontsAll p apis) (hsrc : LooksUp src)
    (node : VectorSelector (Response ℚ) → Expr (Response ℚ)) {vs : VectorSelector (Response ℚ)}
    (hnode : IsNode (node vs))
    (hremove : removeOffset r (node vs) = node (tightenedSelector (instantStmt ts) r vs))
    (harm : ∀ inspect, replaceNode p inspect (instantStmt ts) r path (node vs) =
      vectorBinaryExpr p (instantStmt ts) r node vs)
    (hprepare : prepare p (node vs) path = .ok (.inr r)) :
    Preserves p src ts path (node vs)
      (((multiAPI apis).query (removeOffset r (node vs)) (ts - r.reqOffset)).map .vector) := by
  have haccepted := prepare_eq_inr hprepare
  have hresult : request p (instantStmt ts) r false (node (tightenedSelector (instantStmt ts) r vs)) =
      instantResponse (ts - r.reqOffset)
        ((multiAPI apis).query (removeOffset r (node vs)) (ts - r.reqOffset)) := by
    rw [hremove]
    exact hfronts.plain _ _
  cases hanswer : (multiAPI apis).query (removeOffset r (node vs)) (ts - r.reqOffset) with
  | none =>
    rw [hanswer] at hresult
    refine Preserves.downstream hnode hprepare fun inspect => ?_
    rw [harm, vectorBinaryExpr, hresult]
    rfl
  | some v =>
    rw [hanswer] at hresult
    refine Preserves.sent hnode hprepare (fun inspect =>
      ⟨node (tightenedSelector (instantStmt ts) r vs), removed r (node vs), ?_⟩)
      (eval_responseSelector hsrc haccepted.synthOffset (some v))
    have herr : (instantResponse (ts - r.reqOffset) (some v)).err = false := rfl
    have hlossy := containsLossyHistogram_instantResponse (ts - r.reqOffset) (some v)
    rw [harm]
    unfold vectorBinaryExpr
    simp only [hresult, herr, hlossy, Bool.false_eq_true, if_false]

/-! ## Aggregations that are split -/

/-- Preserves without the labels of their groups have partial results that the merge keeps apart. -/
theorem partialsApart_of_lacks
    (hdist : groups.Pairwise fun g h => Distinguished g.labels h.labels)
    {parts : ServerGroup → InstantVector ℚ}
    (hnodup : ∀ g ∈ groups, ((parts g).map VectorSample.metric).Nodup)
    (hlacks : ∀ g ∈ groups, Lacks g.labels (parts g)) (grouping : List String) (without : Bool) :
    PartialsApart groups (fun g => g.labels) parts grouping without where
  aggregated := keptApart_aggregateBy hdist hlacks grouping without
  selected agg hagg := by
    refine keptApart hdist (fun g hg => ?_) fun g hg => (hlacks g hg).mono (hagg _).subset
    obtain ⟨l, hperm, hsub⟩ := hagg (parts g)
    exact (hperm.map VectorSample.metric).nodup_iff.mp ((hnodup g hg).sublist (hsub.map _))
  counted valueLabel hnot := by
    refine keptApart hdist (fun g _ => nodup_aggregateBy _ _ _) fun g hg => ?_
    refine lacks_aggregateBy fun s hs name hname => get_groupingLabels_eq_empty ?_
    have hne : name ≠ valueLabel := fun heq => hnot g hg (List.ne_nil_of_mem hs) (heq ▸ hname)
    rw [Labels.get_set, if_neg hne]
    exact hlacks g hg s hs name hname
  named hnot f := keptApart_aggregateBy hdist
    (fun g hg => lacks_copySample (hnot g hg) (hlacks g hg)) (replacedGrouping grouping) without f

omit [Libraries] [MergeSeriesSet] in
theorem perm_of_sameResults {op : ItemType} (hop : op ∉ selections) {grouping : List String}
    {without : Bool} {input flat pushed : InstantVector ℚ}
    (h : SameResults op grouping without input flat pushed) : pushed.Perm flat := by
  cases op with
  | topk => exact absurd (by decide) hop
  | bottomk => exact absurd (by decide) hop
  | _ => exact h

omit [Libraries] [MergeSeriesSet] in
theorem orderless_of_split {op : ItemType} {param : Expr (Response ℚ)}
    (hsplit : SplitAggregation op param) (hop : op ∉ selections) {value : Value ℚ}
    (hparam : Literal param value) : Orderless op value := by
  cases hsplit with
  | composable hcomposable => exact .composable hcomposable value
  | avg => exact .avg value
  | selection hselect k => exact absurd hselect hop
  | countValues valueLabel =>
    cases hparam
    exact .countValues valueLabel

/-- An aggregation that is split, of an operand that the groups answer. -/
theorem preserves_split (hrest : RestOrderless) (hsgs : p.sgs.length ≠ 1)
    (hdist : groups.Pairwise fun g h => Distinguished g.labels h.labels)
    (h : Sends p src ts path groups ServerGroup.toDownstream e answers)
    (hpools : Pools groups (eval src e ts) answers) {op : ItemType} {param : Expr (Response ℚ)}
    (hsplit : SplitAggregation op param) (hop : op ∉ selections) (grouping : List String)
    (without : Bool)
    (hlabel : ∀ valueLabel, param = .stringLiteral valueLabel →
      ∀ g ∈ groups, valueLabel ∉ g.labels.names)
    (hname : op = .avg → metricNameLabel ∉ grouping) :
    Preserves p src ts path (.aggregateExpr op e param grouping without)
      (eval src (.aggregateExpr op e param grouping without) ts) := by
  rw [eval]
  generalize hvalue : eval src e ts = x at hpools
  cases hpools with
  | answered hperm hnodup hlacks hanswers =>
    have hsends := { h with sent := h.sent.congr hanswers }
    obtain ⟨value, pushed, flat, hparam, ⟨tree, hwalks, heval⟩, hflat, hresults⟩ :=
      pushes_of_apart grouping without hsends (nodup_of_distinguished hdist) hsgs hnodup
        (partialsApart_of_lacks hdist hnodup hlacks grouping without) hsplit
        (fun valueLabel heq g hg _ => hlabel valueLabel heq g hg)
        fun havg hin => absurd hin (hname havg)
    refine Or.inl ⟨tree, true, hwalks, ?_⟩
    have hsame := aggregation_perm hrest (orderless_of_split hsplit hop hparam) grouping without
      hperm.symm
    rw [hflat] at hsame
    rw [eval_of_toVector heval, hparam.eval]
    show SameAnswer (some (.vector pushed)) ((aggregation op value grouping without _).map .vector)
    have hpushed : SameAnswer ((some pushed).map Value.vector) ((some flat).map Value.vector) :=
      .some (.vector (perm_of_sameResults hop hresults))
    exact hpushed.trans (SameAnswer.vector hsame)
  | failed hg hnone =>
    obtain ⟨tree, hwalks, heval⟩ := becomes_none grouping without h hsgs hg hnone hsplit
    exact Or.inl ⟨tree, true, hwalks, by rw [heval]; exact .none⟩

end

/-! ## Queries -/

section

variable [Libraries]

/-- A selector and what is done with each of its series, as it is sent to the groups. -/
structure SentSeries (groups : List ServerGroup) (ts : Int) (c : SeriesContext (Response ℚ))
    (leaf : Expr (Response ℚ)) : Prop where
  selector : SentSelector groups ts leaf
  sent : c.Sent
  lawful : c.Lawful groups ts (selectedShape leaf) .vector

/-- The queries over the groups at the time `ts`. What is not sent is left for the engine, also a
function of single series, if something below it is not to be sent with it. -/
inductive Query (groups : List ServerGroup) (ts : Int) : Expr (Response ℚ) → Prop where
  | selector {vs : VectorSelector (Response ℚ)} (h : SentSelector groups ts (.vectorSelector vs)) :
      Query groups ts (.vectorSelector vs)
  | function {func : String} {args : SeriesContext (Response ℚ)} {leaf : Expr (Response ℚ)}
      (h : SentSeries groups ts (.call func args) leaf) :
      Query groups ts (.call func (args.plug leaf))
  | scaledLeft {op : String} {k : ℚ} {vs : VectorSelector (Response ℚ)}
      (h : SentSeries groups ts (.binaryLeft op .hole k) (.vectorSelector vs)) :
      Query groups ts (.binaryExpr op (.vectorSelector vs) (.numberLiteral k))
  | scaledRight {op : String} {k : ℚ} {vs : VectorSelector (Response ℚ)}
      (h : SentSeries groups ts (.binaryRight op k .hole) (.vectorSelector vs)) :
      Query groups ts (.binaryExpr op (.numberLiteral k) (.vectorSelector vs))
  | split {c : SeriesContext (Response ℚ)} {leaf : Expr (Response ℚ)} (h : SentSeries groups ts c leaf)
      {op : ItemType} {param : Expr (Response ℚ)} (hsplit : SplitAggregation op param)
      (hop : op ∉ selections) (grouping : List String) (without : Bool)
      (hlabel : ∀ valueLabel, param = .stringLiteral valueLabel →
        ∀ g ∈ groups, valueLabel ∉ g.labels.names)
      (hname : op = .avg → metricNameLabel ∉ grouping) :
      Query groups ts (.aggregateExpr op (c.plug leaf) param grouping without)
  | aggregate {op : ItemType} {expr param : Expr (Response ℚ)} {value : Value ℚ}
      (hexpr : Query groups ts expr) (hparam : Literal param value) (hop : Orderless op value)
      (grouping : List String) (without : Bool)
      (hkept : op ∈ [.stddev, .stdvar, .quantile] ∨
        Held (.aggregateExpr op expr param grouping without)) :
      Query groups ts (.aggregateExpr op expr param grouping without)
  | call {func : String} {args : Expr (Response ℚ)} (hargs : Query groups ts args)
      (hfloats : histogramOnlyFuncs.contains func = false)
      (hkept : perSeriesFuncs.contains func = false ∨ Held (.call func args)) :
      Query groups ts (.call func args)
  | binary (op : String) {lhs rhs : Expr (Response ℚ)} (hlhs : Query groups ts lhs)
      (hrhs : Query groups ts rhs) (hkept : isScaled lhs rhs = false) :
      Query groups ts (.binaryExpr op lhs rhs)
  | unary (op : String) {expr : Expr (Response ℚ)} (hexpr : Query groups ts expr) :
      Query groups ts (.unaryExpr op expr)
  | paren {expr : Expr (Response ℚ)} (hexpr : Query groups ts expr) : Query groups ts (.parenExpr expr)
  | stepInvariant {expr : Expr (Response ℚ)} (hexpr : Query groups ts expr) :
      Query groups ts (.stepInvariantExpr expr)
  | matrixSelector (vs : VectorSelector (Response ℚ)) (range : Int) :
      Query groups ts (.matrixSelector vs range)
  | numberLiteral (k : ℚ) : Query groups ts (.numberLiteral k)
  | stringLiteral (s : String) : Query groups ts (.stringLiteral s)
  | noExpr : Query groups ts .noExpr
  | argument {head tail : Expr (Response ℚ)} (hhead : Query groups ts head)
      (htail : Query groups ts tail) : Query groups ts (.argument head tail)

variable {groups : List ServerGroup} {ts : Int} {e : Expr (Response ℚ)}

omit [Libraries] in
theorem floats_literal {lit : Expr (Response ℚ)} {value : Value ℚ} (h : Literal lit value) :
    lit.nodes.any isHistogramOnlyCall = false := by
  have hzero : booleanFinder isHistogramOnlyCall lit = 0 :=
    booleanFinder_literal h (fun _ => rfl) fun _ => rfl
  exact List.any_eq_false.mpr (List.filter_eq_nil_iff.mp (List.length_eq_zero_iff.mp hzero))

theorem Query.floats (h : Query groups ts e) : e.nodes.any isHistogramOnlyCall = false := by
  induction h with
  | selector h => rfl
  | function h => exact floats_plug h.selector h.sent
  | scaledLeft h => rfl
  | scaledRight h => rfl
  | split h hsplit =>
    rw [Expr.nodes, List.any_cons, List.any_append, floats_plug h.selector h.sent]
    cases hsplit with
    | _ => rfl
  | aggregate hexpr hparam hop grouping without hkept ih =>
    rw [Expr.nodes, List.any_cons, List.any_append, ih, floats_literal hparam]
    rfl
  | call hargs hfloats hkept ih => rw [Expr.nodes, List.any_cons, ih, isHistogramOnlyCall, hfloats]; rfl
  | binary op hlhs hrhs hkept ih ih' =>
    rw [Expr.nodes, List.any_cons, List.any_append, ih, ih']
    rfl
  | unary op hexpr ih => exact ih
  | paren hexpr ih => exact ih
  | stepInvariant hexpr ih => exact ih
  | matrixSelector vs range => rfl
  | numberLiteral k => rfl
  | stringLiteral s => rfl
  | noExpr => rfl
  | argument hhead htail ih ih' =>
    rw [Expr.nodes, List.any_append, ih, ih']
    rfl

end

/-! ## Walks of queries -/

section

variable [Libraries] [MergeSeriesSet] {groups : List ServerGroup} {p : ProxyStorage ℚ}
  {src : Source (Response ℚ) ℚ} {ts : Int} {path : List (Expr (Response ℚ))} {e : Expr (Response ℚ)}

/-- The proxy asks the groups, and the data of the engine are theirs. -/
structure Serves (p : ProxyStorage ℚ) (groups : List ServerGroup) (src : Source (Response ℚ) ℚ) :
    Prop where
  fronts : FrontsAll p (groups.map fun g => g.api)
  sgs : p.sgs.length = groups.length
  several : groups.length ≠ 1
  sees : Sees src groups
  windows : SeesWindows src groups
  distinguished : groups.Pairwise fun g h => Distinguished g.labels h.labels

theorem SentSeries.answered (hserves : Serves p groups src) (hpath : Clean path)
    {c : SeriesContext (Response ℚ)} {leaf : Expr (Response ℚ)} (h : SentSeries groups ts c leaf) :
    ∃ r, prepare p (c.plug leaf) path = .ok (.inr r) ∧
      SameAnswer (((multiAPI (groups.map fun g => g.api)).query (removeOffset r (c.plug leaf))
        (ts - r.reqOffset)).map .vector) (eval src (c.plug leaf) ts) := by
  obtain ⟨x, parts, asked, hselected⟩ := h.selector.answers hserves.sees hserves.windows
  have hsent := sentOperand_plug h.selector hselected h.sent
  have hsub : isSubQuery (c.plug leaf) = false := by
    cases c with
    | hole =>
      cases h.selector with
      | _ => rfl
    | _ => rfl
  obtain ⟨r, hprepare, hanswers⟩ := hsent.accepted_alone hserves.fronts.toFronts hpath hsub
  refine ⟨r, hprepare, ?_⟩
  rw [query_sent hsent.reparse hanswers]
  exact (pools_plug hselected h.lawful).merged hserves.distinguished

/-- The queries below a node that is left. -/
theorem Preserves.below (hnode : IsNode e) (hquery : Query groups ts e) (hserves : Serves p groups src)
    (hpath : Clean path) (hleft : Left p (instantStmt ts) path e)
    (hsub : isSubQuery e = false)
    (hchildren : Clean (e :: path) → PreservesChildren p src ts (e :: path) e (eval src e ts)) :
    Preserves p src ts path e (eval src e ts) := by
  have hhist : isHistogramOnlyCall e = false := by
    have hfloats := List.any_eq_false.mp hquery.floats e
    cases e with
    | noExpr => exact hnode.elim
    | argument head tail => exact hnode.elim
    | _ => exact Bool.eq_false_iff.mpr (hfloats List.mem_cons_self)
  exact Preserves.left hnode ⟨hserves.fronts.metrics, hpath.histogram, hquery.floats⟩ hleft
    (hchildren (hpath.cons hsub hhist))

theorem preserves_matrixSelector (hserves : Serves p groups src) (hpath : Clean path)
    (vs : VectorSelector (Response ℚ)) (range : Int) :
    Preserves p src ts path (.matrixSelector vs range) (eval src (.matrixSelector vs range) ts) := by
  refine Preserves.below trivial (.matrixSelector vs range) hserves hpath
    (left_unsupported fun _ _ => rfl) rfl fun hpath => ?_
  have hleft : Left p (instantStmt ts) (.matrixSelector vs range :: path) (.vectorSelector vs) := by
    intro inspect r _
    cases hdata : vs.unexpandedSeriesSet with
    | some d =>
      refine ⟨.revisit, by simp, ?_⟩
      show replaceVectorSelector p (instantStmt ts) r _ vs = _
      simp [replaceVectorSelector, hdata]
    | none =>
      refine ⟨.fallback .matrixParent, by simp, ?_⟩
      show replaceVectorSelector p (instantStmt ts) r _ vs = _
      simp [replaceVectorSelector, hdata, isMatrixSelector]
  have hwalks : Walks p (instantStmt ts) (.matrixSelector vs range :: path) (.vectorSelector vs)
      (.vectorSelector vs) false :=
    Walks.kept trivial (visit_of_left ⟨hserves.fronts.metrics, hpath.histogram, rfl⟩ hleft)
      (WalksChildren.leaf fun _ => rfl)
  obtain ⟨depth, hdepth⟩ := hwalks
  refine Or.inl ⟨.matrixSelector vs range, false, ⟨depth, fun fuel hfuel => ?_⟩, SameAnswer.refl _⟩
  rw [walkChildren, hdepth fuel hfuel]
  rfl

omit [MergeSeriesSet] in
theorem PreservesChildren.aggregateExpr (hrest : RestOrderless) {op : ItemType} {expr param : Expr (Response ℚ)}
    {value : Value ℚ} (hexpr : Preserves p src ts path expr (eval src expr ts))
    (hparam : Literal param value) (hwalk : Walks p (instantStmt ts) path param param false)
    (hop : Orderless op value) (grouping : List String) (without : Bool) :
    PreservesChildren p src ts path (.aggregateExpr op expr param grouping without)
      (eval src (.aggregateExpr op expr param grouping without) ts) := by
  rcases hexpr with ⟨tree, pushed, hwalks, hsame⟩ | ⟨hnone, depth, hdepth⟩
  · refine Or.inl ⟨_, _, WalksChildren.aggregateExpr hwalks hwalk op grouping without, ?_⟩
    rw [eval, eval, hparam.eval]
    have hvectors := hsame.toVector
    generalize (eval src tree ts).bind Value.toVector = v at hvectors
    generalize (eval src expr ts).bind Value.toVector = v' at hvectors
    cases hvectors with
    | none => exact .none
    | some hperm => exact SameAnswer.vector (aggregation_perm hrest hop grouping without hperm)
  · refine Or.inr ⟨by rw [eval, hnone]; rfl, depth, fun fuel hfuel => ?_⟩
    rw [walkChildren, hdepth fuel hfuel]
    rfl

/-- Every part of a query is answered with its value over the labelled series of all groups. -/
theorem Query.preserves (hrest : RestOrderless) (hserves : Serves p groups src)
    (h : Query groups ts e) (hpath : Clean path) (hmatrix : path.any isMatrixSelector = false) :
    Preserves p src ts path e (eval src e ts) := by
  have hbelow {node : Expr (Response ℚ)} {path : List (Expr (Response ℚ))}
      (hnode : isMatrixSelector node = false) (hmatrix : path.any isMatrixSelector = false) :
      (node :: path).any isMatrixSelector = false := by
    rw [List.any_cons, hnode, hmatrix]
    rfl
  have hlooksUp := hserves.sees.looksUp
  induction h generalizing path with
  | selector h =>
    rename_i vs
    have hseries : SentSeries groups ts .hole (.vectorSelector vs) := ⟨h, trivial, .hole .vector⟩
    obtain ⟨r, hprepare, hsame⟩ := hseries.answered hserves hpath
    cases h with
    | vector _ hparsed hforwards =>
      have hreparse : (Expr.vectorSelector vs).reparse = some (.vectorSelector vs) := by
        rw [Expr.reparse, hparsed, Option.map_some]
      have hfresh := fresh_vectorSelector.mp (fresh_of_reparse hreparse)
      exact (preserves_vectorSelector hserves.fronts hlooksUp hmatrix hfresh hprepare).congr hsame
  | function h =>
    obtain ⟨r, hprepare, hsame⟩ := h.answered hserves hpath
    exact (preserves_call hserves.fronts hlooksUp h.sent.1 hprepare).congr hsame
  | scaledLeft h =>
    rename_i op k vs
    obtain ⟨r, hprepare, hsame⟩ := h.answered hserves hpath
    refine (preserves_scaled hserves.fronts hlooksUp
      (fun vs => .binaryExpr op (.vectorSelector vs) (.numberLiteral k)) trivial ?_
      (fun inspect => ?_) hprepare).congr hsame
    · simp only [removeOffset, tightenedSelector, offsetRemover]
      split <;> rfl
    · rfl
  | scaledRight h =>
    rename_i op k vs
    obtain ⟨r, hprepare, hsame⟩ := h.answered hserves hpath
    refine (preserves_scaled hserves.fronts hlooksUp
      (fun vs => .binaryExpr op (.numberLiteral k) (.vectorSelector vs)) trivial ?_
      (fun inspect => ?_) hprepare).congr hsame
    · simp only [removeOffset, tightenedSelector, offsetRemover]
      split <;> rfl
    · rfl
  | split h hsplit hop grouping without hlabel hname =>
    obtain ⟨x, parts, asked, hselected⟩ := h.selector.answers hserves.sees hserves.windows
    have hsends : Sends p src ts path groups ServerGroup.toDownstream _ _ :=
      ⟨hserves.fronts.toFronts, hlooksUp, hpath, sentOperand_plug h.selector hselected h.sent⟩
    exact preserves_split hrest (hserves.sgs ▸ hserves.several) hserves.distinguished hsends
      (pools_plug hselected h.lawful) hsplit hop grouping without hlabel hname
  | aggregate hexpr hparam hop grouping without hkept ih =>
    have hquery := Query.aggregate hexpr hparam hop grouping without hkept
    refine Preserves.below trivial hquery hserves hpath
      (hkept.elim (fun hop => left_aggregateExpr hop _ _ grouping without)
        fun hheld => left_of_held rfl hheld) rfl fun hpath => ?_
    exact PreservesChildren.aggregateExpr hrest (ih hpath (hbelow rfl hmatrix)) hparam
      (Walks.literal hserves.fronts.metrics hpath.histogram hparam) hop grouping without
  | call hargs hfloats hkept ih =>
    have hquery := Query.call hargs hfloats hkept
    refine Preserves.below trivial hquery hserves hpath
      (hkept.elim (fun hfunc => left_call hfunc _) fun hheld => left_of_held rfl hheld) rfl
      fun hpath => ?_
    exact PreservesChildren.map (ih hpath (hbelow rfl hmatrix)) (fun _ => rfl) (fun _ => rfl)
      fun x x' hx => callFunction_same hrest _ ts hx
  | binary op hlhs hrhs hkept ih ih' =>
    have hquery := Query.binary op hlhs hrhs hkept
    refine Preserves.below trivial hquery hserves hpath (left_binaryExpr op hkept) rfl fun hpath => ?_
    exact PreservesChildren.both (ih hpath (hbelow rfl hmatrix)) (ih' hpath (hbelow rfl hmatrix))
      (fun _ => rfl) (fun _ _ => rfl) fun _ _ _ _ hx hy => binaryOperator_same hrest op hx hy
  | unary op hexpr ih =>
    refine Preserves.below trivial (.unary op hexpr) hserves hpath (left_unsupported fun _ _ => rfl) rfl
      fun hpath => ?_
    exact PreservesChildren.map (ih hpath (hbelow rfl hmatrix)) (fun _ => rfl) (fun _ => rfl)
      fun x x' hx => hrest.unary op x x' hx
  | paren hexpr ih =>
    refine Preserves.below trivial (.paren hexpr) hserves hpath (left_unsupported fun _ _ => rfl) rfl
      fun hpath => ?_
    have hchild := PreservesChildren.map (f := .parenExpr) (ih hpath (hbelow rfl hmatrix)) (fun _ => rfl)
      (g := some) (fun _ => (Option.bind_fun_some _).symm) fun x x' hx => .some hx
    rwa [Option.bind_fun_some] at hchild
  | stepInvariant hexpr ih =>
    refine Preserves.below trivial (.stepInvariant hexpr) hserves hpath
      (left_unsupported fun _ _ => rfl) rfl fun hpath => ?_
    have hchild := PreservesChildren.map (f := .stepInvariantExpr) (ih hpath (hbelow rfl hmatrix))
      (fun _ => rfl) (g := some) (fun _ => (Option.bind_fun_some _).symm) fun x x' hx => .some hx
    rwa [Option.bind_fun_some] at hchild
  | matrixSelector vs range => exact preserves_matrixSelector hserves hpath vs range
  | numberLiteral k =>
    exact Preserves.below trivial (.numberLiteral k) hserves hpath (left_unsupported fun _ _ => rfl) rfl
      fun _ => PreservesChildren.leaf fun _ => rfl
  | stringLiteral s =>
    exact Preserves.below trivial (.stringLiteral s) hserves hpath (left_unsupported fun _ _ => rfl) rfl
      fun _ => PreservesChildren.leaf fun _ => rfl
  | noExpr => exact Preserves.noExpr
  | argument hhead htail ih ih' => exact Preserves.argument (ih hpath hmatrix) (ih' hpath hmatrix)

end

/-! ## A query over two groups -/

section

/-- Libraries with `abs`. -/
abbrev absLibraries : Libraries where
  toRegexp := literalRegexp
  formatFloat := sortingLibraries.formatFloat
  topk := sortingLibraries.topk
  bottomk := sortingLibraries.bottomk
  topk_isTop := sortingLibraries.topk_isTop
  bottomk_isTop := sortingLibraries.bottomk_isTop
  rest :=
    { atModifierUnsafe := fun _ => false
      call := fun func x _ => if func = "abs" then valueFunction abs x else none
      aggregation := fun _ _ _ _ _ => none
      binary := fun _ _ _ => none
      unary := fun _ _ => none
      call_safe := fun _ _ _ _ _ => rfl }

attribute [local instance] absLibraries mergeAcrossSets

theorem restOrderless_absLibraries : RestOrderless where
  call func t x x' h := by
    show SameAnswer (if func = "abs" then _ else _) (if func = "abs" then _ else _)
    split
    · exact valueFunction_same abs h
    · exact .none
  aggregation _ _ _ _ _ _ _ _ := .none
  binary _ _ _ _ _ _ _ := .none
  unary _ _ _ _ := .none

theorem serves_proxyOver : Serves (proxyOver (twoJobs.map fun g => g.api)) twoJobs (seenBy twoJobs) where
  fronts := ⟨fronts_proxyOver _, fun _ _ => rfl⟩
  sgs := rfl
  several := by decide
  sees := sees_seenBy twoJobs
  windows start stop := by
    refine ⟨[], fun _ _ => [], rfl, fun g hg => ⟨?_, by simp⟩⟩
    simp only [twoJobs, List.mem_cons, List.not_mem_nil, or_false] at hg
    rcases hg with rfl | rfl
    · rfl
    · rfl
  distinguished := List.pairwise_pair.mpr ⟨"dc", "eu", "us", by decide +kernel, by decide +kernel, by decide⟩

def absUp : Expr (Response ℚ) := .call "abs" (.argument (.vectorSelector upSelector) .noExpr)

/-- `max(sum by (dc, job) (abs(up)) / abs(up))` -/
def quotient : Expr (Response ℚ) :=
  .aggregateExpr .max (.binaryExpr "/" (.aggregateExpr .sum absUp .noExpr ["dc", "job"] false) absUp)
    .noExpr [] false

end

end Proxystorage
end Proxeus
