import Proxeus.Proxystorage.NodeReplacerSpec
import Proxeus.Promql.LabelCall

/-!
# Proxystorage.Walks

What `parser.Walk` with `NodeReplacer` makes of a tree, whatever the depth it is allowed to go to.
A node that is replaced is walked on below its replacement (`Walks.pushed`); an aggregation that is
sent to the server groups is left with the selector of the response below it
(`walks_answered`).
-/

namespace Proxeus
namespace Proxystorage

open Promclient Promql

section

variable {V : Type} [Regexp] [Engine V] {p : ProxyStorage V} {s : EvalStmt}
  {path : List (Expr (Response V))}

/-- The tree `e` becomes `e'`. -/
def Walks (p : ProxyStorage V) (s : EvalStmt) (path : List (Expr (Response V)))
    (e e' : Expr (Response V)) (pushed : Bool) : Prop :=
  ∃ depth, ∀ fuel, depth ≤ fuel → walk p fuel s path e = .ok (e', pushed)

/-- The children of `node` become those of `node'`. -/
def WalksChildren (p : ProxyStorage V) (s : EvalStmt) (path : List (Expr (Response V)))
    (node node' : Expr (Response V)) (pushed : Bool) : Prop :=
  ∃ depth, ∀ fuel, depth ≤ fuel → walkChildren (walk p fuel s path) node = .ok (node', pushed)

/-- The nodes that a visitor is shown. -/
def IsNode : Expr (Response V) → Prop
  | .noExpr => False
  | .argument _ _ => False
  | _ => True

theorem walk_of_isNode {node : Expr (Response V)} (hnode : IsNode node) (fuel : Nat) :
    walk p (fuel + 1) s path node =
      (nodeReplacer p (fun s expr => walk p fuel s [] expr) s path node).bind fun visit =>
        match visit.outcome with
        | .pushed node =>
          (walkChildren (walk p fuel s (node :: path)) node).map fun node => (node.1, true)
        | _ => walkChildren (walk p fuel s (visit.ast :: path)) visit.ast := by
  cases node with
  | noExpr => exact hnode.elim
  | argument head tail => exact hnode.elim
  | _ => rfl

theorem Walks.pushed {node node' e' : Expr (Response V)} {pushed : Bool} (hnode : IsNode node)
    (hvisit : ∀ inspect, ∃ visit, nodeReplacer p inspect s path node = .ok visit ∧
      visit.outcome = .pushed node')
    (hchildren : WalksChildren p s (node' :: path) node' e' pushed) : Walks p s path node e' true := by
  obtain ⟨depth, hdepth⟩ := hchildren
  refine ⟨depth + 1, fun fuel hfuel => ?_⟩
  obtain ⟨fuel, rfl⟩ := Nat.exists_eq_add_of_le' (Nat.le_trans (Nat.le_add_left 1 depth) hfuel)
  obtain ⟨visit, hok, hout⟩ := hvisit fun s expr => walk p fuel s [] expr
  rw [walk_of_isNode hnode, hok, Except.bind, hout]
  show (walkChildren (walk p fuel s (node' :: path)) node').map _ = _
  rw [hdepth fuel (Nat.le_of_succ_le_succ hfuel)]
  rfl

theorem Walks.kept {node e' : Expr (Response V)} {pushed : Bool} (hnode : IsNode node)
    (hvisit : ∀ inspect, ∃ visit, nodeReplacer p inspect s path node = .ok visit ∧
      (∀ n, visit.outcome ≠ .pushed n) ∧ visit.ast = node)
    (hchildren : WalksChildren p s (node :: path) node e' pushed) :
    Walks p s path node e' pushed := by
  obtain ⟨depth, hdepth⟩ := hchildren
  refine ⟨depth + 1, fun fuel hfuel => ?_⟩
  obtain ⟨fuel, rfl⟩ := Nat.exists_eq_add_of_le' (Nat.le_trans (Nat.le_add_left 1 depth) hfuel)
  obtain ⟨visit, hok, hout, hast⟩ := hvisit fun s expr => walk p fuel s [] expr
  rw [walk_of_isNode hnode, hok, Except.bind, hast]
  have hwalk := hdepth fuel (Nat.le_of_succ_le_succ hfuel)
  cases h : visit.outcome with
  | pushed n => exact absurd h (hout n)
  | _ => exact hwalk

/-! ## Children -/

theorem WalksChildren.leaf {node : Expr (Response V)}
    (h : ∀ walk, walkChildren (V := V) walk node = .ok (node, false)) :
    WalksChildren p s path node node false := ⟨0, fun _ _ => h _⟩

theorem walkBoth_walks (node : Expr (Response V) → Expr (Response V) → Expr (Response V))
    {fst fst' snd snd' : Expr (Response V)} {pushed pushed' : Bool}
    (hfst : Walks p s path fst fst' pushed) (hsnd : Walks p s path snd snd' pushed') :
    ∃ depth, ∀ fuel, depth ≤ fuel →
      walkBoth node (walk p fuel s path fst) (walk p fuel s path snd) =
        .ok (node fst' snd', pushed || pushed') := by
  obtain ⟨depth, hdepth⟩ := hfst
  obtain ⟨depth', hdepth'⟩ := hsnd
  refine ⟨max depth depth', fun fuel hfuel => ?_⟩
  rw [hdepth fuel (le_of_max_le_left hfuel), hdepth' fuel (le_of_max_le_right hfuel)]
  rfl

theorem WalksChildren.aggregateExpr {expr expr' param param' : Expr (Response V)}
    {pushed pushed' : Bool} (hexpr : Walks p s path expr expr' pushed)
    (hparam : Walks p s path param param' pushed') (op : ItemType) (grouping : List String)
    (without : Bool) :
    WalksChildren p s path (.aggregateExpr op expr param grouping without)
      (.aggregateExpr op expr' param' grouping without) (pushed || pushed') :=
  walkBoth_walks (fun expr param => .aggregateExpr op expr param grouping without) hexpr
    hparam

theorem WalksChildren.binaryExpr {lhs lhs' rhs rhs' : Expr (Response V)} {pushed pushed' : Bool}
    (hlhs : Walks p s path lhs lhs' pushed) (hrhs : Walks p s path rhs rhs' pushed')
    (op : String) :
    WalksChildren p s path (.binaryExpr op lhs rhs) (.binaryExpr op lhs' rhs')
      (pushed || pushed') :=
  walkBoth_walks (.binaryExpr op) hlhs hrhs

theorem WalksChildren.call {args args' : Expr (Response V)} {pushed : Bool}
    (hargs : Walks p s path args args' pushed) (func : String) :
    WalksChildren p s path (.call func args) (.call func args') pushed := by
  obtain ⟨depth, hdepth⟩ := hargs
  refine ⟨depth, fun fuel hfuel => ?_⟩
  rw [walkChildren, hdepth fuel hfuel]
  rfl

theorem Walks.argument {head head' tail tail' : Expr (Response V)} {pushed pushed' : Bool}
    (hhead : Walks p s path head head' pushed) (htail : Walks p s path tail tail' pushed') :
    Walks p s path (.argument head tail) (.argument head' tail') (pushed || pushed') := by
  obtain ⟨depth, hdepth⟩ := walkBoth_walks .argument hhead htail
  refine ⟨depth + 1, fun fuel hfuel => ?_⟩
  obtain ⟨fuel, rfl⟩ := Nat.exists_eq_add_of_le' (Nat.le_trans (Nat.le_add_left 1 depth) hfuel)
  exact hdepth fuel (Nat.le_of_succ_le_succ hfuel)

theorem Walks.noExpr : Walks p s path .noExpr .noExpr false :=
  ⟨1, fun fuel hfuel => by
    obtain ⟨fuel, rfl⟩ := Nat.exists_eq_add_of_le' hfuel
    rfl⟩

/-! ## Visits that leave their node -/

/-- No metric is known to have native histograms, and no function is for them. -/
structure Floats (p : ProxyStorage V) (path : List (Expr (Response V)))
    (node : Expr (Response V)) : Prop where
  metrics : ∀ name, histogramNamePredicate p name = false
  path : path.any isHistogramOnlyCall = false
  node : node.nodes.any isHistogramOnlyCall = false

omit [Regexp] [Engine V] in
theorem Floats.histogramFinder {node : Expr (Response V)} (h : Floats p path node) :
    histogramFinder (histogramNamePredicate p) node = false := by
  rw [Proxystorage.histogramFinder, List.any_eq_false]
  intro n hn
  have hcall := List.any_eq_false.mp h.node n hn
  cases n with
  | vectorSelector vs => simp [h.metrics]
  | _ => exact hcall

omit [Regexp] in
theorem exists_prepare {node : Expr (Response V)} (h : Floats p path node) :
    ∃ prepared, prepare p node path = .ok prepared := by
  rw [prepare]
  dsimp only
  rw [h.path, h.histogramFinder]
  split
  · exact ⟨_, rfl⟩
  · split
    · rename_i hhist
      cases hhist
    · split
      · exact ⟨_, rfl⟩
      · split
        · exact ⟨_, rfl⟩
        · split
          · exact ⟨_, rfl⟩
          · split
            · exact ⟨_, rfl⟩
            · split
              · exact ⟨_, rfl⟩
              · exact ⟨_, rfl⟩

/-- A node for which no arm does anything. -/
theorem Walks.of_unchanged {node : Expr (Response V)} (h : Floats p path node) (hnode : IsNode node)
    (hreplace : ∀ inspect r, ∃ outcome, (∀ n, outcome ≠ .pushed n) ∧
      replaceNode p inspect s r path node = .ok ⟨outcome, node, []⟩)
    (hleaf : ∀ walk, walkChildren (V := V) walk node = .ok (node, false)) :
    Walks p s path node node false := by
  refine Walks.kept hnode (fun inspect => ?_) (WalksChildren.leaf hleaf)
  obtain ⟨prepared, hprepared⟩ := exists_prepare h
  rw [nodeReplacer, hprepared, Except.bind]
  cases prepared with
  | inl reason => exact ⟨_, rfl, fun n => by simp, rfl⟩
  | inr r =>
    obtain ⟨outcome, hout, hok⟩ := hreplace inspect r
    show ∃ visit, replace p inspect s r path node = .ok visit ∧ _
    rw [replace, hok]
    refine ⟨_, rfl, ?_⟩
    cases outcome with
    | pushed n => exact absurd rfl (hout n)
    | fallback reason => exact ⟨fun n => by simp, congrArg Prod.fst (restoreOffset_nil node)⟩
    | revisit => exact ⟨fun n => by simp, congrArg Prod.fst (restoreOffset_nil node)⟩

omit [Regexp] in
theorem Accepted.floats {node : Expr (Response V)} {r : Prepared} (h : Accepted p node path r) :
    node.nodes.any isHistogramOnlyCall = false := by
  have hfinder := h.notHistogram.2
  rw [histogramFinder, List.any_eq_false] at hfinder
  rw [List.any_eq_false]
  intro n hn
  have hcall := hfinder n hn
  cases n with
  | vectorSelector vs => simp [isHistogramOnlyCall]
  | _ => exact hcall

/-- A node with several aggregations below it. -/
theorem Walks.nested {node e' : Expr (Response V)} {pushed : Bool} (h : Floats p path node)
    (hnode : IsNode node) (hsub : isSubQuery node = false) (haggs : 1 < booleanFinder isAgg node)
    (hchildren : WalksChildren p s (node :: path) node e' pushed) :
    Walks p s path node e' pushed := by
  refine Walks.kept hnode (fun inspect => ?_) hchildren
  obtain ⟨prepared, hprepared⟩ := exists_prepare h
  rw [nodeReplacer, hprepared, Except.bind]
  cases prepared with
  | inl reason => exact ⟨_, rfl, fun n => by simp, rfl⟩
  | inr r =>
    have honly := ((prepare_eq_inr hprepared).aggregates hsub (by omega)).2
    omega

theorem Walks.hasData {vs : VectorSelector (Response V)}
    (h : Floats p path (.vectorSelector vs)) (hdata : vs.unexpandedSeriesSet.isSome) :
    Walks p s path (.vectorSelector vs) (.vectorSelector vs) false := by
  refine Walks.of_unchanged h trivial (fun inspect r => ⟨.revisit, by simp, ?_⟩) fun walk => rfl
  show replaceVectorSelector p s r path vs = _
  simp only [replaceVectorSelector, hdata, if_true]

end

/-! ## Aggregations that are accepted -/

section

/-- No subquery and no function of histograms is above a node. -/
structure Clean (path : List (Expr (Response ℚ))) : Prop where
  subQuery : path.any isSubQuery = false
  histogram : path.any isHistogramOnlyCall = false

theorem Clean.nil : Clean [] := ⟨rfl, rfl⟩

theorem Clean.cons {node : Expr (Response ℚ)} {path : List (Expr (Response ℚ))}
    (hpath : Clean path) (hsub : isSubQuery node = false)
    (hhist : isHistogramOnlyCall node = false) : Clean (node :: path) :=
  ⟨by rw [List.any_cons, hsub, hpath.subQuery]; rfl,
    by rw [List.any_cons, hhist, hpath.histogram]; rfl⟩

variable {e : Expr (Response ℚ)} {value : Value ℚ}

/-- A finder that passes over literals finds nothing. -/
theorem booleanFinder_literal (h : Literal e value) {f : Expr (Response ℚ) → Bool}
    (hnumber : ∀ val, f (.numberLiteral val) = false)
    (hstring : ∀ val, f (.stringLiteral val) = false) : booleanFinder f e = 0 := by
  rw [booleanFinder]
  induction h with
  | noExpr => rfl
  | numberLiteral val => rw [Expr.nodes, List.filter_cons, hnumber]; rfl
  | stringLiteral val => rw [Expr.nodes, List.filter_cons, hstring]; rfl
  | argument hhead htail ih ih' =>
    rw [Expr.nodes, List.filter_append, List.length_append, ih, ih']

theorem visit_literal (h : Literal e value) {o : OffsetFinder} (ho : o.err = false)
    (nodes : List (Expr (Response ℚ))) : o.visit (e.nodes ++ nodes) = o.visit nodes := by
  induction h generalizing nodes with
  | noExpr => rfl
  | numberLiteral val => simp [Expr.nodes, OffsetFinder.visit, ho]
  | stringLiteral val => simp [Expr.nodes, OffsetFinder.visit, ho]
  | argument hhead htail ih ih' => rw [Expr.nodes, List.append_assoc, ih, ih']

theorem booleanFinder_aggregateExpr (f : Expr (Response ℚ) → Bool) (op : ItemType)
    (e param : Expr (Response ℚ)) (grouping : List String) (without : Bool) :
    booleanFinder f (.aggregateExpr op e param grouping without) =
      (if f (.aggregateExpr op e param grouping without) then 1 else 0) +
        (booleanFinder f e + booleanFinder f param) := by
  rw [booleanFinder, Expr.nodes, List.filter_cons, List.filter_append]
  split
  · rw [List.length_cons, List.length_append, Nat.add_comm]; rfl
  · rw [List.length_append, Nat.zero_add]; rfl

variable [Libraries] {p : ProxyStorage ℚ} {path path' : List (Expr (Response ℚ))}
  {param : Expr (Response ℚ)}

/-- An aggregation of one selector, without calls over several series, is accepted. -/
theorem exists_prepare_inr (hexact : p.crossGroupExact = false)
    (hmetrics : ∀ name, histogramNamePredicate p name = false) (hpath : Clean path)
    (hparam : Literal param value) (hhist : e.nodes.any isHistogramOnlyCall = false)
    (haggs : booleanFinder isAgg e = 0) (hselectors : booleanFinder isVectorSelector e = 1)
    (hcross : booleanFinder isCrossSeriesCall e = 0) {offset : Int}
    (hoffset : ∀ nodes, OffsetFinder.visit ⟨false, 0, false⟩ (e.nodes ++ nodes) =
      OffsetFinder.visit ⟨true, offset, false⟩ nodes)
    (op : ItemType) (grouping : List String) (without : Bool) :
    ∃ r, prepare p (.aggregateExpr op e param grouping without) path = .ok (.inr r) := by
  have hfound : offsetFinder (.aggregateExpr op e param grouping without) =
      ⟨true, offset, false⟩ := by
    have hvisit : OffsetFinder.visit ⟨true, offset, false⟩ (param.nodes ++ []) =
        ⟨true, offset, false⟩ := visit_literal hparam rfl []
    rw [List.append_nil] at hvisit
    rw [← hvisit, ← hoffset]
    rfl
  have hnodes : (Expr.aggregateExpr op e param grouping without).nodes.any isHistogramOnlyCall =
      false := by
    have hliteral : param.nodes.any isHistogramOnlyCall = false := by
      have hzero : booleanFinder isHistogramOnlyCall param = 0 :=
        booleanFinder_literal hparam (fun _ => rfl) fun _ => rfl
      rw [List.any_eq_false]
      exact fun n hn => List.filter_eq_nil_iff.mp (List.length_eq_zero_iff.mp hzero) n hn
    rw [Expr.nodes, List.any_cons, List.any_append, hhist, hliteral]
    rfl
  have hfinder := (Floats.mk hmetrics hpath.histogram hnodes).histogramFinder
  have hagg := booleanFinder_aggregateExpr isAgg op e param grouping without
  rw [haggs, booleanFinder_literal hparam (fun _ => rfl) fun _ => rfl] at hagg
  have hvec := booleanFinder_aggregateExpr isVectorSelector op e param grouping without
  rw [hselectors, booleanFinder_literal hparam (fun _ => rfl) fun _ => rfl] at hvec
  have hcall := booleanFinder_aggregateExpr isCrossSeriesCall op e param grouping without
  rw [hcross, booleanFinder_literal hparam (fun _ => rfl) fun _ => rfl] at hcall
  rw [prepare]
  dsimp only
  rw [hpath.subQuery, hpath.histogram, hfinder, hexact, hfound, hagg, hvec, hcall]
  exact ⟨_, rfl⟩

end

section

variable [Libraries] {p : ProxyStorage ℚ} {s : EvalStmt} {path : List (Expr (Response ℚ))}

theorem Walks.literal (hmetrics : ∀ name, histogramNamePredicate p name = false)
    (hpath : path.any isHistogramOnlyCall = false) {e : Expr (Response ℚ)} {value : Value ℚ}
    (he : Literal e value) : Walks p s path e e false := by
  induction he with
  | noExpr => exact Walks.noExpr
  | numberLiteral val =>
    exact Walks.of_unchanged ⟨hmetrics, hpath, rfl⟩ trivial
      (fun _ _ => ⟨_, by simp, rfl⟩) fun _ => rfl
  | stringLiteral val =>
    exact Walks.of_unchanged ⟨hmetrics, hpath, rfl⟩ trivial
      (fun _ _ => ⟨_, by simp, rfl⟩) fun _ => rfl
  | argument hhead htail ih ih' => exact Walks.argument ih ih'

/-! ## Aggregations -/

/-- The aggregation that is left, with the response below it. -/
def answered (p : ProxyStorage ℚ) (s : EvalStmt) (r : Prepared) (query : Expr (Response ℚ))
    (op : ItemType) (param : Expr (Response ℚ)) (grouping : List String) (without : Bool) :
    Expr (Response ℚ) :=
  .aggregateExpr op (.vectorSelector (responseSelector s r (request p s r true query))) param
    grouping without

theorem walksChildren_answered (hmetrics : ∀ name, histogramNamePredicate p name = false)
    (hpath : path.any isHistogramOnlyCall = false) {r : Prepared} {query : Expr (Response ℚ)}
    {param : Expr (Response ℚ)} {value : Value ℚ} (hparam : Literal param value) (op : ItemType)
    (grouping : List String) (without : Bool) :
    WalksChildren p s path (answered p s r query op param grouping without)
      (answered p s r query op param grouping without) false :=
  WalksChildren.aggregateExpr (Walks.hasData ⟨hmetrics, hpath, rfl⟩ rfl)
    (Walks.literal hmetrics hpath hparam) op grouping without

omit [Libraries] in
theorem removeOffset_literal {e : Expr (Response ℚ)} {value : Value ℚ} (h : Literal e value)
    (r : Prepared) : removeOffset r e = e := by
  have hremover : offsetRemover e = e := by
    induction h with
    | argument hhead htail ih ih' => rw [offsetRemover, ih, ih']
    | _ => rfl
  rw [removeOffset, hremover, ite_self]

theorem walks_aggregateExpr {op : ItemType} {expr param node' e' : Expr (Response ℚ)}
    {grouping : List String} {without : Bool} {r : Prepared} {pushed : Bool}
    (hprepare : prepare p (.aggregateExpr op expr param grouping without) path = .ok (.inr r))
    (houtcome : (replaceAggregate p s r op expr param grouping without).outcome = .pushed node')
    (hchildren : WalksChildren p s (node' :: path) node' e' pushed) :
    Walks p s path (.aggregateExpr op expr param grouping without) e' true := by
  refine Walks.pushed trivial (fun inspect => ⟨_, ?_, houtcome⟩) hchildren
  rw [nodeReplacer, hprepare]
  show replace p inspect s r path _ = _
  rw [replace, replaceNode, Except.map, houtcome]

/-- An aggregation that is sent is left with the response as its operand. -/
theorem walks_sent (hmetrics : ∀ name, histogramNamePredicate p name = false)
    (hpath : path.any isHistogramOnlyCall = false) {op op' : ItemType}
    {expr param param' query : Expr (Response ℚ)} {grouping grouping' : List String}
    {without : Bool} {value : Value ℚ} (hparam : Literal param' value) {r : Prepared}
    (hprepare : prepare p (.aggregateExpr op expr param grouping without) path = .ok (.inr r))
    (houtcome : (replaceAggregate p s r op expr param grouping without).outcome =
      .pushed (answered p s r query op' param' grouping' without)) :
    Walks p s path (.aggregateExpr op expr param grouping without)
      (answered p s r query op' param' grouping' without) true :=
  walks_aggregateExpr hprepare houtcome
    (walksChildren_answered hmetrics (by rw [List.any_cons, hpath]; rfl) hparam op' grouping' without)

theorem outcome_replaceAggregate {op op' : ItemType} {expr param : Expr (Response ℚ)}
    {grouping : List String} {without : Bool} {value : Value ℚ} (hparam : Literal param value)
    {r : Prepared} (hdata : hasData expr = false)
    (hlossy : containsLossyHistogram (request p s r true
      (removeOffset r (.aggregateExpr op expr param grouping without))) = false)
    (hop : (op, op') ∈ [(.sum, .sum), (.min, .min), (.max, .max), (.topk, .topk),
      (.bottomk, .bottomk), (.group, .group), (.count, .sum)] ∨
      (op = .avg ∧ op' = .avg ∧ p.sgs.length = 1)) :
    (replaceAggregate p s r op expr param grouping without).outcome =
      .pushed (answered p s r (removeOffset r (.aggregateExpr op expr param grouping without)) op'
        param grouping without) := by
  rcases hop with hop | ⟨rfl, rfl, hsgs⟩
  · simp only [List.mem_cons, List.not_mem_nil, or_false, Prod.mk.injEq] at hop
    rcases hop with ⟨rfl, rfl⟩ | ⟨rfl, rfl⟩ | ⟨rfl, rfl⟩ | ⟨rfl, rfl⟩ | ⟨rfl, rfl⟩ | ⟨rfl, rfl⟩ |
      ⟨rfl, rfl⟩ <;>
    simp [replaceAggregate, answered, hdata, hlossy, removeOffset_literal hparam]
  · simp [replaceAggregate, answered, hdata, hlossy, hsgs, removeOffset_literal hparam]

theorem outcome_replaceAggregate_countValues {expr : Expr (Response ℚ)} {valueLabel : String}
    {grouping : List String} {without : Bool} {r : Prepared} (hdata : hasData expr = false)
    (hlossy : containsLossyHistogram (request p s r true (removeOffset r
      (.aggregateExpr .countValues expr (.stringLiteral valueLabel) grouping without))) = false) :
    (replaceAggregate p s r .countValues expr (.stringLiteral valueLabel) grouping without).outcome =
      .pushed (answered p s r (removeOffset r
          (.aggregateExpr .countValues expr (.stringLiteral valueLabel) grouping without)) .sum
        .noExpr (countValuesGrouping grouping without valueLabel) without) := by
  simp [replaceAggregate, answered, hdata, hlossy, Expr.unwrapParens, countValuesGrouping]

theorem outcome_replaceAggregate_avg {expr param : Expr (Response ℚ)} {grouping : List String}
    {without : Bool} {r : Prepared} (hdata : hasData expr = false)
    (hexpr : expr.reparse = some expr) (hsgs : p.sgs.length ≠ 1)
    (hname : metricNameLabel ∉ grouping) :
    (replaceAggregate p s r .avg expr param grouping without).outcome =
      .pushed (.binaryExpr "/" (.aggregateExpr .sum expr param grouping without)
        (.aggregateExpr .count expr param grouping without)) := by
  simp [replaceAggregate, hdata, hsgs, hname, cloneExpr, hexpr]

end

end Proxystorage
end Proxeus
