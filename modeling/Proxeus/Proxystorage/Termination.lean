import Proxeus.Proxystorage.Walks

/-!
# Proxystorage.Termination

`parser.Walk` goes on below what `NodeReplacer` has put in the place of a node, and an average is
replaced with a larger tree, of two or more aggregations of copies of its operand. The walk ends
nevertheless, whatever the server groups answer (`walk_ends`): the copies hold no average, the other
replacements hold data, and below a subquery nothing is replaced.
-/

namespace Proxeus
namespace Proxystorage

open Promclient Promql

/-! ## Results that do not depend on the depth -/

/-- From some depth on there is one result, and the depth is not what it fails for. -/
def Settles {α : Type} (f : Nat → Except Failure α) : Prop :=
  ∃ depth result, result ≠ .error .depth ∧ ∀ fuel, depth ≤ fuel → f fuel = result

namespace Settles

variable {α β : Type} {f : Nat → Except Failure α}

theorem const {result : Except Failure α} (h : result ≠ .error .depth) :
    Settles fun _ => result := ⟨0, result, h, fun _ _ => rfl⟩

theorem of_succ (h : Settles fun fuel => f (fuel + 1)) : Settles f := by
  obtain ⟨depth, result, hresult, hf⟩ := h
  refine ⟨depth + 1, result, hresult, fun fuel hfuel => ?_⟩
  obtain ⟨fuel, rfl⟩ := Nat.exists_eq_add_of_le' (Nat.le_trans (Nat.le_add_left 1 depth) hfuel)
  exact hf fuel (Nat.le_of_succ_le_succ hfuel)

theorem bind {g : α → Nat → Except Failure β} (hf : Settles f)
    (hg : ∀ fuel a, f fuel = .ok a → Settles (g a)) :
    Settles fun fuel => (f fuel).bind fun a => g a fuel := by
  obtain ⟨depth, result, hresult, hf⟩ := hf
  cases result with
  | error err =>
    refine ⟨depth, .error err, fun h => hresult (by cases h; rfl), fun fuel hfuel => ?_⟩
    simp only [hf fuel hfuel, Except.bind]
  | ok a =>
    obtain ⟨depth', result', hresult', hg⟩ := hg depth a (hf depth le_rfl)
    refine ⟨max depth depth', result', hresult', fun fuel hfuel => ?_⟩
    simp only [hf fuel (le_of_max_le_left hfuel), Except.bind]
    exact hg fuel (le_of_max_le_right hfuel)

theorem map (g : α → β) (hf : Settles f) : Settles fun fuel => (f fuel).map g := by
  have hbind := hf.bind (g := fun a _ => .ok (g a)) fun _ _ _ => const (by simp)
  have heq : (fun fuel => (f fuel).map g) = fun fuel => (f fuel).bind fun a => .ok (g a) := by
    funext fuel
    cases f fuel with
    | error err => rfl
    | ok a => rfl
  rw [heq]
  exact hbind

end Settles

/-! ## Trees -/

section

variable {V : Type}

/-- The children that `parser.Walk` goes on with. -/
def children : Expr (Response V) → List (Expr (Response V))
  | .matrixSelector vs _ => [.vectorSelector vs]
  | .subqueryExpr expr _ _ _ _ _ => [expr]
  | .call _ args => [args]
  | .aggregateExpr _ expr param _ _ => [expr, param]
  | .binaryExpr _ lhs rhs => [lhs, rhs]
  | .unaryExpr _ expr => [expr]
  | .parenExpr expr => [expr]
  | .stepInvariantExpr expr => [expr]
  | .argument head tail => [head, tail]
  | _ => []

def size : Expr (Response V) → Nat
  | .matrixSelector _ _ => 2
  | .subqueryExpr expr _ _ _ _ _ => size expr + 1
  -- a call that sorts is left above a selector
  | .call _ args => size args + 3
  | .aggregateExpr _ expr param _ _ => size expr + size param + 1
  | .binaryExpr _ lhs rhs => size lhs + size rhs + 1
  | .unaryExpr _ expr => size expr + 1
  | .parenExpr expr => size expr + 1
  | .stepInvariantExpr expr => size expr + 1
  | .argument head tail => size head + size tail + 1
  | _ => 1

/-- The averages in a tree. -/
def averages : Expr (Response V) → Nat
  | .subqueryExpr expr _ _ _ _ _ => averages expr
  | .call _ args => averages args
  | .aggregateExpr op expr param _ _ => (if op = .avg then 1 else 0) + (averages expr + averages param)
  | .binaryExpr _ lhs rhs => averages lhs + averages rhs
  | .unaryExpr _ expr => averages expr
  | .parenExpr expr => averages expr
  | .stepInvariantExpr expr => averages expr
  | .argument head tail => averages head + averages tail
  | _ => 0

theorem size_pos (e : Expr (Response V)) : 0 < size e := by
  cases e <;> simp [size]

/-- What the induction goes down by. -/
def Smaller (e' e : Expr (Response V)) : Prop :=
  averages e' < averages e ∨ averages e' ≤ averages e ∧ size e' < size e

theorem smaller_of_mem_children {node c : Expr (Response V)} (h : c ∈ children node) :
    Smaller c node := by
  refine Or.inr ?_
  cases node with
  | aggregateExpr op expr param grouping without =>
    simp only [children, List.mem_cons, List.not_mem_nil, or_false] at h
    rcases h with rfl | rfl <;> simp only [averages, size] <;> omega
  | binaryExpr op lhs rhs =>
    simp only [children, List.mem_cons, List.not_mem_nil, or_false] at h
    rcases h with rfl | rfl <;> simp only [averages, size] <;> omega
  | argument head tail =>
    simp only [children, List.mem_cons, List.not_mem_nil, or_false] at h
    rcases h with rfl | rfl <;> simp only [averages, size] <;> omega
  | matrixSelector vs range =>
    rw [List.mem_singleton.mp h]
    simp [averages, size]
  | subqueryExpr expr range originalOffset offset step timestamp =>
    rw [List.mem_singleton.mp h]
    simp [averages, size]
  | call func args =>
    rw [List.mem_singleton.mp h]
    simp [averages, size]
  | unaryExpr op expr =>
    rw [List.mem_singleton.mp h]
    simp [averages, size]
  | parenExpr expr =>
    rw [List.mem_singleton.mp h]
    simp [averages, size]
  | stepInvariantExpr expr =>
    rw [List.mem_singleton.mp h]
    simp [averages, size]
  | _ => cases h

theorem size_offsetRemover (e : Expr (Response V)) : size (offsetRemover e) = size e := by
  induction e <;> simp_all [offsetRemover, size]

theorem averages_offsetRemover (e : Expr (Response V)) :
    averages (offsetRemover e) = averages e := by
  induction e <;> simp_all [offsetRemover, averages]

theorem averages_le_booleanFinder (e : Expr (Response V)) :
    averages e ≤ booleanFinder isAgg e := by
  induction e with
  | aggregateExpr op expr param grouping without ih ih' =>
    rw [booleanFinder] at ih ih' ⊢
    rw [Expr.nodes, List.filter_cons, if_pos (by rfl), List.filter_append, List.length_cons,
      List.length_append, averages]
    split <;> omega
  | binaryExpr op lhs rhs ih ih' =>
    rw [booleanFinder] at ih ih' ⊢
    rw [Expr.nodes, List.filter_cons, if_neg (by simp [isAgg]), List.filter_append,
      List.length_append, averages]
    omega
  | argument head tail ih ih' =>
    rw [booleanFinder] at ih ih' ⊢
    rw [Expr.nodes, List.filter_append, List.length_append, averages]
    omega
  | _ => simp_all [booleanFinder, Expr.nodes, isAgg, averages]

variable [Regexp]

/-- The text of a tree has the averages of the tree. -/
theorem averages_of_reparse {e e' : Expr (Response V)} (h : e.reparse = some e') :
    averages e' = averages e := by
  induction e generalizing e' with
  | vectorSelector vs =>
    obtain ⟨vs', -, rfl⟩ := Option.map_eq_some_iff.mp h
    rfl
  | matrixSelector vs range =>
    obtain ⟨vs', -, rfl⟩ := Option.map_eq_some_iff.mp h
    rfl
  | aggregateExpr op expr param grouping without ih ih' =>
    obtain ⟨expr', hexpr, h⟩ := Option.bind_eq_some_iff.mp h
    obtain ⟨param', hparam, rfl⟩ := Option.map_eq_some_iff.mp h
    rw [averages, averages, ih hexpr, ih' hparam]
  | binaryExpr op lhs rhs ih ih' =>
    obtain ⟨lhs', hlhs, h⟩ := Option.bind_eq_some_iff.mp h
    obtain ⟨rhs', hrhs, rfl⟩ := Option.map_eq_some_iff.mp h
    rw [averages, averages, ih hlhs, ih' hrhs]
  | argument head tail ih ih' =>
    obtain ⟨head', hhead, h⟩ := Option.bind_eq_some_iff.mp h
    obtain ⟨tail', htail, rfl⟩ := Option.map_eq_some_iff.mp h
    rw [averages, averages, ih hhead, ih' htail]
  | stepInvariantExpr expr ih => exact ih h
  | subqueryExpr expr range originalOffset offset step timestamp ih =>
    obtain ⟨expr', hexpr, rfl⟩ := Option.map_eq_some_iff.mp h
    rw [averages, averages, ih hexpr]
  | call func args ih =>
    obtain ⟨args', hargs, rfl⟩ := Option.map_eq_some_iff.mp h
    rw [averages, averages, ih hargs]
  | unaryExpr op expr ih =>
    obtain ⟨expr', hexpr, rfl⟩ := Option.map_eq_some_iff.mp h
    rw [averages, averages, ih hexpr]
  | parenExpr expr ih =>
    obtain ⟨expr', hexpr, rfl⟩ := Option.map_eq_some_iff.mp h
    rw [averages, averages, ih hexpr]
  | _ =>
    cases h
    rfl

theorem averages_cloneExpr_le (e : Expr (Response V)) : averages (cloneExpr e) ≤ averages e := by
  rw [cloneExpr]
  cases h : e.reparse with
  | none => exact Nat.zero_le _
  | some e' => exact (averages_of_reparse h).le

theorem averages_preserveLabel_le (e : Expr (Response V)) (srcLabel dstLabel : String) :
    averages (preserveLabel e srcLabel dstLabel) ≤ averages e := by
  simpa [preserveLabel, averages] using averages_cloneExpr_le e

/-! ## What is put in the place of a node -/

variable [Engine V] {p : ProxyStorage V} {s : EvalStmt} {r : Prepared}
  {path : List (Expr (Response V))}

omit [Regexp] in
/-- An average that is accepted has no average below it. -/
theorem averages_of_accepted {expr param : Expr (Response V)} {grouping : List String}
    {without : Bool} (h : Accepted p (.aggregateExpr .avg expr param grouping without) path r) :
    averages expr = 0 ∧ averages param = 0 := by
  have hpos : 0 < booleanFinder isAgg (.aggregateExpr .avg expr param grouping without) := by
    rw [booleanFinder, Expr.nodes, List.filter_cons, if_pos (by rfl)]
    exact Nat.succ_pos _
  have hle := averages_le_booleanFinder (.aggregateExpr .avg expr param grouping without)
  rw [(h.aggregates rfl hpos).2, averages, if_pos rfl] at hle
  omega

omit [Regexp] [Engine V] in
theorem smaller_answered {op op' : ItemType} {expr param param' : Expr (Response V)}
    {grouping grouping' : List String} {without without' : Bool} {vs : VectorSelector (Response V)}
    (haverages : averages param' ≤ averages param) (hsize : size param' ≤ size param) :
    ∀ c ∈ children (.aggregateExpr op' (.vectorSelector vs) param' grouping' without'),
      Smaller c (.aggregateExpr op expr param grouping without) := by
  intro c hc
  have hpos := size_pos expr
  have hpos' := size_pos param
  simp only [children, List.mem_cons, List.not_mem_nil, or_false] at hc
  rcases hc with rfl | rfl
  · refine Or.inr ⟨Nat.zero_le _, ?_⟩
    simp only [size]
    omega
  · refine Or.inr ⟨?_, ?_⟩ <;> simp only [averages, size] <;> omega

omit [Regexp] [Engine V] in
theorem averages_removeOffset (e : Expr (Response V)) : averages (removeOffset r e) = averages e := by
  rw [removeOffset]
  split
  · rfl
  · exact averages_offsetRemover e

omit [Regexp] [Engine V] in
theorem size_removeOffset (e : Expr (Response V)) : size (removeOffset r e) = size e := by
  rw [removeOffset]
  split
  · rfl
  · exact size_offsetRemover e

omit [Regexp] [Engine V] in
theorem outcome_of_lossy {lossy : Bool} {query node' : Expr (Response V)} {offsets : List Int}
    {visit : Visit V}
    (h : (if lossy then ⟨.fallback .lossyHistogram, query, offsets⟩ else visit).outcome =
      .pushed node') : lossy = false ∧ visit.outcome = .pushed node' := by
  cases lossy with
  | true => cases h
  | false => exact ⟨rfl, h⟩

omit [Regexp] [Engine V] in
theorem smaller_of_lossy {op op' : ItemType} {expr param param' ast : Expr (Response V)}
    {grouping grouping' : List String} {without without' lossy : Bool} {offsets offsets' : List Int}
    {vs : VectorSelector (Response V)} {node' query : Expr (Response V)}
    (haverages : averages param' ≤ averages param) (hsize : size param' ≤ size param)
    (h : (if lossy then (⟨.fallback .lossyHistogram, query, offsets⟩ : Visit V)
      else ⟨.pushed (.aggregateExpr op' (.vectorSelector vs) param' grouping' without'), ast,
        offsets'⟩).outcome = .pushed node') :
    ∀ c ∈ children node', Smaller c (.aggregateExpr op expr param grouping without) := by
  cases (outcome_of_lossy h).2
  exact smaller_answered haverages hsize

omit [Regexp] [Engine V] in
/-- What an average is replaced with has none. -/
theorem smaller_average {expr param node' : Expr (Response V)} {grouping : List String}
    {without : Bool} (h : ∀ c ∈ children node', averages c = 0) :
    ∀ c ∈ children node', Smaller c (.aggregateExpr .avg expr param grouping without) := by
  intro c hc
  refine Or.inl ?_
  rw [h c hc, averages, if_pos rfl]
  omega

theorem smaller_replaceAggregate {op : ItemType} {expr param node' : Expr (Response V)}
    {grouping : List String} {without : Bool}
    (h : Accepted p (.aggregateExpr op expr param grouping without) path r)
    (houtcome : (replaceAggregate p s r op expr param grouping without).outcome = .pushed node') :
    ∀ c ∈ children node', Smaller c (.aggregateExpr op expr param grouping without) := by
  have haverages : averages (removeOffset r param) ≤ averages param := (averages_removeOffset param).le
  have hsize : size (removeOffset r param) ≤ size param := (size_removeOffset param).le
  unfold replaceAggregate at houtcome
  cases hdata : hasData expr with
  | true =>
    rw [hdata] at houtcome
    cases houtcome
  | false =>
    cases op with
    | avg =>
      obtain ⟨hexpr, hparam⟩ := averages_of_accepted h
      have hclone : averages (cloneExpr expr) = 0 :=
        Nat.le_zero.mp ((averages_cloneExpr_le expr).trans_eq hexpr)
      have hpreserve : averages (preserveLabel (cloneExpr expr) metricNameLabel
          metricNameWorkaroundLabel) = 0 :=
        Nat.le_zero.mp ((averages_preserveLabel_le _ _ _).trans_eq hclone)
      simp only [hdata, Bool.false_eq_true, if_false] at houtcome
      split at houtcome
      · exact smaller_of_lossy haverages hsize houtcome
      · split at houtcome
        · cases houtcome
          refine smaller_average fun c hc => ?_
          simp only [children, List.mem_cons, List.not_mem_nil, or_false] at hc
          rcases hc with rfl | rfl
          · refine Nat.le_zero.mp ((averages_preserveLabel_le _ _ _).trans_eq ?_)
            simp [averages, hpreserve, hparam]
          · rfl
        · cases houtcome
          refine smaller_average fun c hc => ?_
          simp only [children, List.mem_cons, List.not_mem_nil, or_false] at hc
          rcases hc with rfl | rfl
          · simp [averages, hclone, hparam]
          · simp [averages, hclone, hparam]
    | countValues =>
      simp only [hdata, Bool.false_eq_true, if_false] at houtcome
      split at houtcome
      · have haverages : averages (.noExpr : Expr (Response V)) ≤ averages param := Nat.zero_le _
        exact smaller_of_lossy haverages (size_pos param) houtcome
      · cases houtcome
    | quantile => cases hdata ▸ houtcome
    | stddev => cases hdata ▸ houtcome
    | stdvar => cases hdata ▸ houtcome
    | limitk => cases hdata ▸ houtcome
    | limitRatio => cases hdata ▸ houtcome
    | _ =>
      simp only [hdata, Bool.false_eq_true, if_false] at houtcome
      exact smaller_of_lossy haverages hsize houtcome

omit [Regexp] [Engine V] in
theorem smaller_replaceCall {func : String} {args node' : Expr (Response V)}
    (houtcome : (replaceCall p s r func args).outcome = .pushed node') :
    ∀ c ∈ children node', Smaller c (.call func args) := by
  have hsize := size_pos args
  rw [replaceCall] at houtcome
  dsimp only at houtcome
  cases hfunc : perSeriesFuncs.contains func with
  | false =>
    rw [hfunc] at houtcome
    cases houtcome
  | true =>
    rw [hfunc, if_neg (by simp)] at houtcome
    cases (outcome_of_lossy houtcome).2
    intro c hc
    split at hc
    · rw [List.mem_singleton.mp hc]
      refine Or.inr ⟨Nat.zero_le _, ?_⟩
      simp only [size]
      omega
    · cases hc

omit [Regexp] [Engine V] in
theorem children_of_replaceVectorSelector {vs : VectorSelector (Response V)} {visit : Visit V}
    {node' : Expr (Response V)} (h : replaceVectorSelector p s r path vs = .ok visit)
    (houtcome : visit.outcome = .pushed node') : children node' = [] := by
  simp only [replaceVectorSelector] at h
  split at h
  · cases h
    cases houtcome
  · split at h
    · cases h
      cases houtcome
    · split at h
      · cases h
      · split at h
        · cases h
          cases houtcome
        · split at h
          · cases h
            cases houtcome
            rfl
          · cases h
            cases houtcome
            rfl

omit [Regexp] [Engine V] in
theorem children_of_vectorBinaryExpr {node : VectorSelector (Response V) → Expr (Response V)}
    {vs : VectorSelector (Response V)} {visit : Visit V} {node' : Expr (Response V)}
    (h : vectorBinaryExpr p s r node vs = .ok visit) (houtcome : visit.outcome = .pushed node') :
    children node' = [] := by
  simp only [vectorBinaryExpr] at h
  split at h
  · cases h
  · split at h
    · cases h
      cases houtcome
    · cases h
      cases houtcome
      rfl

omit [Regexp] [Engine V] in
theorem children_of_replaceBinary {op : String} {lhs rhs node' : Expr (Response V)}
    {visit : Visit V} (h : replaceBinary p s r op lhs rhs = .ok visit)
    (houtcome : visit.outcome = .pushed node') : children node' = [] := by
  simp only [replaceBinary] at h
  split at h
  · split at h
    · exact children_of_vectorBinaryExpr h houtcome
    · cases h
      cases houtcome
  · split at h
    · split at h
      · exact children_of_vectorBinaryExpr h houtcome
      · cases h
        cases houtcome
    · cases h
      cases houtcome

theorem visit_cases
    {inspect : EvalStmt → Expr (Response V) → Except Failure (Expr (Response V) × Bool)}
    {node node' : Expr (Response V)} {visit : Visit V}
    (h : nodeReplacer p inspect s path node = .ok visit)
    (houtcome : visit.outcome = .pushed node') :
    ∃ r, Accepted p node path r ∧ replaceNode p inspect s r path node = .ok visit := by
  obtain ⟨prepared, hprepared, hvisit⟩ := bind_eq_ok h
  cases prepared with
  | inl reason =>
    cases hvisit
    cases houtcome
  | inr r =>
    refine ⟨r, prepare_eq_inr hprepared, ?_⟩
    obtain ⟨replaced, hreplaced, rfl⟩ := map_eq_ok hvisit
    rw [hreplaced]
    cases hout : replaced.outcome with
    | pushed n => rfl
    | fallback reason =>
      rw [hout] at houtcome
      exact absurd houtcome (by simp)
    | revisit =>
      rw [hout] at houtcome
      exact absurd houtcome (by simp)

/-- `parser.Walk` goes on with less than the node, whatever is put in its place. -/
theorem smaller_of_pushed
    {inspect : EvalStmt → Expr (Response V) → Except Failure (Expr (Response V) × Bool)}
    {node node' : Expr (Response V)} {visit : Visit V} (hsub : isSubQuery node = false)
    (h : nodeReplacer p inspect s path node = .ok visit)
    (houtcome : visit.outcome = .pushed node') : ∀ c ∈ children node', Smaller c node := by
  obtain ⟨r, haccepted, hreplaced⟩ := visit_cases h houtcome
  cases node with
  | aggregateExpr op expr param grouping without =>
    cases hreplaced
    exact smaller_replaceAggregate haccepted houtcome
  | call func args =>
    cases hreplaced
    exact smaller_replaceCall houtcome
  | vectorSelector vs =>
    rw [children_of_replaceVectorSelector hreplaced houtcome]
    exact List.forall_mem_nil _
  | binaryExpr op lhs rhs =>
    rw [children_of_replaceBinary hreplaced houtcome]
    exact List.forall_mem_nil _
  | subqueryExpr expr range originalOffset offset step timestamp => cases hsub
  | _ =>
    cases hreplaced
    cases houtcome

/-- A subquery stays one. -/
theorem subquery_of_pushed
    {inspect : EvalStmt → Expr (Response V) → Except Failure (Expr (Response V) × Bool)}
    {node node' : Expr (Response V)} {visit : Visit V} (hsub : isSubQuery node = true)
    (h : nodeReplacer p inspect s path node = .ok visit) (houtcome : visit.outcome = .pushed node') :
    ∃ expr range originalOffset offset step timestamp,
      node' = .subqueryExpr expr range originalOffset offset step timestamp := by
  obtain ⟨r, -, hreplaced⟩ := visit_cases h houtcome
  cases node with
  | subqueryExpr expr range originalOffset offset step timestamp =>
    obtain ⟨⟨newN, pushed⟩, -, rfl⟩ := map_eq_ok hreplaced
    cases pushed with
    | true =>
      cases houtcome
      exact ⟨_, _, _, _, _, _, rfl⟩
    | false => cases houtcome
  | _ => cases hsub

/-! ## The walk ends -/

/-- The walk of a tree comes to a result. -/
def Ends (p : ProxyStorage V) (s : EvalStmt) (path : List (Expr (Response V)))
    (e : Expr (Response V)) : Prop :=
  Settles fun fuel => walk p fuel s path e

omit [Regexp] [Engine V] in
theorem settles_walkBoth {fst snd : Nat → Except Failure (Expr (Response V) × Bool)}
    (node : Expr (Response V) → Expr (Response V) → Expr (Response V)) (hfst : Settles fst)
    (hsnd : Settles snd) : Settles fun fuel => walkBoth node (fst fuel) (snd fuel) :=
  hfst.bind fun _ _ _ => hsnd.map _

theorem settles_walkChildren {node : Expr (Response V)}
    (h : ∀ c ∈ children node, Ends p s path c) :
    Settles fun fuel => walkChildren (walk p fuel s path) node := by
  cases node with
  | matrixSelector vs range => exact (h _ (List.mem_singleton.mpr rfl)).map _
  | subqueryExpr expr range originalOffset offset step timestamp =>
    exact (h _ (List.mem_singleton.mpr rfl)).map _
  | call func args => exact (h _ (List.mem_singleton.mpr rfl)).map _
  | aggregateExpr op expr param grouping without =>
    exact settles_walkBoth (fun expr param => .aggregateExpr op expr param grouping without)
      (h expr (by simp [children])) (h param (by simp [children]))
  | binaryExpr op lhs rhs =>
    exact settles_walkBoth _ (h lhs (by simp [children])) (h rhs (by simp [children]))
  | unaryExpr op expr => exact (h _ (List.mem_singleton.mpr rfl)).map _
  | parenExpr expr => exact (h _ (List.mem_singleton.mpr rfl)).map _
  | stepInvariantExpr expr => exact (h _ (List.mem_singleton.mpr rfl)).map _
  | argument head tail =>
    exact settles_walkBoth _ (h head (by simp [children])) (h tail (by simp [children]))
  | _ => exact Settles.const (by simp)

omit [Regexp] in
/-- What `prepare` fails for. -/
theorem error_of_prepare {node : Expr (Response V)} {err : Failure}
    (h : prepare p node path = .error err) :
    err = .histogramFidelity (strictMissingRemoteRead p) := by
  rw [prepare] at h
  dsimp only at h
  split at h
  · cases h
  · split at h
    · split at h
      · cases h
        rfl
      · cases h
    · split at h
      · cases h
      · split at h
        · cases h
        · split at h
          · cases h
          · split at h
            · cases h
            · split at h
              · cases h
              · cases h

omit [Regexp] in
theorem prepare_ne_depth (node : Expr (Response V)) : prepare p node path ≠ .error .depth :=
  fun h => by cases error_of_prepare h

omit [Regexp] [Engine V] in
theorem vectorBinaryExpr_ne_depth {node : VectorSelector (Response V) → Expr (Response V)}
    {vs : VectorSelector (Response V)} : vectorBinaryExpr p s r node vs ≠ .error .depth := by
  simp only [vectorBinaryExpr]
  split
  · simp
  · split
    · simp
    · simp

omit [Regexp] [Engine V] in
theorem replaceVectorSelector_ne_depth {vs : VectorSelector (Response V)} :
    replaceVectorSelector p s r path vs ≠ .error .depth := by
  simp only [replaceVectorSelector]
  split
  · simp
  · split
    · simp
    · split
      · simp
      · split
        · simp
        · split
          · simp
          · simp

omit [Regexp] [Engine V] in
theorem replaceBinary_ne_depth {op : String} {lhs rhs : Expr (Response V)} :
    replaceBinary p s r op lhs rhs ≠ .error .depth := by
  simp only [replaceBinary]
  split
  · split
    · exact vectorBinaryExpr_ne_depth
    · simp
  · split
    · split
      · exact vectorBinaryExpr_ne_depth
      · simp
    · simp

/-- Only the arm of a subquery walks. -/
theorem settles_nodeReplacer {node : Expr (Response V)}
    (h : path.any isSubQuery = false → ∀ expr ∈ children node, ∀ s, Ends p s [] expr) :
    Settles fun fuel => nodeReplacer p (fun s expr => walk p fuel s [] expr) s path node := by
  refine (Settles.const (prepare_ne_depth node)).bind fun _ prepared hprepared => ?_
  cases prepared with
  | inl reason => exact Settles.const (by simp)
  | inr r =>
    refine Settles.map _ ?_
    cases node with
    | subqueryExpr expr range originalOffset offset step timestamp =>
      have hpath := (prepare_eq_inr hprepared).notBelowSubquery
      exact (h hpath expr (List.mem_singleton.mpr rfl) _).map _
    | vectorSelector vs => exact Settles.const replaceVectorSelector_ne_depth
    | binaryExpr op lhs rhs => exact Settles.const replaceBinary_ne_depth
    | _ => exact Settles.const (by simp)

theorem ends_of_isNode {node : Expr (Response V)} (hnode : IsNode node)
    (hvisit : path.any isSubQuery = false → ∀ expr ∈ children node, ∀ s, Ends p s [] expr)
    (hkept : ∀ c ∈ children node, Ends p s (node :: path) c)
    (hpushed : ∀ fuel visit node',
      nodeReplacer p (fun s expr => walk p fuel s [] expr) s path node = .ok visit →
      visit.outcome = .pushed node' → ∀ c ∈ children node', Ends p s (node' :: path) c) :
    Ends p s path node := by
  refine Settles.of_succ ?_
  simp only [walk_of_isNode hnode]
  refine (settles_nodeReplacer hvisit).bind fun fuel visit h => ?_
  have hast := ast_of_declined (fun s e => keeps_walk fuel s [] e) h
  cases hout : visit.outcome with
  | pushed node' => exact (settles_walkChildren (hpushed fuel visit node' h hout)).map _
  | fallback reason =>
    rw [hast (by simp [hout])]
    exact settles_walkChildren hkept
  | revisit =>
    rw [hast (by simp [hout])]
    exact settles_walkChildren hkept

theorem ends_argument {head tail : Expr (Response V)} (hhead : Ends p s path head)
    (htail : Ends p s path tail) : Ends p s path (.argument head tail) :=
  Settles.of_succ (settles_walkBoth .argument hhead htail)

theorem ends_noExpr : Ends p s path .noExpr := by
  have hwalks : Walks p s path .noExpr .noExpr false := Walks.noExpr
  obtain ⟨depth, hdepth⟩ := hwalks
  exact ⟨depth, _, by simp, hdepth⟩

omit [Regexp] [Engine V] in
theorem wellFounded_smaller : WellFounded (Smaller (V := V)) := by
  refine Subrelation.wf (r := InvImage (Prod.Lex (· < ·) (· < ·))
    fun e : Expr (Response V) => (averages e, size e)) (fun {e' e} h => ?_)
    (InvImage.wf _ (WellFounded.prod_lex Nat.lt_wfRel.wf Nat.lt_wfRel.wf))
  rcases h with h | ⟨haverages, hsize⟩
  · exact Prod.Lex.left _ _ h
  · rcases Nat.lt_or_eq_of_le haverages with h | h
    · exact Prod.Lex.left _ _ h
    · exact Prod.lex_def.mpr (Or.inr ⟨h, hsize⟩)

theorem ends_of_smaller {e : Expr (Response V)}
    (hnode : IsNode e → Ends p s path e)
    (hargument : ∀ c ∈ children e, Ends p s path c) : Ends p s path e := by
  cases e with
  | noExpr => exact ends_noExpr
  | argument head tail =>
    exact ends_argument (hargument head (by simp [children])) (hargument tail (by simp [children]))
  | _ => exact hnode trivial

/-- Below a subquery every node is declined. -/
theorem ends_belowSubquery (e : Expr (Response V)) (path : List (Expr (Response V)))
    (hpath : path.any isSubQuery = true) : Ends p s path e := by
  induction e using wellFounded_smaller.induction generalizing path with
  | _ e ih =>
    refine ends_of_smaller (fun hnode => ?_) fun c hc => ih c (smaller_of_mem_children hc) path hpath
    refine ends_of_isNode hnode (fun hsub => by simp [hpath] at hsub) (fun c hc => ?_)
      fun fuel visit node' h hout => ?_
    · exact ih c (smaller_of_mem_children hc) _ (by rw [List.any_cons, hpath, Bool.or_true])
    · obtain ⟨r, haccepted, -⟩ := visit_cases h hout
      rw [haccepted.notBelowSubquery] at hpath
      cases hpath

/-- Of every tree, whatever the server groups answer, the walk comes to a result. -/
theorem walk_ends (p : ProxyStorage V) (s : EvalStmt) (path : List (Expr (Response V)))
    (e : Expr (Response V)) : Settles fun fuel => walk p fuel s path e := by
  show Ends p s path e
  induction e using wellFounded_smaller.induction generalizing s path with
  | _ e ih =>
    have hchildren (c) (hc : c ∈ children e) (s path) : Ends p s path c :=
      ih c (smaller_of_mem_children hc) s path
    refine ends_of_smaller (fun hnode => ?_) fun c hc => hchildren c hc s path
    refine ends_of_isNode hnode (fun _ c hc s => hchildren c hc s []) (fun c hc => hchildren c hc s _)
      fun fuel visit node' h hout => ?_
    cases hsub : isSubQuery e with
    | false => exact fun c hc => ih c (smaller_of_pushed hsub h hout c hc) s _
    | true =>
      obtain ⟨expr, range, originalOffset, offset, step, timestamp, rfl⟩ :=
        subquery_of_pushed hsub h hout
      exact fun c _ => ends_belowSubquery c _ (by simp [isSubQuery])

end

end Proxystorage
end Proxeus
