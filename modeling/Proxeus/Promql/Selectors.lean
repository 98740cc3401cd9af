import Proxeus.Promql.Printer

/-!
# Promql.Selectors

The selectors of an expression, in the order in which `parser.Walk` visits them, and visitors that
change nothing but selectors. A request is parsed if every one of its selectors is
(`isSome_reparse`), and the parsed expression has the selectors that are read from their texts.
-/

namespace Proxeus
namespace Promql

namespace Expr

variable {D : Type}

/-- The selector of a node that is one. -/
def vectorSelector? : Expr D → Option (VectorSelector D)
  | vectorSelector vs => some vs
  | _ => none

/-- The vector selectors that `parser.Walk` visits. -/
def selectors (e : Expr D) : List (VectorSelector D) := e.nodes.filterMap vectorSelector?

/-- The expression after a walk of a visitor that replaces the vector selectors. -/
def mapSelectors (f : VectorSelector D → VectorSelector D) : Expr D → Expr D
  | vectorSelector vs => vectorSelector (f vs)
  | matrixSelector vs range => matrixSelector (f vs) range
  | subqueryExpr expr range originalOffset offset step timestamp =>
    subqueryExpr (mapSelectors f expr) range originalOffset offset step timestamp
  | call func args => call func (mapSelectors f args)
  | aggregateExpr op expr param grouping without =>
    aggregateExpr op (mapSelectors f expr) (mapSelectors f param) grouping without
  | binaryExpr op lhs rhs => binaryExpr op (mapSelectors f lhs) (mapSelectors f rhs)
  | unaryExpr op expr => unaryExpr op (mapSelectors f expr)
  | numberLiteral val => numberLiteral val
  | stringLiteral val => stringLiteral val
  | parenExpr expr => parenExpr (mapSelectors f expr)
  | stepInvariantExpr expr => stepInvariantExpr (mapSelectors f expr)
  | noExpr => noExpr
  | argument head tail => argument (mapSelectors f head) (mapSelectors f tail)

/-! ## The selectors of a node -/

section

variable (vs : VectorSelector D) (e e' : Expr D)

@[simp] theorem selectors_vectorSelector : (vectorSelector vs).selectors = [vs] := rfl

@[simp] theorem selectors_matrixSelector (range : Int) :
    (matrixSelector vs range).selectors = [vs] := rfl

@[simp] theorem selectors_subqueryExpr (range originalOffset offset step : Int)
    (timestamp : Option Int) :
    (subqueryExpr e range originalOffset offset step timestamp).selectors = e.selectors := rfl

@[simp] theorem selectors_call (func : String) : (call func e).selectors = e.selectors := rfl

@[simp] theorem selectors_aggregateExpr (op : ItemType) (grouping : List String)
    (without : Bool) :
    (aggregateExpr op e e' grouping without).selectors = e.selectors ++ e'.selectors :=
  List.filterMap_append

@[simp] theorem selectors_binaryExpr (op : String) :
    (binaryExpr op e e').selectors = e.selectors ++ e'.selectors := List.filterMap_append

@[simp] theorem selectors_unaryExpr (op : String) : (unaryExpr op e).selectors = e.selectors := rfl

@[simp] theorem selectors_numberLiteral (val : ℚ) :
    (numberLiteral val : Expr D).selectors = [] := rfl

@[simp] theorem selectors_stringLiteral (val : String) :
    (stringLiteral val : Expr D).selectors = [] := rfl

@[simp] theorem selectors_parenExpr : (parenExpr e).selectors = e.selectors := rfl

@[simp] theorem selectors_stepInvariantExpr : (stepInvariantExpr e).selectors = e.selectors := rfl

@[simp] theorem selectors_noExpr : (noExpr : Expr D).selectors = [] := rfl

@[simp] theorem selectors_argument :
    (argument e e').selectors = e.selectors ++ e'.selectors := List.filterMap_append

end

theorem selectors_mapSelectors (f : VectorSelector D → VectorSelector D) (e : Expr D) :
    (e.mapSelectors f).selectors = e.selectors.map f := by
  induction e with
  | vectorSelector vs => rfl
  | matrixSelector vs range => rfl
  | subqueryExpr expr range originalOffset offset step timestamp ih => exact ih
  | call func args ih => exact ih
  | aggregateExpr op expr param grouping without ihe ihp =>
    simp only [mapSelectors, selectors_aggregateExpr, List.map_append, ihe, ihp]
  | binaryExpr op lhs rhs ihl ihr =>
    simp only [mapSelectors, selectors_binaryExpr, List.map_append, ihl, ihr]
  | unaryExpr op expr ih => exact ih
  | numberLiteral val => rfl
  | stringLiteral val => rfl
  | parenExpr expr ih => exact ih
  | stepInvariantExpr expr ih => exact ih
  | noExpr => rfl
  | argument head tail ihh iht =>
    simp only [mapSelectors, selectors_argument, List.map_append, ihh, iht]

/-- A visitor that finds every selector as it would leave it changes nothing. -/
theorem mapSelectors_eq_self {f : VectorSelector D → VectorSelector D} {e : Expr D}
    (h : ∀ vs ∈ e.selectors, f vs = vs) : e.mapSelectors f = e := by
  induction e with
  | vectorSelector vs => exact congrArg vectorSelector (h vs List.mem_cons_self)
  | matrixSelector vs range =>
    exact congrArg (matrixSelector · range) (h vs List.mem_cons_self)
  | subqueryExpr expr range originalOffset offset step timestamp ih =>
    rw [mapSelectors, ih h]
  | call func args ih => rw [mapSelectors, ih h]
  | aggregateExpr op expr param grouping without ihe ihp =>
    simp only [selectors_aggregateExpr, List.mem_append] at h
    rw [mapSelectors, ihe fun vs hvs => h vs (.inl hvs), ihp fun vs hvs => h vs (.inr hvs)]
  | binaryExpr op lhs rhs ihl ihr =>
    simp only [selectors_binaryExpr, List.mem_append] at h
    rw [mapSelectors, ihl fun vs hvs => h vs (.inl hvs), ihr fun vs hvs => h vs (.inr hvs)]
  | unaryExpr op expr ih => rw [mapSelectors, ih h]
  | numberLiteral val => rfl
  | stringLiteral val => rfl
  | parenExpr expr ih => rw [mapSelectors, ih h]
  | stepInvariantExpr expr ih => rw [mapSelectors, ih h]
  | noExpr => rfl
  | argument head tail ihh iht =>
    simp only [selectors_argument, List.mem_append] at h
    rw [mapSelectors, ihh fun vs hvs => h vs (.inl hvs), iht fun vs hvs => h vs (.inr hvs)]

end Expr

/-! ## Parsing -/

section

variable [Regexp] {D : Type}

theorem isSome_reparse_selector (vs : VectorSelector D) : vs.reparse.isSome = vs.text.check := by
  rw [VectorSelector.reparse, Option.isSome_map, SelectorText.parseExpr]
  split
  · rename_i h
    exact h.symm
  · rename_i h
    exact (Bool.eq_false_iff.mpr h).symm

theorem labelMatchers_of_reparse {vs vs' : VectorSelector D} (h : vs.reparse = some vs') :
    vs'.name = vs.name ∧ vs'.labelMatchers = vs.text.parseMetricSelector := by
  rw [VectorSelector.reparse, SelectorText.parseExpr] at h
  split at h
  · cases h
    exact ⟨rfl, rfl⟩
  · cases h

theorem isSome_reparse (e : Expr D) :
    e.reparse.isSome = e.selectors.all fun vs => vs.text.check := by
  induction e with
  | vectorSelector vs =>
    simp only [Expr.reparse, Option.isSome_map, isSome_reparse_selector,
      Expr.selectors_vectorSelector, List.all_cons, List.all_nil, Bool.and_true]
  | matrixSelector vs range =>
    simp only [Expr.reparse, Option.isSome_map, isSome_reparse_selector,
      Expr.selectors_matrixSelector, List.all_cons, List.all_nil, Bool.and_true]
  | subqueryExpr expr range originalOffset offset step timestamp ih =>
    rw [Expr.reparse, Option.isSome_map, ih, Expr.selectors_subqueryExpr]
  | call func args ih => rw [Expr.reparse, Option.isSome_map, ih, Expr.selectors_call]
  | aggregateExpr op expr param grouping without ihe ihp =>
    rw [Expr.reparse, Expr.selectors_aggregateExpr, List.all_append, ← ihe, ← ihp]
    cases expr.reparse <;> simp
  | binaryExpr op lhs rhs ihl ihr =>
    rw [Expr.reparse, Expr.selectors_binaryExpr, List.all_append, ← ihl, ← ihr]
    cases lhs.reparse <;> simp
  | unaryExpr op expr ih => rw [Expr.reparse, Option.isSome_map, ih, Expr.selectors_unaryExpr]
  | numberLiteral val => rfl
  | stringLiteral val => rfl
  | parenExpr expr ih => rw [Expr.reparse, Option.isSome_map, ih, Expr.selectors_parenExpr]
  | stepInvariantExpr expr ih => exact ih
  | noExpr => rfl
  | argument head tail ihh iht =>
    rw [Expr.reparse, Expr.selectors_argument, List.all_append, ← ihh, ← iht]
    cases head.reparse <;> simp

/-- The selectors of a parsed expression, each read from its text. -/
theorem selectors_of_reparse {e e' : Expr D} (h : e.reparse = some e') :
    e.selectors.map VectorSelector.reparse = e'.selectors.map some := by
  induction e generalizing e' with
  | vectorSelector vs =>
    obtain ⟨vs', hvs, rfl⟩ := Option.map_eq_some_iff.mp h
    simp [hvs]
  | matrixSelector vs range =>
    obtain ⟨vs', hvs, rfl⟩ := Option.map_eq_some_iff.mp h
    simp [hvs]
  | subqueryExpr expr range originalOffset offset step timestamp ih =>
    obtain ⟨expr', hexpr, rfl⟩ := Option.map_eq_some_iff.mp h
    simp only [Expr.selectors_subqueryExpr, ih hexpr]
  | call func args ih =>
    obtain ⟨args', hargs, rfl⟩ := Option.map_eq_some_iff.mp h
    simp only [Expr.selectors_call, ih hargs]
  | aggregateExpr op expr param grouping without ihe ihp =>
    obtain ⟨expr', hexpr, h⟩ := Option.bind_eq_some_iff.mp h
    obtain ⟨param', hparam, rfl⟩ := Option.map_eq_some_iff.mp h
    simp only [Expr.selectors_aggregateExpr, List.map_append, ihe hexpr, ihp hparam]
  | binaryExpr op lhs rhs ihl ihr =>
    obtain ⟨lhs', hlhs, h⟩ := Option.bind_eq_some_iff.mp h
    obtain ⟨rhs', hrhs, rfl⟩ := Option.map_eq_some_iff.mp h
    simp only [Expr.selectors_binaryExpr, List.map_append, ihl hlhs, ihr hrhs]
  | unaryExpr op expr ih =>
    obtain ⟨expr', hexpr, rfl⟩ := Option.map_eq_some_iff.mp h
    simp only [Expr.selectors_unaryExpr, ih hexpr]
  | numberLiteral val =>
    cases h
    rfl
  | stringLiteral val =>
    cases h
    rfl
  | parenExpr expr ih =>
    obtain ⟨expr', hexpr, rfl⟩ := Option.map_eq_some_iff.mp h
    simp only [Expr.selectors_parenExpr, ih hexpr]
  | stepInvariantExpr expr ih => exact ih h
  | noExpr =>
    cases h
    rfl
  | argument head tail ihh iht =>
    obtain ⟨head', hhead, h⟩ := Option.bind_eq_some_iff.mp h
    obtain ⟨tail', htail, rfl⟩ := Option.map_eq_some_iff.mp h
    simp only [Expr.selectors_argument, List.map_append, ihh hhead, iht htail]

theorem forall₂_selectors_of_reparse {e e' : Expr D} (h : e.reparse = some e') :
    List.Forall₂ (fun vs vs' => vs.reparse = some vs') e.selectors e'.selectors := by
  have heq := selectors_of_reparse h
  rw [← List.forall₂_eq_eq_eq, List.forall₂_map_left_iff, List.forall₂_map_right_iff] at heq
  exact heq

theorem exists_of_mem_selectors {e e' : Expr D} (h : e.reparse = some e') {vs' : VectorSelector D}
    (hvs' : vs' ∈ e'.selectors) : ∃ vs ∈ e.selectors, vs.reparse = some vs' := by
  have hmem : some vs' ∈ e.selectors.map VectorSelector.reparse := by
    rw [selectors_of_reparse h]
    exact List.mem_map_of_mem hvs'
  exact List.mem_map.mp hmem

end

end Promql
end Proxeus
