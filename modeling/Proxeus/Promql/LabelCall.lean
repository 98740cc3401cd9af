import Proxeus.Promql.EngineSpec
import Proxeus.Promql.Printer

/-!
# Promql.LabelCall

Calls of `label_replace` and `label_join` around an expression. Each changes the labels of every
series by itself, and fails if two series are left with the same labels; a chain of calls is one
change of the labels, since series that have become one stay one (`relabelAll_eq`).
-/

namespace Proxeus
namespace Promql

@[simp] theorem bind_toVector_map_vector {V : Type} (v : Option (InstantVector V)) :
    (v.map Value.vector).bind Value.toVector = v := by
  cases v with
  | none => rfl
  | some v => rfl

/-! ## Literals -/

section

variable {D : Type}

/-- A tree of literals, as a parameter or as the rest of the arguments of a call. -/
inductive Literal : Expr D → Value ℚ → Prop where
  | noExpr : Literal .noExpr .noValue
  | numberLiteral (val : ℚ) : Literal (.numberLiteral val) (.scalar val)
  | stringLiteral (val : String) : Literal (.stringLiteral val) (.string val)
  | argument {head tail : Expr D} {value values : Value ℚ} (hhead : Literal head value)
      (htail : Literal tail values) : Literal (.argument head tail) (.values value values)

namespace Literal

variable {e : Expr D} {value : Value ℚ}

theorem reparse [Regexp] (h : Literal e value) : e.reparse = some e := by
  induction h with
  | argument hhead htail ih ih' => rw [Expr.reparse, ih, ih', Option.bind_some, Option.map_some]
  | _ => rfl

theorem eval [Libraries] (h : Literal e value) (src : Source D ℚ) (t : Int) :
    Promql.eval src e t = some value := by
  induction h with
  | argument hhead htail ih ih' => rw [Promql.eval, ih, ih', Option.bind_some, Option.map_some]
  | _ => rfl

end Literal

end

/-! ## Calls -/

/-- A call of a label function, without the vector. -/
inductive LabelCall where
  | labelReplace (dst replacement src regex : String)
  | labelJoin (dst separator : String) (srcs : List String)
deriving DecidableEq, Repr

namespace LabelCall

def func : LabelCall → String
  | labelReplace _ _ _ _ => "label_replace"
  | labelJoin _ _ _ => "label_join"

/-- The values of string arguments. -/
def stringValues : List String → Value ℚ
  | [] => .noValue
  | s :: strs => .values (.string s) (stringValues strs)

section

variable {D : Type}

/-- String arguments. -/
def stringArgs : List String → Expr D
  | [] => .noExpr
  | s :: strs => .argument (.stringLiteral s) (stringArgs strs)

theorem literal_stringArgs (strs : List String) :
    Literal (stringArgs strs : Expr D) (stringValues strs) := by
  induction strs with
  | nil => exact .noExpr
  | cons s strs ih => exact .argument (.stringLiteral s) ih

/-- The arguments after the vector. -/
def strs : LabelCall → List String
  | labelReplace dst replacement src regex => [dst, replacement, src, regex]
  | labelJoin dst separator srcs => dst :: separator :: srcs

/-- The call, of the vector `expr`. -/
def call (c : LabelCall) (expr : Expr D) : Expr D :=
  .call c.func (.argument expr (stringArgs c.strs))

end

/-- The labels that the call reads. -/
def sources : LabelCall → List String
  | labelReplace _ _ src _ => [src]
  | labelJoin _ _ srcs => srcs

/-- The label that the call writes. -/
def destination : LabelCall → String
  | labelReplace dst _ _ _ => dst
  | labelJoin dst _ _ => dst

theorem strings_stringValues (strs : List String) : strings (stringValues strs) = some strs := by
  induction strs with
  | nil => rfl
  | cons s strs ih => rw [stringValues, strings, ih, Option.map_some]

section

variable [Libraries]

/-- What the call does to the labels of a series. -/
def relabel : LabelCall → Labels → Labels
  | labelReplace dst replacement src regex => Promql.labelReplace dst replacement src regex
  | labelJoin dst separator srcs => Promql.labelJoin dst separator srcs

theorem callFunction_vector (c : LabelCall) (v : InstantVector ℚ) (t : Int) :
    callFunction c.func (.values (.vector v) (stringValues c.strs)) t =
      (relabelVector c.relabel v).map .vector := by
  cases c with
  | labelReplace dst replacement src regex => rfl
  | labelJoin dst separator srcs =>
    show (strings (stringValues srcs)).bind (fun srcs =>
      (relabelVector (Promql.labelJoin dst separator srcs) v).map Value.vector) = _
    rw [strings_stringValues, Option.bind_some]
    rfl

theorem callFunction_other (c : LabelCall) {x : Value ℚ} (hx : x.toVector = none) (t : Int) :
    callFunction c.func (.values x (stringValues c.strs)) t = none := by
  cases x with
  | vector v => cases hx
  | _ => cases c <;> rfl

end

/-! ## Chains of calls -/

theorem relabelVector_eq (f : Labels → Labels) (v : InstantVector ℚ) :
    relabelVector f v =
      if (v.map fun s => f s.metric).Nodup then
        some (v.map fun s => ⟨f s.metric, s.value⟩)
      else none := by
  rw [relabelVector, List.map_map]
  rfl

/-- Labels that are the same are changed to the same labels. -/
theorem relabelVector_bind (f g : Labels → Labels) (v : InstantVector ℚ) :
    (relabelVector f v).bind (relabelVector g) = relabelVector (fun l => g (f l)) v := by
  rw [relabelVector_eq f, relabelVector_eq fun l => g (f l)]
  by_cases hnodup : (v.map fun s => f s.metric).Nodup
  · rw [if_pos hnodup, Option.bind_some, relabelVector_eq, List.map_map, List.map_map]
    rfl
  · rw [if_neg hnodup, Option.bind_none, if_neg]
    intro hnodup'
    refine hnodup (List.Nodup.of_map g ?_)
    rw [List.map_map]
    exact hnodup'

theorem relabelVector_id {v : InstantVector ℚ} (h : (v.map VectorSample.metric).Nodup) :
    relabelVector (fun l => l) v = some v := by
  rw [relabelVector_of_nodup h]
  exact congrArg some (List.map_id v)

/-- The calls around an expression, the outermost first. -/
def callAll {D : Type} (calls : List LabelCall) (expr : Expr D) : Expr D :=
  calls.foldr call expr

section

variable [Libraries]

/-- What the calls do to the labels of a series. -/
def relabelLabels (calls : List LabelCall) (metric : Labels) : Labels := calls.foldr relabel metric

def relabelAll (calls : List LabelCall) (v : InstantVector ℚ) : Option (InstantVector ℚ) :=
  calls.foldr (fun c v => v.bind (relabelVector c.relabel)) (some v)

theorem relabelAll_eq (calls : List LabelCall) {v : InstantVector ℚ}
    (hv : (v.map VectorSample.metric).Nodup) :
    relabelAll calls v = relabelVector (relabelLabels calls) v := by
  induction calls with
  | nil => exact (relabelVector_id hv).symm
  | cons c calls ih =>
    rw [relabelAll, List.foldr_cons, ← relabelAll, ih, relabelVector_bind]
    rfl

/-! ## Evaluation -/

variable {D : Type} {expr : Expr D} {src : Source D ℚ} {t : Int}

theorem reparse_callAll (calls : List LabelCall) :
    (callAll calls expr).reparse = expr.reparse.map (callAll calls) := by
  induction calls with
  | nil =>
    rw [show callAll [] expr = expr from rfl]
    cases expr.reparse with
    | none => rfl
    | some expr => rfl
  | cons c calls ih =>
    rw [callAll, List.foldr_cons, ← callAll, call, Expr.reparse, Expr.reparse, ih,
      (literal_stringArgs _).reparse]
    cases expr.reparse with
    | none => rfl
    | some expr => rfl

theorem eval_call (c : LabelCall) :
    (eval src (c.call expr) t).bind Value.toVector =
      ((eval src expr t).bind Value.toVector).bind (relabelVector c.relabel) := by
  rw [call, eval, eval, (literal_stringArgs c.strs).eval]
  cases eval src expr t with
  | none => rfl
  | some x =>
    show (callFunction c.func (.values x (stringValues c.strs)) t).bind Value.toVector = _
    cases hx : x.toVector with
    | none => rw [c.callFunction_other hx, Option.bind_some, hx]; rfl
    | some v =>
      obtain rfl : x = .vector v := by cases x <;> simp_all [Value.toVector]
      rw [c.callFunction_vector, bind_toVector_map_vector]
      rfl

theorem eval_callAll (calls : List LabelCall) :
    (eval src (callAll calls expr) t).bind Value.toVector =
      ((eval src expr t).bind Value.toVector).bind (relabelAll calls) := by
  induction calls with
  | nil =>
    rw [show callAll [] expr = expr from rfl]
    cases (eval src expr t).bind Value.toVector with
    | none => rfl
    | some v => rfl
  | cons c calls ih =>
    rw [callAll, List.foldr_cons, ← callAll, eval_call, ih, Option.bind_assoc]
    rfl

end

end LabelCall

end Promql
end Proxeus
