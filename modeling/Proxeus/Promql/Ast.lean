import Proxeus.Model.Labels

/-!
# Promql.Ast

The syntax trees of the Prometheus parser (`promql/parser`), and the walks over them. Times and
durations are in milliseconds. A tree that the engine is to evaluate may have data in its
selectors (`UnexpandedSeriesSet`), of any type `D`.
-/

namespace Proxeus
namespace Promql

/-! ## Matchers -/

/-- `labels.MatchType` -/
inductive MatchType where
  | matchEqual
  | matchNotEqual
  | matchRegexp
  | matchNotRegexp
deriving DecidableEq, Repr

/-- `labels.Matcher`; `re` is whether its regular expression is compiled. -/
structure Matcher where
  type : MatchType
  name : String
  value : String
  re : Bool
deriving DecidableEq, Repr

/-- The regular expressions of the Prometheus libraries, which are anchored at both ends. -/
class Regexp where
  matchString : String → String → Bool
  /-- `Regexp.Expand` of a template with a match of the whole string, if it matches -/
  expand : String → String → String → Option String
  matchString_any : ∀ s, matchString ".+" s = decide (s ≠ "")
  expand_all : ∀ s, expand "(.*)" "$1" s = some s

/-- `labels.Matcher.Matches` -/
def Matcher.accepts [Regexp] (m : Matcher) (s : String) : Bool :=
  match m.type with
  | .matchEqual => s = m.value
  | .matchNotEqual => s ≠ m.value
  | .matchRegexp => Regexp.matchString m.value s
  | .matchNotRegexp => !Regexp.matchString m.value s

/-- Whether a series with these labels is selected. -/
def selects [Regexp] (labelMatchers : List Matcher) (metric : Labels) : Bool :=
  labelMatchers.all fun m => m.accepts (metric.get m.name)

/-! ## Trees -/

/-- `parser.VectorSelector` -/
structure VectorSelector (D : Type) where
  name : String
  labelMatchers : List Matcher
  originalOffset : Int
  timestamp : Option Int
  lookbackDelta : Int
  unexpandedSeriesSet : Option D

/-- The aggregation operators of `parser.ItemType`. -/
inductive ItemType where
  | sum
  | avg
  | count
  | min
  | max
  | group
  | stddev
  | stdvar
  | topk
  | bottomk
  | countValues
  | quantile
  | limitk
  | limitRatio
deriving DecidableEq, Repr

/-- `parser.Expr`. The arguments of a call are a chain of `argument` that ends in `noExpr`, which
also stands for a parameter that an aggregation does not have. The `offset` of a subquery is the
offset that preparing a statement computes from `originalOffset`. -/
inductive Expr (D : Type) where
  | vectorSelector (vs : VectorSelector D)
  | matrixSelector (vs : VectorSelector D) (range : Int)
  | subqueryExpr (expr : Expr D) (range originalOffset offset step : Int) (timestamp : Option Int)
  | call (func : String) (args : Expr D)
  | aggregateExpr (op : ItemType) (expr param : Expr D) (grouping : List String) (without : Bool)
  /-- an operator between two operands, matched one to one -/
  | binaryExpr (op : String) (lhs rhs : Expr D)
  | unaryExpr (op : String) (expr : Expr D)
  | numberLiteral (val : ℚ)
  | stringLiteral (val : String)
  | parenExpr (expr : Expr D)
  | stepInvariantExpr (expr : Expr D)
  | noExpr
  | argument (head tail : Expr D)

namespace Expr

variable {D : Type}

/-- The nodes that `parser.Walk` visits, a node before its children. -/
def nodes : Expr D → List (Expr D)
  | vectorSelector vs => [vectorSelector vs]
  | matrixSelector vs range => [matrixSelector vs range, vectorSelector vs]
  | subqueryExpr expr range originalOffset offset step timestamp =>
    subqueryExpr expr range originalOffset offset step timestamp :: nodes expr
  | call func args => call func args :: nodes args
  | aggregateExpr op expr param grouping without =>
    aggregateExpr op expr param grouping without :: (nodes expr ++ nodes param)
  | binaryExpr op lhs rhs => binaryExpr op lhs rhs :: (nodes lhs ++ nodes rhs)
  | unaryExpr op expr => unaryExpr op expr :: nodes expr
  | numberLiteral val => [numberLiteral val]
  | stringLiteral val => [stringLiteral val]
  | parenExpr expr => parenExpr expr :: nodes expr
  | stepInvariantExpr expr => stepInvariantExpr expr :: nodes expr
  | noExpr => []
  | argument head tail => nodes head ++ nodes tail

/-- `unwrapParens` -/
def unwrapParens : Expr D → Expr D
  | parenExpr expr => unwrapParens expr
  | expr => expr

end Expr

end Promql
end Proxeus
