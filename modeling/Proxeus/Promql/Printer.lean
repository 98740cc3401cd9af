import Proxeus.Promql.Ast

/-!
# Promql.Printer

A request carries an expression as text. The text of a selector is its metric name, if it has one
outside of its braces, and the matchers in the braces; what is not in the text, such as the data of a
selector, is gone when the text has been read again (`Expr.reparse`). The parser does not take a
selector that names its metric twice, nor one with nothing but matchers that take the empty string.
-/

namespace Proxeus
namespace Promql

structure SelectorText where
  name : String
  braces : List Matcher
deriving DecidableEq

/-- `labels.NewMatcher` -/
def newMatcher (type : MatchType) (name value : String) : Matcher :=
  ⟨type, name, value, type = .matchRegexp || type = .matchNotRegexp⟩

/-- The matcher that `assembleVectorSelector` adds for a name outside of the braces. -/
def nameMatcher (name : String) : Matcher := newMatcher .matchEqual metricNameLabel name

/-- The matcher read from the text of one. -/
def Matcher.reparse (m : Matcher) : Matcher := newMatcher m.type m.name m.value

/-- `ParseMetricSelector` -/
def SelectorText.parseMetricSelector (text : SelectorText) : List Matcher :=
  text.braces.map Matcher.reparse ++ if text.name = "" then [] else [nameMatcher text.name]

/-- Whether the selector takes series that have no labels at all. -/
def acceptsEmpty [Regexp] (matchers : List Matcher) : Bool := matchers.all fun m => m.accepts ""

/-- The checks of `checkAST` on a selector. -/
def SelectorText.check [Regexp] (text : SelectorText) : Bool :=
  !(text.name ≠ "" && text.braces.any fun m => m.name = metricNameLabel) &&
    !acceptsEmpty text.parseMetricSelector

/-- `ParseExpr` of the text of a selector. -/
def SelectorText.parseExpr [Regexp] {D : Type} (text : SelectorText) : Option (VectorSelector D) :=
  if text.check then
    some
      { name := text.name
        labelMatchers := text.parseMetricSelector
        originalOffset := 0
        timestamp := none
        lookbackDelta := 0
        unexpandedSeriesSet := none }
  else none

namespace VectorSelector

variable {D : Type}

/-- `VectorSelector.String`, without the offset and the timestamp. -/
def text (vs : VectorSelector D) : SelectorText where
  name := vs.name
  braces := vs.labelMatchers.filter fun m =>
    !(m.name = metricNameLabel && m.type = .matchEqual && m.value = vs.name && vs.name ≠ "")

/-- `ParseExpr` of the text of a selector with its offset and its timestamp. -/
def reparse [Regexp] (vs : VectorSelector D) : Option (VectorSelector D) :=
  vs.text.parseExpr.map fun parsed =>
    { parsed with originalOffset := vs.originalOffset, timestamp := vs.timestamp }

end VectorSelector

/-- `ParseExpr` of the text of an expression. -/
def Expr.reparse [Regexp] {D : Type} : Expr D → Option (Expr D)
  | .vectorSelector vs => vs.reparse.map .vectorSelector
  | .matrixSelector vs range => vs.reparse.map fun vs => .matrixSelector vs range
  | .subqueryExpr expr range originalOffset _ step timestamp =>
    (reparse expr).map fun expr => .subqueryExpr expr range originalOffset 0 step timestamp
  | .call func args => (reparse args).map (.call func)
  | .aggregateExpr op expr param grouping without =>
    (reparse expr).bind fun expr =>
      (reparse param).map fun param => .aggregateExpr op expr param grouping without
  | .binaryExpr op lhs rhs =>
    (reparse lhs).bind fun lhs => (reparse rhs).map fun rhs => .binaryExpr op lhs rhs
  | .unaryExpr op expr => (reparse expr).map (.unaryExpr op)
  | .numberLiteral val => some (.numberLiteral val)
  | .stringLiteral val => some (.stringLiteral val)
  | .parenExpr expr => (reparse expr).map .parenExpr
  | .stepInvariantExpr expr => reparse expr
  | .noExpr => some .noExpr
  | .argument head tail =>
    (reparse head).bind fun head => (reparse tail).map fun tail => .argument head tail

/-! ## Texts and matchers -/

section

variable [Regexp]

@[simp] theorem accepts_reparse (m : Matcher) (s : String) : m.reparse.accepts s = m.accepts s := rfl

omit [Regexp] in
@[simp] theorem reparse_reparse (m : Matcher) : m.reparse.reparse = m.reparse := rfl

@[simp] theorem accepts_nameMatcher (name s : String) :
    (nameMatcher name).accepts s = decide (s = name) := rfl

theorem selects_append (matchers matchers' : List Matcher) (metric : Labels) :
    selects (matchers ++ matchers') metric =
      (selects matchers metric && selects matchers' metric) := List.all_append

@[simp] theorem selects_map_reparse (matchers : List Matcher) (metric : Labels) :
    selects (matchers.map Matcher.reparse) metric = selects matchers metric := by
  rw [selects, List.all_map]
  rfl

theorem acceptsEmpty_map_reparse (matchers : List Matcher) :
    acceptsEmpty (matchers.map Matcher.reparse) = acceptsEmpty matchers := by
  rw [acceptsEmpty, List.all_map]
  rfl

end

end Promql
end Proxeus
