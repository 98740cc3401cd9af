import Proxeus.Promql.Printer

/-!
# Promclient.Util

`util.go`: the visitors that look something up in a tree, and the functions on expressions. A visitor
is shown the nodes of the tree, a node before its children.
-/

namespace Proxeus
namespace Promclient

open Promql

variable {D : Type}

/-! ## Visitors -/

/-- `OffsetFinder` -/
structure OffsetFinder where
  found : Bool
  offset : Int
  err : Bool
deriving DecidableEq, Repr

namespace OffsetFinder

/-- What the finder does with the offset of a node. -/
def note (o : OffsetFinder) (offset : Int) : OffsetFinder :=
  if !o.found then { o with offset, found := true }
  else if offset ≠ o.offset then { o with err := true }
  else o

/-- The visits, up to an error. -/
def visit (o : OffsetFinder) : List (Expr D) → OffsetFinder
  | [] => o
  | node :: nodes =>
    let o :=
      match node with
      | .subqueryExpr _ _ originalOffset _ _ _ => o.note originalOffset
      | .vectorSelector vs => o.note vs.originalOffset
      | _ => o
    if o.err then o else o.visit nodes

end OffsetFinder

/-- The walk of an `OffsetFinder`, which does not go on below a subquery at the top of the tree. -/
def offsetFinder : Expr D → OffsetFinder
  | .subqueryExpr _ _ originalOffset _ _ _ => ⟨true, originalOffset, false⟩
  | node => OffsetFinder.visit ⟨false, 0, false⟩ node.nodes

/-- The walk of a `BooleanFinder`, by its `Found`. -/
def booleanFinder (func : Expr D → Bool) (node : Expr D) : Nat := (node.nodes.filter func).length

/-- The `@` that a `TimestampFinder` sees at a node. -/
def timestampOf : Expr D → Option Int
  | .vectorSelector vs => vs.timestamp
  | .subqueryExpr _ _ _ _ _ timestamp => timestamp
  | _ => none

/-- The walk of a `TimestampFinder`, by what it found. -/
def timestampFinder (node : Expr D) : Option Int := (node.nodes.filterMap timestampOf).head?

/-! ## Expressions -/

/-- `CloneExpr`. The text of a tree that was parsed is parsed again. -/
def cloneExpr [Regexp] (expr : Expr D) : Expr D := expr.reparse.getD .noExpr

/-- `PreserveLabel` -/
def preserveLabel [Regexp] (expr : Expr D) (srcLabel dstLabel : String) : Expr D :=
  .call "label_replace" (.argument (cloneExpr expr) (.argument (.stringLiteral dstLabel)
    (.argument (.stringLiteral "$1") (.argument (.stringLiteral srcLabel)
      (.argument (.stringLiteral "(.*)") .noExpr)))))

def unwrapExpr : Expr D → Expr D
  | .stepInvariantExpr expr => expr
  | expr => expr

def exprIsLiteral : Expr D → Bool
  | .stringLiteral _ => true
  | .numberLiteral _ => true
  | _ => false

end Promclient
end Proxeus
