import Proxeus.Promclient.Label
import Proxeus.Promql.Selectors

/-!
# Promclient.Request

The calls of the methods of `promclient.API`, as data: what a client is asked and what it asks of the
API that it wraps. A `match[]` text is read as a selector, a query as an expression.
-/

namespace Proxeus
namespace Promclient

open Promql

/-! ## Requests -/

/-- The calls of the methods of `promclient.API`. -/
inductive Request (D : Type) where
  | labelNames (matchers : List SelectorText) (startTime endTime : Int)
  | labelValues (label : String) (matchers : List SelectorText) (startTime endTime : Int)
  | query (query : Expr D) (ts : Int)
  | queryRange (query : Expr D) (start stop step : Int)
  | series (matchTexts : List SelectorText) (startTime endTime : Int)
  | getValue (start stop : Int) (matchers : List Matcher)
  | metadata (metric limit : String)
  | queryExemplars (query : Expr D) (startTime endTime : Int)

/-! ## What a request asks for -/

namespace Request

variable [Regexp] {D : Type}

/-- The selectors of the texts, or one that selects everything. -/
def scopeOfTexts (texts : List SelectorText) : List (List Matcher) :=
  if texts = [] then [[]] else texts.map SelectorText.parseMetricSelector

def scopeOfQuery (query : Expr D) : List (List Matcher) :=
  match query.reparse with
  | some e => e.selectors.map VectorSelector.labelMatchers
  | none => []

/-- The selectors of a request, as they are read by the API that is sent it. -/
def scope : Request D → List (List Matcher)
  | labelNames matchers _ _ => scopeOfTexts matchers
  | labelValues _ matchers _ _ => scopeOfTexts matchers
  | query e _ => scopeOfQuery e
  | queryRange e _ _ _ => scopeOfQuery e
  | series matchTexts _ _ => scopeOfTexts matchTexts
  | getValue _ _ matchers => [matchers]
  | metadata _ _ => []
  | queryExemplars e _ _ => scopeOfQuery e

/-- A request as it is read: of the text of a query, its expression. -/
def read : Request D → Option (Request D)
  | query e ts => e.reparse.map (.query · ts)
  | queryRange e start stop step => e.reparse.map (.queryRange · start stop step)
  | queryExemplars e startTime endTime => e.reparse.map (.queryExemplars · startTime endTime)
  | request => some request

end Request

end Promclient
end Proxeus
