import Proxeus.Promclient.InstantQuery

/-!
# Promclient.Label

`AddLabelClient` of `label.go`, by the requests for series and for their labels, over a Prometheus
server. A server takes a selector only if the parser does, and one of several `match[]` selectors is
enough to select a series.
-/

namespace Proxeus

open Lib

namespace LabelSet

/-- `model.LabelSet.Merge`: the values of `other` win. -/
def merge (lset other : LabelSet) : LabelSet where
  pairs := sortBy Label.name (other.pairs ++ lset.pairs.filter fun p => p.name ∉ other.names)
  ascending := by
    rw [ascending_sortBy_iff, List.map_append, List.nodup_append]
    refine ⟨other.ascending.nodup_keys, (lset.ascending.filter _).nodup_keys, ?_⟩
    intro name hname name' hname'
    obtain ⟨p, hp, rfl⟩ := List.mem_map.mp hname'
    have hnot : p.name ∉ other.names := of_decide_eq_true (List.mem_filter.mp hp).2
    rintro rfl
    exact hnot hname

/-- The label set as Prometheus reads it. -/
def toLabels (lset : LabelSet) : Labels :=
  ⟨⟨lset.pairs.filter fun p => p.value ≠ "", lset.ascending.filter _⟩, fun p hp => by
    simpa using (List.mem_filter.mp hp).2⟩

end LabelSet

namespace Promclient

open Promql

/-- `promclient.API`, by the methods that ask for series and for their labels. A `match[]` string is
the text of a selector; `S` is what a series has besides its labels. -/
structure API (S : Type) where
  getValue : List Matcher → Option (List (Labels × S))
  series : List SelectorText → Option (List LabelSet)
  labelNames : List SelectorText → Option (List String)
  labelValues : String → List SelectorText → Option (List String)

/-! ## The server -/

section

variable [Regexp] {S : Type}

/-- The series of the store that some selector selects, or all without a selector. -/
def matchingSeries (store : List (Labels × S)) (selectors : List (List Matcher)) :
    List (Labels × S) :=
  store.filter fun s => selectors = [] || selectors.any fun matchers => selects matchers s.1

/-- `parseMatchersParam` -/
def parseMatchersParam (texts : List SelectorText) : Option (List (List Matcher)) :=
  allAnswers (texts.map fun text =>
    if acceptsEmpty text.parseMetricSelector then none else some text.parseMetricSelector)

/-- A Prometheus server that holds the series `store` in the time range of the requests. -/
def prometheus (store : List (Labels × S)) : API S where
  getValue matchers :=
    if SelectorText.check ⟨"", matchers⟩ then some (matchingSeries store [matchers]) else none
  series texts :=
    if texts = [] then none
    else (parseMatchersParam texts).map fun selectors =>
      (matchingSeries store selectors).map fun s => s.1.toLabelSet
  labelNames texts :=
    (parseMatchersParam texts).map fun selectors =>
      sortBy (fun name => name)
        ((matchingSeries store selectors).flatMap fun s => s.1.names).dedup
  labelValues label texts :=
    (parseMatchersParam texts).map fun selectors =>
      sortBy (fun value => value)
        ((matchingSeries store selectors).filterMap fun s => s.1.lookup label).dedup

end

/-! ## AddLabelClient -/

/-- The loop of `MergeLabelValues`, which is also the one over the labels in `LabelNames`. -/
def mergeLabelValues (a : List String) : List String → List String
  | [] => a
  | item :: b => mergeLabelValues (if item ∈ a then a else a ++ [item]) b

namespace AddLabelClient

variable [Regexp] {S : Type}

/-- `AddLabelClient.filterMatchers`, `none` being its `false`. Its inner loop is the one of
`FilterMatchers`. -/
def filterMatchers (ls : LabelSet) : List SelectorText → Option (List SelectorText)
  | [] => some []
  | matcher :: matchers =>
    match filterMatchersLoop ls matcher.parseMetricSelector with
    | none => none
    | some filteredSelectors =>
      if filteredSelectors.length = 0 then filterMatchers ls matchers
      else (filterMatchers ls matchers).map (⟨"", filteredSelectors⟩ :: ·)

def getValue (api : API S) (ls : LabelSet) (matchers : List Matcher) :
    Option (List (Labels × S)) :=
  match Promclient.filterMatchers ls matchers with
  | none => some []
  | some filteredMatchers =>
    (api.getValue filteredMatchers).map (List.map fun s => (s.1.setAll ls.pairs, s.2))

/-- What `Series` sends of its parsed selectors. -/
def filteredMatches (ls : LabelSet) (selectors : List (VectorSelector Empty)) : List SelectorText :=
  (selectors.filterMap (filterSelector ls)).map VectorSelector.text

def series (api : API S) (ls : LabelSet) (texts : List SelectorText) : Option (List LabelSet) :=
  (allAnswers (texts.map SelectorText.parseExpr)).bind fun selectors =>
    if (filteredMatches ls selectors).length = 0 then some []
    else (api.series (filteredMatches ls selectors)).map (List.map fun lset => lset.merge ls)

def labelNames (api : API S) (ls : LabelSet) (matchers : List SelectorText) :
    Option (List String) :=
  match filterMatchers ls matchers with
  | none => some []
  | some matchers => (api.labelNames matchers).map fun l => mergeLabelValues l ls.names

def labelValues (api : API S) (ls : LabelSet) (label : String) (matchers : List SelectorText) :
    Option (List String) :=
  match filterMatchers ls matchers with
  | none => some []
  | some matchers =>
    (api.labelValues label matchers).map fun val =>
      match ls.lookup label with
      | some value => mergeLabelValues val [value]
      | none => val

end AddLabelClient

end Promclient
end Proxeus
