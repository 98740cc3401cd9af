import Proxeus.Promclient.LabelSpec

/-!
# Promclient.LabelNamesSpec

The label names and values that `AddLabelClient` answers with, next to those of the series that its
`Series` returns. The two are asked for with different selectors: `Series` sends the selectors that
the added labels do not refuse, a label request is given up at the first one that is refused, and
leaves out those that have no matcher left.
-/

namespace Proxeus
namespace Promclient

open Lib Promql

section

variable [Regexp] {S : Type}

/-- `AddLabelClient.Series`, where an empty list selects everything. -/
def seriesOrAll (store : List (Labels × S)) (ls : LabelSet) (texts : List SelectorText) :
    Option (List LabelSet) :=
  if texts = [] then some (store.map fun s => s.1.toLabelSet.merge ls)
  else AddLabelClient.series (prometheus store) ls texts

/-- The series that are looked at for their labels. -/
def asked (texts : List SelectorText) (metric : Labels) : Bool :=
  texts = [] || texts.any fun text => selects text.parseMetricSelector metric

/-- The series that are returned with the added labels. -/
def returned (ls : LabelSet) (selectors : List (VectorSelector Empty)) (metric : Labels) : Bool :=
  selectors = [] || selectors.any fun vs => selectsSent ls vs metric

/-! ## The server -/

theorem filter_asked (store : List (Labels × S)) (texts : List SelectorText) :
    matchingSeries store (texts.map SelectorText.parseMetricSelector) =
      store.filter fun s => asked texts s.1 := by
  refine List.filter_congr fun s _ => ?_
  rw [asked, List.any_map]
  congr 1
  simp

omit [Regexp] in
theorem mem_names_labels (l : Labels) (name : String) : name ∈ l.names ↔ l.get name ≠ "" := by
  rw [LabelSet.mem_names_iff, LabelSet.lookup_toLabelSet]
  split
  · rename_i h
    simp [h]
  · rename_i h
    simp [h]

theorem labelNames_prometheus (store : List (Labels × S)) (texts : List SelectorText) :
    (taken texts = false → (prometheus store).labelNames texts = none) ∧
      (taken texts → ∃ names, (prometheus store).labelNames texts = some names ∧
        ∀ name, name ∈ names ↔ ∃ s ∈ store, asked texts s.1 ∧ s.1.get name ≠ "") := by
  simp only [prometheus, parseMatchersParam_eq]
  constructor
  · intro h
    rw [h, if_neg Bool.false_ne_true]
    rfl
  · intro h
    rw [if_pos h]
    refine ⟨_, rfl, fun name => ?_⟩
    rw [mem_sortBy, List.mem_dedup, List.mem_flatMap, filter_asked]
    simp only [List.mem_filter, mem_names_labels, and_assoc]

theorem labelValues_prometheus (store : List (Labels × S)) (label : String)
    (texts : List SelectorText) :
    (taken texts = false → (prometheus store).labelValues label texts = none) ∧
      (taken texts → ∃ values, (prometheus store).labelValues label texts = some values ∧
        ∀ value, value ∈ values ↔
          ∃ s ∈ store, asked texts s.1 ∧ s.1.get label = value ∧ value ≠ "") := by
  simp only [prometheus, parseMatchersParam_eq]
  constructor
  · intro h
    rw [h, if_neg Bool.false_ne_true]
    rfl
  · intro h
    rw [if_pos h]
    refine ⟨_, rfl, fun value => ?_⟩
    rw [mem_sortBy, List.mem_dedup, List.mem_filterMap, filter_asked]
    simp only [List.mem_filter, LabelSet.lookup_eq_some, Labels.mem_pairs_iff, and_assoc]

omit [Regexp] in
theorem mem_mergeLabelValues {a b : List String} {item : String} :
    item ∈ mergeLabelValues a b ↔ item ∈ a ∨ item ∈ b := by
  induction b generalizing a with
  | nil => simp [mergeLabelValues]
  | cons x b ih =>
    rw [mergeLabelValues, ih, List.mem_cons]
    split
    · rename_i hx
      constructor
      · rintro (h | h)
        · exact Or.inl h
        · exact Or.inr (Or.inr h)
      · rintro (h | rfl | h)
        · exact Or.inl h
        · exact Or.inl hx
        · exact Or.inr h
    · rw [List.mem_append, List.mem_singleton, or_assoc]

theorem seriesOrAll_eq {store : List (Labels × S)} (hname : Named store) (ls : LabelSet)
    {texts : List SelectorText} {selectors : List (VectorSelector Empty)}
    (hparse : allAnswers (texts.map SelectorText.parseExpr) = some selectors) :
    seriesOrAll store ls texts =
      if taken (AddLabelClient.filteredMatches ls selectors) then
        some ((store.filter fun s => returned ls selectors s.1).map fun s =>
          s.1.toLabelSet.merge ls)
      else none := by
  rw [seriesOrAll]
  by_cases hnil : texts = []
  · subst hnil
    cases hparse
    simp [AddLabelClient.filteredMatches, taken, returned]
  · have hne : selectors ≠ [] := by
      rintro rfl
      cases texts with
      | nil => exact hnil rfl
      | cons text texts =>
        rw [List.map_cons, allAnswers] at hparse
        cases hp : text.parseExpr (D := Empty) with
        | none => simp [hp] at hparse
        | some vs => simp [hp] at hparse
    rw [if_neg hnil, series_eq hname ls hparse]
    simp only [returned, decide_eq_false hne, Bool.false_or]

/-! ## The label requests -/

/-- Every name and no other one. -/
def HasNames (lsets : Option (List LabelSet)) (names : Option (List String)) : Prop :=
  ∃ lsets' names', lsets = some lsets' ∧ names = some names' ∧
    ∀ name, name ∈ names' ↔ ∃ lset ∈ lsets', name ∈ lset.names

/-- Every value of the label and no other one. -/
def HasValues (label : String) (lsets : Option (List LabelSet)) (values : Option (List String)) :
    Prop :=
  ∃ lsets' values', lsets = some lsets' ∧ values = some values' ∧
    ∀ value, value ∈ values' ↔ ∃ lset ∈ lsets', lset.lookup label = some value

/-- What has to hold of the store for the label names to be right: `sent` is what is sent of the
selectors, if none of them is refused. -/
def NamesAgree (store : List (Labels × S)) (ls : LabelSet)
    (selectors : List (VectorSelector Empty)) : Option (List SelectorText) → Prop
  | none => ∀ s ∈ store, returned ls selectors s.1 = false
  | some sent =>
    taken sent ∧ (ls.names = [] ∨ ∃ s ∈ store, returned ls selectors s.1) ∧
      ∀ name ∉ ls.names, (∃ s ∈ store, asked sent s.1 ∧ s.1.get name ≠ "") ↔
        ∃ s ∈ store, returned ls selectors s.1 ∧ s.1.get name ≠ ""

def ValuesAgree (store : List (Labels × S)) (ls : LabelSet)
    (selectors : List (VectorSelector Empty)) (label : String) : Option (List SelectorText) → Prop
  | none => ∀ s ∈ store, returned ls selectors s.1 → label ∉ ls.names ∧ s.1.get label = ""
  | some sent =>
    taken sent ∧
      match ls.lookup label with
      | some value =>
        (∃ s ∈ store, returned ls selectors s.1) ∧
          ∀ s ∈ store, asked sent s.1 → s.1.get label = "" ∨ s.1.get label = value
      | none =>
        ∀ value, value ≠ "" → ((∃ s ∈ store, asked sent s.1 ∧ s.1.get label = value) ↔
          ∃ s ∈ store, returned ls selectors s.1 ∧ s.1.get label = value)

omit [Regexp] in
theorem mem_names_merge (l : Labels) (ls : LabelSet) (name : String) :
    name ∈ (l.toLabelSet.merge ls).names ↔ name ∈ ls.names ∨ l.get name ≠ "" := by
  rw [← mem_names_labels]
  simp only [LabelSet.mem_names_iff, LabelSet.lookup_merge]
  cases ls.lookup name with
  | none => simp
  | some value => simp

theorem hasNames_iff {store : List (Labels × S)} (hname : Named store) (ls : LabelSet)
    {texts : List SelectorText} {selectors : List (VectorSelector Empty)}
    (hparse : allAnswers (texts.map SelectorText.parseExpr) = some selectors) :
    HasNames (seriesOrAll store ls texts) (AddLabelClient.labelNames (prometheus store) ls texts) ↔
      taken (AddLabelClient.filteredMatches ls selectors) ∧
        NamesAgree store ls selectors (AddLabelClient.filterMatchers ls texts) := by
  have hoccurs : ∀ name, (∃ lset ∈ (store.filter fun s => returned ls selectors s.1).map fun s =>
      s.1.toLabelSet.merge ls, name ∈ lset.names) ↔
      ∃ s ∈ store, returned ls selectors s.1 ∧ (name ∈ ls.names ∨ s.1.get name ≠ "") := by
    intro name
    constructor
    · rintro ⟨lset, hmem, hin⟩
      obtain ⟨s, hs, rfl⟩ := List.mem_map.mp hmem
      obtain ⟨hs, hret⟩ := List.mem_filter.mp hs
      exact ⟨s, hs, hret, (mem_names_merge s.1 ls name).mp hin⟩
    · rintro ⟨s, hs, hret, hin⟩
      exact ⟨_, List.mem_map_of_mem (List.mem_filter.mpr ⟨hs, hret⟩),
        (mem_names_merge s.1 ls name).mpr hin⟩
  rw [seriesOrAll_eq hname ls hparse]
  by_cases htaken : taken (AddLabelClient.filteredMatches ls selectors) = true
  · rw [if_pos htaken, and_iff_right htaken, AddLabelClient.labelNames]
    cases AddLabelClient.filterMatchers ls texts with
    | none =>
      simp only [HasNames, Option.some.injEq, exists_and_left, exists_eq_left', hoccurs,
        List.not_mem_nil, false_iff, NamesAgree]
      constructor
      · intro h s hs
        by_contra hret
        rw [Bool.not_eq_false] at hret
        exact h metricNameLabel ⟨s, hs, hret, Or.inr (hname s hs)⟩
      · rintro h name ⟨s, hs, hret, -⟩
        rw [h s hs] at hret
        cases hret
    | some sent =>
      obtain ⟨hrefused, hasked⟩ := labelNames_prometheus store sent
      by_cases hsent : taken sent = true
      · obtain ⟨names, hnames, hmem⟩ := hasked hsent
        simp only [HasNames, hnames, Option.map_some, Option.some.injEq, exists_and_left,
          exists_eq_left', hoccurs, mem_mergeLabelValues, hmem, NamesAgree, hsent, true_and]
        constructor
        · intro h
          refine ⟨?_, fun name hnot => ?_⟩
          · cases hls : ls.names with
            | nil => exact Or.inl rfl
            | cons name names =>
              have hin : name ∈ ls.names := by rw [hls]; exact List.mem_cons_self
              obtain ⟨s, hs, hret, -⟩ := (h name).mp (Or.inr hin)
              exact Or.inr ⟨s, hs, hret⟩
          · have hiff := h name
            simpa only [hnot, or_false, false_or] using hiff
        · rintro ⟨hsome, hother⟩ name
          by_cases hin : name ∈ ls.names
          · simp only [hin, or_true, true_or, and_true, true_iff]
            rcases hsome with hnil | hsome
            · rw [hnil] at hin
              cases hin
            · exact hsome
          · simpa only [hin, or_false, false_or] using hother name hin
      · rw [Bool.not_eq_true] at hsent
        refine iff_of_false ?_ fun h => Bool.false_ne_true (hsent.symm.trans h.1)
        rintro ⟨_, _, -, hnot, -⟩
        simp [hrefused hsent] at hnot
  · rw [if_neg htaken]
    refine iff_of_false ?_ fun h => htaken h.1
    rintro ⟨_, _, hnot, -⟩
    cases hnot

theorem hasValues_iff {store : List (Labels × S)} (hname : Named store) (ls : LabelSet)
    {texts : List SelectorText} {selectors : List (VectorSelector Empty)}
    (hparse : allAnswers (texts.map SelectorText.parseExpr) = some selectors) (label : String) :
    HasValues label (seriesOrAll store ls texts)
        (AddLabelClient.labelValues (prometheus store) ls label texts) ↔
      taken (AddLabelClient.filteredMatches ls selectors) ∧
        ValuesAgree store ls selectors label (AddLabelClient.filterMatchers ls texts) := by
  have hoccurs : ∀ value, (∃ lset ∈ (store.filter fun s => returned ls selectors s.1).map fun s =>
      s.1.toLabelSet.merge ls, lset.lookup label = some value) ↔
      ∃ s ∈ store, returned ls selectors s.1 ∧
        (ls.lookup label).or (s.1.lookup label) = some value := by
    intro value
    constructor
    · rintro ⟨lset, hmem, hin⟩
      obtain ⟨s, hs, rfl⟩ := List.mem_map.mp hmem
      obtain ⟨hs, hret⟩ := List.mem_filter.mp hs
      exact ⟨s, hs, hret, (LabelSet.lookup_merge s.1.toLabelSet ls label).symm.trans hin⟩
    · rintro ⟨s, hs, hret, hin⟩
      exact ⟨_, List.mem_map_of_mem (List.mem_filter.mpr ⟨hs, hret⟩),
        (LabelSet.lookup_merge s.1.toLabelSet ls label).trans hin⟩
  have hnative : ∀ (l : Labels) value, l.lookup label = some value ↔
      l.get label = value ∧ value ≠ "" := by
    intro l value
    rw [LabelSet.lookup_eq_some, Labels.mem_pairs_iff]
  rw [seriesOrAll_eq hname ls hparse]
  by_cases htaken : taken (AddLabelClient.filteredMatches ls selectors) = true
  · rw [if_pos htaken, and_iff_right htaken, AddLabelClient.labelValues]
    cases AddLabelClient.filterMatchers ls texts with
    | none =>
      simp only [HasValues, Option.some.injEq, exists_and_left, exists_eq_left', hoccurs,
        List.not_mem_nil, false_iff, ValuesAgree]
      constructor
      · intro h s hs hret
        cases hls : ls.lookup label with
        | none =>
          refine ⟨LabelSet.lookup_eq_none.mp hls, ?_⟩
          by_contra hne
          exact h _ ⟨s, hs, hret, by rw [hls, Option.none_or, hnative]; exact ⟨rfl, hne⟩⟩
        | some value => exact absurd ⟨s, hs, hret, by rw [hls]; rfl⟩ (h value)
      · rintro h value ⟨s, hs, hret, hvalue⟩
        obtain ⟨hnot, hempty⟩ := h s hs hret
        rw [LabelSet.lookup_eq_none.mpr hnot, Option.none_or, hnative] at hvalue
        exact hvalue.2 (hvalue.1.symm.trans hempty)
    | some sent =>
      obtain ⟨hrefused, hasked⟩ := labelValues_prometheus store label sent
      by_cases hsent : taken sent = true
      · obtain ⟨values, hvalues, hmem⟩ := hasked hsent
        simp only [HasValues, hvalues, Option.map_some, Option.some.injEq, exists_and_left,
          exists_eq_left', hoccurs, ValuesAgree, hsent, true_and]
        cases hls : ls.lookup label with
        | none =>
          simp only [hmem, Option.none_or, hnative]
          refine forall_congr' fun value => ⟨fun h hne => ?_, fun h => ?_⟩
          · simpa only [hne, ne_eq, not_false_eq_true, and_true] using h
          · by_cases hne : value = ""
            · simp only [hne, ne_eq, not_true_eq_false, and_false, exists_false]
            · simpa only [hne, ne_eq, not_false_eq_true, and_true] using h hne
        | some value =>
          simp only [mem_mergeLabelValues, hmem, Option.some_or, List.mem_singleton,
            Option.some.injEq]
          constructor
          · intro h
            obtain ⟨s, hs, hret, -⟩ := (h value).mp (Or.inr rfl)
            refine ⟨⟨s, hs, hret⟩, fun s hs hask => ?_⟩
            by_cases hne : s.1.get label = ""
            · exact Or.inl hne
            · obtain ⟨_, -, -, heq⟩ := (h _).mp (Or.inl ⟨s, hs, hask, rfl, hne⟩)
              exact Or.inr heq.symm
          · rintro ⟨⟨s, hs, hret⟩, hnative⟩ v
            constructor
            · rintro (⟨s', hs', hask, rfl, hne⟩ | rfl)
              · exact ⟨s, hs, hret, ((hnative s' hs' hask).resolve_left hne).symm⟩
              · exact ⟨s, hs, hret, rfl⟩
            · rintro ⟨_, -, -, rfl⟩
              exact Or.inr rfl
      · rw [Bool.not_eq_true] at hsent
        refine iff_of_false ?_ fun h => Bool.false_ne_true (hsent.symm.trans h.1)
        rintro ⟨_, _, -, hnot, -⟩
        simp [hrefused hsent] at hnot
  · rw [if_neg htaken]
    refine iff_of_false ?_ fun h => htaken h.1
    rintro ⟨_, _, hnot, -⟩
    cases hnot

end

section

attribute [local instance] literalRegexp

end

end Promclient
end Proxeus
