import Proxeus.Promclient.LabelSpec
import Proxeus.Promclient.MetricRelabel

/-!
# Promclient.MetricRelabelSpec

A matcher that is rewritten through the rules decides about a series what the matcher decides about
the relabelled series. For one rule this holds exactly if the rule is `Reversible` for the matcher
(`rewriteMatcher_iff`); a list of rules is undone one rule at a time (`rewriteMatcherLoop_eq`).
-/

namespace Proxeus
namespace Promclient

open Promql

section

variable [Regexp] [Strings]

/-! ## One rule -/

/-- One rule of a client. -/
def relabelBy (cfg : MetricRelabelConfig) (l : Labels) : Labels :=
  match cfg.toRelabelConfig with
  | .ok relabelCfg => relabel relabelCfg l
  | .error _ => l

/-- What a rule makes of the value of a label. -/
theorem get_relabelBy (cfg : MetricRelabelConfig) (l : Labels) (name : String) :
    (relabelBy cfg l).get name =
      match cfg.action with
      | .replace => if name = cfg.targetLabel then l.get cfg.sourceLabel else l.get name
      | .labelDrop => if Regexp.matchString cfg.sourceLabel name then "" else l.get name
      | .lowercase =>
        if name = cfg.targetLabel then Strings.toLower (l.get cfg.sourceLabel) else l.get name
      | .uppercase =>
        if name = cfg.targetLabel then Strings.toUpper (l.get cfg.sourceLabel) else l.get name
      | _ => l.get name := by
  cases ha : cfg.action with
  | replace =>
    simp only [relabelBy, MetricRelabelConfig.toRelabelConfig, ha, relabel, allRegex,
      Regexp.expand_all, Labels.get_set]
  | labelDrop =>
    simp only [relabelBy, MetricRelabelConfig.toRelabelConfig, ha, relabel, Labels.get_restrict]
    cases Regexp.matchString cfg.sourceLabel name with
    | false => rfl
    | true => rfl
  | lowercase =>
    simp only [relabelBy, MetricRelabelConfig.toRelabelConfig, ha, relabel, Labels.get_set]
  | uppercase =>
    simp only [relabelBy, MetricRelabelConfig.toRelabelConfig, ha, relabel, Labels.get_set]
  | _ => simp only [relabelBy, MetricRelabelConfig.toRelabelConfig, ha]

/-- The matchers that a dropped label does not refuse. -/
def expectsEmpty (m : Matcher) : Prop :=
  (m.type = .matchEqual ∧ m.value = "") ∨ (m.type = .matchNotRegexp ∧ m.value = ".+")

instance (m : Matcher) : Decidable (expectsEmpty m) :=
  inferInstanceAs (Decidable (_ ∨ _))

/-- The rule can be undone for the matcher. Dropping a label leaves a matcher that does not take the
empty string nothing to match, and is not to be noticed by others; a change of case is seen by the
expression that ignores it just as it is by the matcher. -/
def Reversible (cfg : MetricRelabelConfig) (m : Matcher) : Prop :=
  match cfg.action with
  | .labelDrop =>
    if Regexp.matchString cfg.sourceLabel m.name then
      if m.name = cfg.sourceLabel then m.accepts "" = false
      else ∀ value, m.accepts value = m.accepts ""
    else m.name = cfg.sourceLabel → expectsEmpty m ∨ ∀ value, m.accepts value = false
  | .lowercase =>
    m.name = cfg.targetLabel → ∀ value,
      (caseInsensitive m cfg.sourceLabel).accepts value = m.accepts (Strings.toLower value)
  | .uppercase =>
    m.name = cfg.targetLabel → ∀ value,
      (caseInsensitive m cfg.sourceLabel).accepts value = m.accepts (Strings.toUpper value)
  | _ => True

/-- The matcher decides about the series what `m` decides about the one that `f` makes of it; without
a matcher, `m` takes no series. -/
def Undoes (f : Labels → Labels) (m : Matcher) : Option Matcher → Prop
  | some m' => ∀ l, m'.accepts (l.get m'.name) = m.accepts ((f l).get m.name)
  | none => ∀ l, m.accepts ((f l).get m.name) = false

omit [Regexp] [Strings] in
/-- All values of a label occur. -/
theorem forall_get (name : String) (p : String → Prop) :
    (∀ l : Labels, p (l.get name)) ↔ ∀ value, p value := by
  refine ⟨fun h value => ?_, fun h l => h _⟩
  have hset := h (Labels.empty.set name value)
  rwa [Labels.get_set, if_pos rfl] at hset

omit [Strings] in
theorem accepts_of_expectsEmpty {m : Matcher} (h : expectsEmpty m) (value : String) :
    m.accepts value = decide (value = "") := by
  rcases h with ⟨htype, hvalue⟩ | ⟨htype, hvalue⟩
  · simp [Matcher.accepts, htype, hvalue]
  · simp [Matcher.accepts, htype, hvalue, Regexp.matchString_any]

theorem undoes_labelDrop {cfg : MetricRelabelConfig} (ha : cfg.action = .labelDrop) (m : Matcher) :
    Undoes (relabelBy cfg) m (rewriteMatcher cfg m) ↔ Reversible cfg m := by
  have hget : ∀ l, (relabelBy cfg l).get m.name =
      if Regexp.matchString cfg.sourceLabel m.name then "" else l.get m.name := by
    intro l
    rw [get_relabelBy, ha]
  have hrewrite : rewriteMatcher cfg m =
      if m.name = cfg.sourceLabel then if expectsEmpty m then some m else none else some m := by
    simp only [rewriteMatcher, ha]
    by_cases hempty : m.type = .matchEqual ∧ m.value = ""
    · simp [expectsEmpty, hempty]
    · by_cases hnone : m.type = .matchNotRegexp ∧ m.value = ".+"
      · simp [expectsEmpty, hnone]
      · simp [expectsEmpty, hempty, hnone]
  simp only [hrewrite, Reversible, ha]
  by_cases hname : m.name = cfg.sourceLabel
  · rw [if_pos hname]
    by_cases hdrop : Regexp.matchString cfg.sourceLabel m.name = true
    · rw [if_pos hdrop, if_pos hname]
      by_cases hempty : expectsEmpty m
      · rw [if_pos hempty, accepts_of_expectsEmpty hempty]
        refine iff_of_false (fun h => ?_) (by simp)
        have hset := h (Labels.empty.set m.name "x")
        rw [hget, if_pos hdrop, Labels.get_set, if_pos rfl, accepts_of_expectsEmpty hempty,
          accepts_of_expectsEmpty hempty] at hset
        revert hset
        decide
      · rw [if_neg hempty]
        simp only [Undoes, hget, if_pos hdrop]
        exact ⟨fun h => h Labels.empty, fun h _ => h⟩
    · rw [if_neg hdrop]
      by_cases hempty : expectsEmpty m
      · rw [if_pos hempty]
        simp only [Undoes, hget, if_neg hdrop, implies_true, hempty, true_or]
      · rw [if_neg hempty]
        simp only [Undoes, hget, if_neg hdrop, forall_prop_of_true hname, hempty, false_or]
        exact forall_get m.name fun value => m.accepts value = false
  · rw [if_neg hname]
    by_cases hdrop : Regexp.matchString cfg.sourceLabel m.name = true
    · rw [if_pos hdrop, if_neg hname]
      simp only [Undoes, hget, if_pos hdrop]
      exact forall_get m.name fun value => m.accepts value = m.accepts ""
    · rw [if_neg hdrop]
      simp only [Undoes, hget, if_neg hdrop, implies_true, hname, false_implies]

/-- A rule that changes the case by `fold`. -/
theorem undoes_fold {cfg : MetricRelabelConfig} (fold : String → String) (m : Matcher)
    (hget : ∀ l, (relabelBy cfg l).get m.name =
      if m.name = cfg.targetLabel then fold (l.get cfg.sourceLabel) else l.get m.name) :
    Undoes (relabelBy cfg) m
        (if m.name = cfg.targetLabel then some (caseInsensitive m cfg.sourceLabel) else some m) ↔
      (m.name = cfg.targetLabel → ∀ value,
        (caseInsensitive m cfg.sourceLabel).accepts value = m.accepts (fold value)) := by
  by_cases hname : m.name = cfg.targetLabel
  · rw [if_pos hname, forall_prop_of_true hname]
    simp only [Undoes, hget, if_pos hname]
    exact forall_get cfg.sourceLabel fun value =>
      (caseInsensitive m cfg.sourceLabel).accepts value = m.accepts (fold value)
  · rw [if_neg hname]
    exact iff_of_true (fun l => by rw [hget, if_neg hname]) fun h => absurd h hname

/-- Rewriting a matcher for a rule undoes the rule, exactly if it can be undone for the matcher. -/
theorem undoes_rewriteMatcher (cfg : MetricRelabelConfig) (m : Matcher) :
    Undoes (relabelBy cfg) m (rewriteMatcher cfg m) ↔ Reversible cfg m := by
  cases ha : cfg.action with
  | replace =>
    simp only [rewriteMatcher, Reversible, ha, iff_true]
    by_cases hname : m.name = cfg.targetLabel
    · rw [if_pos hname]
      intro l
      simp only [get_relabelBy, ha, if_pos hname]
      rfl
    · rw [if_neg hname]
      intro l
      simp only [get_relabelBy, ha, if_neg hname]
  | labelDrop => exact undoes_labelDrop ha m
  | lowercase =>
    have hfold := undoes_fold Strings.toLower m fun l => by rw [get_relabelBy, ha]
    simpa only [rewriteMatcher, Reversible, ha] using hfold
  | uppercase =>
    have hfold := undoes_fold Strings.toUpper m fun l => by rw [get_relabelBy, ha]
    simpa only [rewriteMatcher, Reversible, ha] using hfold
  | _ =>
    simp only [rewriteMatcher, Reversible, ha, iff_true]
    intro l
    simp only [get_relabelBy, ha]

/-! ## All rules -/

/-- Every rule that the matcher is rewritten for can be undone for what the matcher has become. The
last rule comes first. -/
def ReversibleAll : List MetricRelabelConfig → Matcher → Prop
  | [], _ => True
  | cfg :: cfgs, m =>
    Reversible cfg m ∧ ∀ m', rewriteMatcher cfg m = some m' → ReversibleAll cfgs m'

theorem undoes_rewriteMatcherLoop {cfgs : List MetricRelabelConfig} {m : Matcher}
    (h : ReversibleAll cfgs m) :
    Undoes (fun l => cfgs.foldr relabelBy l) m (rewriteMatcherLoop cfgs m) := by
  induction cfgs generalizing m with
  | nil => exact fun l => rfl
  | cons cfg cfgs ih =>
    have hstep := (undoes_rewriteMatcher cfg m).mpr h.1
    rw [rewriteMatcherLoop]
    cases hm : rewriteMatcher cfg m with
    | none =>
      rw [hm] at hstep
      exact fun l => hstep (cfgs.foldr relabelBy l)
    | some m' =>
      rw [hm] at hstep
      have hrest := ih (h.2 m' hm)
      rw [Option.bind_some]
      cases hloop : rewriteMatcherLoop cfgs m' with
      | none =>
        rw [hloop] at hrest
        exact fun l => (hstep (cfgs.foldr relabelBy l)).symm.trans (hrest l)
      | some m'' =>
        rw [hloop] at hrest
        exact fun l => (hrest l).trans (hstep (cfgs.foldr relabelBy l))

omit [Regexp] [Strings] in
/-- Rules that do for each config what the config of the library does, in turn. -/
theorem foldl_relabelConfigs {step : RelabelConfig → Labels → Labels}
    {stepBy : MetricRelabelConfig → Labels → Labels}
    (hstep : ∀ cfg relabelCfg, cfg.toRelabelConfig = .ok relabelCfg → stepBy cfg = step relabelCfg)
    {cfgs : List MetricRelabelConfig} {relabelCfgs : List RelabelConfig}
    (h : relabelConfigs cfgs = .ok relabelCfgs) (l : Labels) :
    relabelCfgs.foldl (fun l cfg => step cfg l) l = cfgs.foldl (fun l cfg => stepBy cfg l) l := by
  induction cfgs generalizing relabelCfgs l with
  | nil =>
    cases h
    rfl
  | cons cfg cfgs ih =>
    rw [relabelConfigs] at h
    split at h
    · cases h
    · rename_i relabelCfg hcfg
      split at h
      · cases h
      · rename_i relabelCfgs' hcfgs
        cases h
        rw [List.foldl_cons, List.foldl_cons, ih hcfgs, hstep cfg relabelCfg hcfg]

theorem relabelProcess_eq {cfgs : List MetricRelabelConfig} {relabelCfgs : List RelabelConfig}
    (h : newMetricsRelabelClient cfgs = .ok relabelCfgs) (l : Labels) :
    relabelProcess l relabelCfgs = cfgs.reverse.foldr relabelBy l := by
  rw [newMetricsRelabelClient] at h
  split at h
  · cases h
  · have hstep : ∀ cfg relabelCfg, cfg.toRelabelConfig = .ok relabelCfg →
        relabelBy cfg = relabel relabelCfg := by
      intro cfg relabelCfg hcfg
      funext l
      rw [relabelBy, hcfg]
    rw [relabelProcess, foldl_relabelConfigs hstep h, List.foldr_reverse]

/-! ## Lists of matchers -/

/-- The matchers select the series that `matchers` select when `f` has relabelled them; without
matchers, `matchers` select no series. -/
def UndoesAll (f : Labels → Labels) (matchers : List Matcher) : Option (List Matcher) → Prop
  | some matchers' => ∀ l, selects matchers' l = selects matchers (f l)
  | none => ∀ l, selects matchers (f l) = false

omit [Strings] in
theorem undoesAll_of_undoes {f : Labels → Labels} {rewrite : Matcher → Option Matcher}
    {matchers : List Matcher} (h : ∀ m ∈ matchers, Undoes f m (rewrite m)) :
    UndoesAll f matchers (allAnswers (matchers.map rewrite)) := by
  induction matchers with
  | nil => exact fun l => rfl
  | cons m matchers ih =>
    have hm := h m List.mem_cons_self
    have hrest := ih fun m' hm' => h m' (List.mem_cons_of_mem m hm')
    have hselects : ∀ l, selects (m :: matchers) (f l) =
        (m.accepts ((f l).get m.name) && selects matchers (f l)) := fun l => List.all_cons
    rw [List.map_cons, allAnswers]
    cases hr : rewrite m with
    | none =>
      rw [hr] at hm
      exact fun l => by rw [hselects, hm, Bool.false_and]
    | some m' =>
      rw [hr] at hm
      rw [Option.bind_some]
      cases hall : allAnswers (matchers.map rewrite) with
      | none =>
        rw [hall] at hrest
        exact fun l => by rw [hselects, hrest, Bool.and_false]
      | some matchers' =>
        rw [hall] at hrest
        exact fun l => by rw [hselects, ← hm, ← hrest]; rfl

omit [Strings] in
theorem undoesAll_singleton {f : Labels → Labels} {m : Matcher} {r : Option Matcher} :
    UndoesAll f [m] (allAnswers [r]) ↔ Undoes f m r := by
  cases r with
  | none => simp [allAnswers, UndoesAll, Undoes, selects]
  | some m' => simp [allAnswers, UndoesAll, Undoes, selects]

/-- The rewritten matchers select what the matchers select of the relabelled series, if every rule can
be undone for every matcher; with one rule and one matcher, only then. -/
theorem rewriteMatchers_relabel {cfgs : List MetricRelabelConfig}
    {relabelCfgs : List RelabelConfig} (hclient : newMetricsRelabelClient cfgs = .ok relabelCfgs) :
    (∀ matchers, (∀ m ∈ matchers, ReversibleAll cfgs.reverse m) →
      UndoesAll (fun l => relabelProcess l relabelCfgs) matchers (rewriteMatchers cfgs matchers)) ∧
    ∀ cfg m, cfgs = [cfg] →
      (UndoesAll (fun l => relabelProcess l relabelCfgs) [m] (rewriteMatchers cfgs [m]) ↔
        Reversible cfg m) := by
  have hprocess : (fun l => relabelProcess l relabelCfgs) = fun l => cfgs.reverse.foldr relabelBy l :=
    funext (relabelProcess_eq hclient)
  rw [hprocess]
  constructor
  · intro matchers h
    exact undoesAll_of_undoes fun m hm => undoes_rewriteMatcherLoop (h m hm)
  · rintro cfg m rfl
    rw [← undoes_rewriteMatcher]
    refine undoesAll_singleton.trans ?_
    rw [List.reverse_singleton, rewriteMatcherLoop]
    cases rewriteMatcher cfg m with
    | none => exact Iff.rfl
    | some m' => exact Iff.rfl

end

section

attribute [local instance] literalRegexp

/-- Lower case of ASCII letters; every name is valid. -/
abbrev asciiStrings : Strings where
  toLower := String.toLower
  toUpper := String.toUpper
  isValidMetricName _ := true
  toLower_empty := by decide +kernel
  toUpper_empty := by decide +kernel

attribute [local instance] asciiStrings

/-- `service="api"`, where `service` is a copy of `job`. -/
theorem rewriteMatchers_relabel_service :
    selects [⟨.matchEqual, "job", "api", false⟩] (Labels.empty.set "job" "api") =
      selects [newMatcher .matchEqual "service" "api"]
        (relabelProcess (Labels.empty.set "job" "api")
          [⟨.replace, allRegex, "job", "service", "$1"⟩]) := by
  have hclient : newMetricsRelabelClient [⟨"job", "service", .replace⟩] =
      .ok [⟨.replace, allRegex, "job", "service", "$1"⟩] := by decide +kernel
  have h := (rewriteMatchers_relabel hclient).1 [newMatcher .matchEqual "service" "api"]
    fun m _ => ⟨trivial, fun _ _ => trivial⟩
  exact h (Labels.empty.set "job" "api")

/-- `replica!="a"` on series without a label `replica`, which is dropped. -/
theorem rewriteMatchers_dropped :
    newMetricsRelabelClient [⟨"replica", "", .labelDrop⟩] =
      .ok [⟨.labelDrop, "replica", "", "", ""⟩] ∧
    rewriteMatchers [⟨"replica", "", .labelDrop⟩] [newMatcher .matchNotEqual "replica" "a"] = none ∧
    selects [newMatcher .matchNotEqual "replica" "a"]
      (relabelProcess (Labels.empty.set metricNameLabel "up")
        [⟨.labelDrop, "replica", "", "", ""⟩]) = true := by
  decide +kernel

end

end Promclient
end Proxeus
