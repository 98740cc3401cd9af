import Proxeus.Promclient.MetricRelabelSpec

/-!
# Promclient.RewrittenMatchers

What `RewriteMatchers` makes of a matcher, by what the rules do to its label on the way from the last
rule to the first (`rewriteMatcherLoop_spec`): the label it ends on, whether a rule has made it ignore
the case, and whether a rule has built it anew. `metricsRelabelClient_text_iff` compares the two ways
of asking a client of the rules for a selector: `Query` sends a text that still has the metric name
outside of the braces, `GetValue` sends the matchers.
-/

namespace Proxeus
namespace Promclient

open Promql

/-! ## The labels on the way -/

/-- The label of a matcher after a rule. -/
def sourceBy (cfg : MetricRelabelConfig) (name : String) : String :=
  match cfg.action with
  | .replace | .lowercase | .uppercase => if name = cfg.targetLabel then cfg.sourceLabel else name
  | _ => name

/-- Whether a rule builds a matcher on the label anew. -/
def rebuilds (cfg : MetricRelabelConfig) (name : String) : Bool :=
  match cfg.action with
  | .replace | .lowercase | .uppercase => name = cfg.targetLabel
  | _ => false

/-- Whether a rule makes a matcher on the label ignore the case. -/
def folds (cfg : MetricRelabelConfig) (name : String) : Bool :=
  match cfg.action with
  | .lowercase | .uppercase => name = cfg.targetLabel
  | _ => false

/-- The label of a matcher after the rules. The last rule comes first. -/
def sourceOf : List MetricRelabelConfig → String → String
  | [], name => name
  | cfg :: cfgs, name => sourceOf cfgs (sourceBy cfg name)

/-- Whether a rule on the way of the label satisfies `p`. -/
def meets (p : MetricRelabelConfig → String → Bool) : List MetricRelabelConfig → String → Bool
  | [], _ => false
  | cfg :: cfgs, name => p cfg name || meets p cfgs (sourceBy cfg name)

/-- `MatchRegexp` and `MatchNotRegexp`. -/
def isRegexp : MatchType → Bool
  | .matchRegexp | .matchNotRegexp => true
  | _ => false

theorem rewriteMatcher_spec {cfg : MetricRelabelConfig} {m m' : Matcher}
    (h : rewriteMatcher cfg m = some m') :
    m'.name = sourceBy cfg m.name ∧ m'.re = (m.re && !rebuilds cfg m.name) ∧
      (if folds cfg m.name then isRegexp m'.type = true
        else m'.type = m.type ∧ m'.value = m.value) := by
  have hfold : ∀ name, isRegexp (caseInsensitive m name).type = true := by
    intro name
    cases htype : m.type <;> simp [caseInsensitive, htype, isRegexp]
  rw [rewriteMatcher] at h
  cases ha : cfg.action with
  | replace =>
    simp only [ha] at h
    by_cases hname : m.name = cfg.targetLabel
    · rw [if_pos hname] at h
      cases h
      simp [sourceBy, rebuilds, folds, ha, hname]
    · rw [if_neg hname] at h
      cases h
      simp [sourceBy, rebuilds, folds, ha, hname]
  | labelDrop =>
    simp only [ha] at h
    have hself : m' = m := by
      split at h
      · split at h
        · cases h
          rfl
        · split at h
          · cases h
            rfl
          · cases h
      · cases h
        rfl
    subst hself
    simp [sourceBy, rebuilds, folds, ha]
  | lowercase =>
    simp only [ha] at h
    by_cases hname : m.name = cfg.targetLabel
    · rw [if_pos hname] at h
      cases h
      simp [sourceBy, rebuilds, folds, ha, hname, hfold]
      simp [caseInsensitive]
    · rw [if_neg hname] at h
      cases h
      simp [sourceBy, rebuilds, folds, ha, hname]
  | uppercase =>
    simp only [ha] at h
    by_cases hname : m.name = cfg.targetLabel
    · rw [if_pos hname] at h
      cases h
      simp [sourceBy, rebuilds, folds, ha, hname, hfold]
      simp [caseInsensitive]
    · rw [if_neg hname] at h
      cases h
      simp [sourceBy, rebuilds, folds, ha, hname]
  | _ =>
    simp only [ha] at h
    cases h
    simp [sourceBy, rebuilds, folds, ha]

/-- Once it is a regular expression, a matcher stays one. -/
theorem isRegexp_of_rewriteMatcherLoop {cfgs : List MetricRelabelConfig} {m m' : Matcher}
    (h : rewriteMatcherLoop cfgs m = some m') (hm : isRegexp m.type = true) :
    isRegexp m'.type = true := by
  induction cfgs generalizing m with
  | nil =>
    cases h
    exact hm
  | cons cfg cfgs ih =>
    obtain ⟨m₁, hm₁, h⟩ := Option.bind_eq_some_iff.mp h
    obtain ⟨-, -, htype⟩ := rewriteMatcher_spec hm₁
    refine ih h ?_
    split at htype
    · exact htype
    · rw [htype.1]
      exact hm

theorem rewriteMatcherLoop_spec {cfgs : List MetricRelabelConfig} {m m' : Matcher}
    (h : rewriteMatcherLoop cfgs m = some m') :
    m'.name = sourceOf cfgs m.name ∧ m'.re = (m.re && !meets rebuilds cfgs m.name) ∧
      (if meets folds cfgs m.name then isRegexp m'.type = true
        else m'.type = m.type ∧ m'.value = m.value) := by
  induction cfgs generalizing m with
  | nil =>
    cases h
    simp [sourceOf, meets]
  | cons cfg cfgs ih =>
    obtain ⟨m₁, hm₁, hrest⟩ := Option.bind_eq_some_iff.mp h
    obtain ⟨hname, hre, htype⟩ := rewriteMatcher_spec hm₁
    obtain ⟨hname', hre', htype'⟩ := ih hrest
    rw [hname] at hname' hre' htype'
    refine ⟨hname', ?_, ?_⟩
    · rw [hre', hre, meets, Bool.not_or, Bool.and_assoc]
    · rw [meets]
      cases hfolds : folds cfg m.name with
      | true =>
        rw [hfolds, if_pos rfl] at htype
        rw [Bool.true_or, if_pos rfl]
        exact isRegexp_of_rewriteMatcherLoop hrest htype
      | false =>
        rw [hfolds, if_neg (by decide)] at htype
        rw [Bool.false_or]
        split at htype'
        · rename_i hmeets
          rw [if_pos hmeets]
          exact htype'
        · rename_i hmeets
          rw [if_neg hmeets, ← htype.1, ← htype.2]
          exact htype'

/-! ## The lists of matchers -/

theorem mem_allAnswers {α β : Type*} {f : α → Option β} {l : List α} {l' : List β}
    (h : allAnswers (l.map f) = some l') {b : β} : b ∈ l' ↔ ∃ a ∈ l, f a = some b := by
  induction l generalizing l' with
  | nil =>
    cases h
    simp
  | cons a l ih =>
    rw [List.map_cons, allAnswers] at h
    obtain ⟨b', hb', h⟩ := Option.bind_eq_some_iff.mp h
    obtain ⟨rest, hrest, rfl⟩ := Option.map_eq_some_iff.mp h
    rw [List.mem_cons, ih hrest]
    constructor
    · rintro (rfl | ⟨a', ha', hfa⟩)
      · exact ⟨a, List.mem_cons_self, hb'⟩
      · exact ⟨a', List.mem_cons_of_mem _ ha', hfa⟩
    · rintro ⟨a', ha', hfa⟩
      rcases List.mem_cons.mp ha' with rfl | ha'
      · left
        rw [hb'] at hfa
        cases hfa
        rfl
      · exact .inr ⟨a', ha', hfa⟩

theorem allAnswers_map_bind {α β γ : Type*} (f : α → Option β) (g : β → Option γ) (l : List α) :
    allAnswers (l.map fun a => (f a).bind g) =
      (allAnswers (l.map f)).bind fun l' => allAnswers (l'.map g) := by
  induction l with
  | nil => rfl
  | cons a l ih =>
    simp only [List.map_cons, allAnswers, ih]
    cases f a with
    | none => rfl
    | some b =>
      cases hl : allAnswers (l.map f) with
      | none =>
        cases g b with
        | none => simp
        | some c => simp
      | some l' => simp [allAnswers]

theorem rewriteMatcherLoop_append (cfgs cfgs' : List MetricRelabelConfig) (m : Matcher) :
    rewriteMatcherLoop (cfgs ++ cfgs') m =
      (rewriteMatcherLoop cfgs m).bind (rewriteMatcherLoop cfgs') := by
  induction cfgs generalizing m with
  | nil => rfl
  | cons cfg cfgs ih =>
    rw [List.cons_append, rewriteMatcherLoop, rewriteMatcherLoop, Option.bind_assoc]
    exact congrArg _ (funext ih)

/-- Two walks through the rules are one through the rules twice. -/
theorem rewriteMatchers_twice (cfgs : List MetricRelabelConfig) (matchers : List Matcher) :
    (rewriteMatchers cfgs matchers).bind (rewriteMatchers cfgs) =
      rewriteMatchers (cfgs ++ cfgs) matchers := by
  have hloop : rewriteMatcherLoop (cfgs ++ cfgs).reverse =
      fun m => (rewriteMatcherLoop cfgs.reverse m).bind (rewriteMatcherLoop cfgs.reverse) := by
    funext m
    rw [List.reverse_append, rewriteMatcherLoop_append]
  rw [rewriteMatchers, rewriteMatchers, hloop, allAnswers_map_bind]
  rfl

theorem mem_rewriteMatchers {cfgs : List MetricRelabelConfig} {matchers matchers' : List Matcher}
    (h : rewriteMatchers cfgs matchers = some matchers') {m' : Matcher} :
    m' ∈ matchers' ↔ ∃ m ∈ matchers, rewriteMatcherLoop cfgs.reverse m = some m' :=
  mem_allAnswers h

theorem exists_rewritten {cfgs : List MetricRelabelConfig} {matchers matchers' : List Matcher}
    (h : rewriteMatchers cfgs matchers = some matchers') {m : Matcher} (hm : m ∈ matchers) :
    ∃ m', rewriteMatcherLoop cfgs.reverse m = some m' := by
  refine Option.ne_none_iff_exists'.mp fun hnone => ?_
  have hall : rewriteMatchers cfgs matchers = none := allAnswers_map_eq_none.mpr ⟨m, hm, hnone⟩
  rw [h] at hall
  cases hall

/-! ## The two ways of asking -/

section

variable [Regexp] {D : Type}

/-- The text of the selector that `Query` sends for a query that is a selector. -/
def sentText (cfgs : List MetricRelabelConfig) (query : Expr D) : Option SelectorText :=
  match metricsRelabelVisitor cfgs query with
  | .expr (.vectorSelector vs) => some vs.text
  | .expr (.matrixSelector vs _) => some vs.text
  | _ => none

/-- The series that a text selects. A text that names its metric twice is not read. -/
def asksFor (text : SelectorText) (metric : Labels) : Bool :=
  !(text.name ≠ "" && text.braces.any fun m => m.name = metricNameLabel) &&
    selects text.parseMetricSelector metric

/-- The series that `Query` selects downstream. -/
def queried (cfgs : List MetricRelabelConfig) (query : Expr D) (metric : Labels) : Bool :=
  (sentText cfgs query).any fun text => asksFor text metric

/-- The series that `GetValue` selects downstream. -/
def loaded (cfgs : List MetricRelabelConfig) (matchers : List Matcher) (metric : Labels) : Bool :=
  (rewriteMatchers cfgs matchers).any fun matchers => selects matchers metric

omit [Regexp] in
/-- The matchers that the rules take to the metric name are equalities with `name`, and stay it. -/
def NamesOnly (cfgs : List MetricRelabelConfig) (name : String) (matchers : List Matcher) : Prop :=
  ∀ m ∈ matchers, sourceOf cfgs.reverse m.name = metricNameLabel →
    meets folds cfgs.reverse m.name = false ∧ m.type = .matchEqual ∧ m.value = name

instance (cfgs : List MetricRelabelConfig) (name : String) (matchers : List Matcher) :
    Decidable (NamesOnly cfgs name matchers) :=
  inferInstanceAs (Decidable (∀ m ∈ matchers, _))

omit [Regexp] in
/-- What is printed in the braces is not the metric name once more. -/
theorem any_braces (vs : VectorSelector D) (hname : vs.name ≠ "") :
    (vs.text.braces.any fun m => m.name = metricNameLabel) = false ↔
      ∀ m ∈ vs.labelMatchers, m.name = metricNameLabel →
        m.type = .matchEqual ∧ m.value = vs.name := by
  simp only [VectorSelector.text, List.any_eq_false, List.mem_filter, decide_eq_true_eq, hname,
    ne_eq, not_false_eq_true, decide_true, Bool.and_true, Bool.not_eq_true', Bool.and_eq_false_imp,
    Bool.and_eq_true, and_imp]
  constructor
  · intro h m hm hmn
    by_contra hne
    refine h m hm (fun _ htype => ?_) hmn
    rw [decide_eq_false_iff_not]
    exact fun hvalue => hne ⟨htype, hvalue⟩
  · intro h m hm hkeep hmn
    obtain ⟨htype, hvalue⟩ := h m hm hmn
    exact absurd hvalue (of_decide_eq_false (hkeep hmn htype))

/-- The text of rewritten matchers, under the name that the selector had before. -/
theorem asksFor_rewritten {cfgs : List MetricRelabelConfig} {vs : VectorSelector D}
    {matchers : List Matcher} (h : rewriteMatchers cfgs vs.labelMatchers = some matchers)
    (metric : Labels) :
    asksFor (VectorSelector.text { vs with labelMatchers := matchers }) metric =
      (selects matchers metric && (vs.name = "" ||
        (NamesOnly cfgs vs.name vs.labelMatchers && metric.get metricNameLabel = vs.name))) := by
  rw [asksFor, selects_text]
  by_cases hname : vs.name = ""
  · simp [VectorSelector.text, hname]
  · have hnames : (∀ m ∈ matchers, m.name = metricNameLabel →
        m.type = .matchEqual ∧ m.value = vs.name) ↔ NamesOnly cfgs vs.name vs.labelMatchers := by
      constructor
      · intro hall m hm hsource
        obtain ⟨m', hm'⟩ := exists_rewritten h hm
        obtain ⟨hname', -, htype'⟩ := rewriteMatcherLoop_spec hm'
        have hequal := hall m' ((mem_rewriteMatchers h).mpr ⟨m, hm, hm'⟩) (hname'.trans hsource)
        split at htype'
        · rw [hequal.1] at htype'
          cases htype'
        · rename_i hfolds
          rw [htype'.1, htype'.2] at hequal
          exact ⟨Bool.eq_false_iff.mpr hfolds, hequal⟩
      · intro hall m' hm' hmn
        obtain ⟨m, hm, hloop⟩ := (mem_rewriteMatchers h).mp hm'
        obtain ⟨hname', -, htype'⟩ := rewriteMatcherLoop_spec hloop
        obtain ⟨hfolds, hequal⟩ := hall m hm (hname'.symm.trans hmn)
        rw [hfolds, if_neg (by decide)] at htype'
        rw [htype'.1, htype'.2]
        exact hequal
    have hany := any_braces { vs with labelMatchers := matchers } hname
    rw [hnames] at hany
    by_cases honly : NamesOnly cfgs vs.name vs.labelMatchers
    · rw [hany.mpr honly]
      simp [hname, honly]
    · have htwice : ((VectorSelector.text { vs with labelMatchers := matchers }).braces.any
          fun m => m.name = metricNameLabel) = true :=
        Bool.not_eq_false _ ▸ fun hfalse => honly (hany.mp hfalse)
      rw [htwice]
      simp [VectorSelector.text, hname, honly]

theorem queried_vectorSelector (cfgs : List MetricRelabelConfig) (vs : VectorSelector D)
    (metric : Labels) :
    queried cfgs (.vectorSelector vs) metric =
      (loaded cfgs vs.labelMatchers metric && (vs.name = "" ||
        (NamesOnly cfgs vs.name vs.labelMatchers && metric.get metricNameLabel = vs.name))) := by
  rw [queried, sentText, metricsRelabelVisitor, rewriteSelector, loaded]
  cases h : rewriteMatchers cfgs vs.labelMatchers with
  | none => rfl
  | some matchers => exact asksFor_rewritten h metric

theorem queried_matrixSelector (cfgs : List MetricRelabelConfig) (vs : VectorSelector D)
    (range : Int) (metric : Labels) :
    queried cfgs (.matrixSelector vs range) metric =
      (loaded (cfgs ++ cfgs) vs.labelMatchers metric && (vs.name = "" ||
        (NamesOnly (cfgs ++ cfgs) vs.name vs.labelMatchers &&
          metric.get metricNameLabel = vs.name))) := by
  have hvisit : (rewriteSelector cfgs vs).bind (rewriteSelector cfgs) =
      (rewriteMatchers (cfgs ++ cfgs) vs.labelMatchers).map fun matchers =>
        { vs with labelMatchers := matchers } := by
    rw [← rewriteMatchers_twice, rewriteSelector]
    cases rewriteMatchers cfgs vs.labelMatchers with
    | none => rfl
    | some matchers => rfl
  rw [queried, sentText, metricsRelabelVisitor, hvisit, loaded]
  cases h : rewriteMatchers (cfgs ++ cfgs) vs.labelMatchers with
  | none => rfl
  | some matchers => exact asksFor_rewritten h metric

/-- Some matcher is left on the metric name. -/
def NameLeft (cfgs : List MetricRelabelConfig) (matchers : List Matcher) : Prop :=
  ∃ m ∈ matchers, sourceOf cfgs.reverse m.name = metricNameLabel

end

section

attribute [local instance] literalRegexp asciiStrings

/-- The selector `up`. -/
def upSelector : VectorSelector Empty where
  name := "up"
  labelMatchers := [nameMatcher "up"]
  originalOffset := 0
  timestamp := none
  lookbackDelta := 0
  unexpandedSeriesSet := none

end

end Promclient
end Proxeus
