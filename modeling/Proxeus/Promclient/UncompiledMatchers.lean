import Proxeus.Promclient.Label
import Proxeus.Promclient.RewrittenMatchers

/-!
# Promclient.UncompiledMatchers

`RewriteMatchers` builds matchers without `labels.NewMatcher`, so a regular expression of theirs is
not compiled. That is harmless as long as the matcher is only printed; `FilterMatchers` of the
`AddLabelClient` below evaluates those on added labels. `getValue_compiled_iff` says for which rules,
labels and matchers none of them is evaluated.
-/

namespace Proxeus
namespace Promclient

open Promql

section

variable [Regexp]

/-! ## FilterMatchers with its panics -/

/-- `labels.Matcher.Matches`. An expression that is not compiled is a nil dereference. -/
def callMatches (m : Matcher) (s : String) : Option Bool :=
  if isRegexp m.type && !m.re then none else some (m.accepts s)

/-- The loop of `FilterMatchers`, `none` being a panic. -/
def filterMatchersRun (ls : LabelSet) : List Matcher → Option (Option (List Matcher))
  | [] => some (some [])
  | matcher :: matchers =>
    match ls.lookup matcher.name with
    | some localValue =>
      match callMatches matcher localValue with
      | none => none
      | some true => filterMatchersRun ls matchers
      | some false => some none
    | none => (filterMatchersRun ls matchers).map (Option.map (matcher :: ·))

/-- The matchers that the loop evaluates. -/
def evaluated (ls : LabelSet) : List Matcher → List Matcher
  | [] => []
  | matcher :: matchers =>
    match ls.lookup matcher.name with
    | some localValue =>
      matcher :: if callMatches matcher localValue = some true then evaluated ls matchers else []
    | none => evaluated ls matchers

omit [Regexp] in
/-- An equality, or constructed with its expression compiled. -/
def Compiled (m : Matcher) : Prop := isRegexp m.type = true → m.re = true

omit [Regexp] in
instance (m : Matcher) : Decidable (Compiled m) := inferInstanceAs (Decidable (_ → _))

theorem callMatches_of_compiled {m : Matcher} (h : Compiled m) (s : String) :
    callMatches m s = some (m.accepts s) := by
  rw [callMatches, if_neg]
  intro hpanic
  simp only [Bool.and_eq_true, Bool.not_eq_true'] at hpanic
  rw [h hpanic.1] at hpanic
  cases hpanic.2

theorem callMatches_of_not_compiled {m : Matcher} (h : ¬ Compiled m) (s : String) :
    callMatches m s = none := by
  simp only [Compiled, Classical.not_imp, Bool.not_eq_true] at h
  simp [callMatches, h.1, h.2]

/-- The loop panics at a matcher that is not compiled, and is the loop of `FilterMatchers` without
one. -/
theorem filterMatchersRun_spec (ls : LabelSet) (matchers : List Matcher) :
    ((∀ m ∈ evaluated ls matchers, Compiled m) →
        filterMatchersRun ls matchers = some (filterMatchersLoop ls matchers)) ∧
      (¬ (∀ m ∈ evaluated ls matchers, Compiled m) → filterMatchersRun ls matchers = none) := by
  induction matchers with
  | nil => exact ⟨fun _ => rfl, fun h => absurd (fun m hm => by cases hm) h⟩
  | cons matcher matchers ih =>
    rw [evaluated, filterMatchersRun, filterMatchersLoop]
    cases hlookup : ls.lookup matcher.name with
    | none =>
      simp only
      constructor
      · intro h
        rw [ih.1 h, Option.map_some]
      · intro h
        rw [ih.2 h, Option.map_none]
    | some localValue =>
      simp only [List.forall_mem_cons]
      by_cases hcompiled : Compiled matcher
      · rw [callMatches_of_compiled hcompiled]
        cases haccepts : matcher.accepts localValue with
        | true =>
          simp only [hcompiled, true_and, if_true]
          exact ih
        | false => simp [hcompiled]
      · rw [callMatches_of_not_compiled hcompiled]
        simp [hcompiled]

/-! ## The matchers of one list -/

/-- The matcher is on an added label, whose value it does not take. -/
def Refuses (ls : LabelSet) (m : Matcher) : Prop :=
  ∃ localValue, ls.lookup m.name = some localValue ∧ m.accepts localValue = false

theorem compiled_evaluated_iff (ls : LabelSet) (matchers : List Matcher) :
    (∀ m ∈ evaluated ls matchers, Compiled m) ↔
      ∀ pre m post, matchers = pre ++ m :: post → (ls.lookup m.name).isSome → ¬ Compiled m →
        ∃ p ∈ pre, Refuses ls p := by
  induction matchers with
  | nil =>
    refine ⟨fun _ pre m post h => ?_, fun _ m hm => by cases hm⟩
    simp at h
  | cons matcher matchers ih =>
    -- the first matcher, and the splits behind it
    have hsplit : (∀ pre m post, matcher :: matchers = pre ++ m :: post →
          (ls.lookup m.name).isSome → ¬ Compiled m → ∃ p ∈ pre, Refuses ls p) ↔
        ((ls.lookup matcher.name).isSome → Compiled matcher) ∧
          (Refuses ls matcher ∨ ∀ pre m post, matchers = pre ++ m :: post →
            (ls.lookup m.name).isSome → ¬ Compiled m → ∃ p ∈ pre, Refuses ls p) := by
      constructor
      · intro h
        constructor
        · intro hsome
          by_contra hnot
          obtain ⟨p, hp, -⟩ := h [] matcher matchers rfl hsome hnot
          cases hp
        · by_cases hrefuses : Refuses ls matcher
          · exact .inl hrefuses
          · right
            intro pre m post heq hsome hnot
            obtain ⟨p, hp, href⟩ := h (matcher :: pre) m post (by rw [heq, List.cons_append])
              hsome hnot
            rcases List.mem_cons.mp hp with rfl | hp
            · exact absurd href hrefuses
            · exact ⟨p, hp, href⟩
      · intro h pre m post heq hsome hnot
        cases pre with
        | nil =>
          rw [List.nil_append, List.cons.injEq] at heq
          obtain ⟨rfl, -⟩ := heq
          exact absurd (h.1 hsome) hnot
        | cons p pre =>
          rw [List.cons_append, List.cons.injEq] at heq
          obtain ⟨rfl, heq⟩ := heq
          rcases h.2 with hrefuses | hrest
          · exact ⟨matcher, List.mem_cons_self, hrefuses⟩
          · obtain ⟨p, hp, href⟩ := hrest pre m post heq hsome hnot
            exact ⟨p, List.mem_cons_of_mem _ hp, href⟩
    rw [hsplit, evaluated, ← ih]
    cases hlookup : ls.lookup matcher.name with
    | none => simp [Refuses, hlookup]
    | some localValue =>
      simp only [List.forall_mem_cons, Refuses, hlookup, Option.isSome_some, true_imp_iff,
        Option.some.injEq, exists_eq_left']
      refine and_congr_right fun hcompiled => ?_
      rw [callMatches_of_compiled hcompiled]
      cases haccepts : matcher.accepts localValue with
      | true => simp
      | false => simp

/-! ## The two clients -/

/-- The matchers that `FilterMatchers` evaluates for a `GetValue` that passes the rules. -/
def evaluatedByGetValue (cfgs : List MetricRelabelConfig) (ls : LabelSet)
    (matchers : List Matcher) : List Matcher :=
  match rewriteMatchers cfgs matchers with
  | none => []
  | some matchers => evaluated ls matchers

/-- `GetValue` of a `MetricsRelabelClient` over an `AddLabelClient`, `none` being a panic. -/
def relabelAddGetValue [Strings] {S : Type} (api : API S) (cfgs : List MetricRelabelConfig)
    (relabelCfgs : List RelabelConfig) (ls : LabelSet) (matchers : List Matcher) :
    Option (Option (List (Labels × S))) :=
  match rewriteMatchers cfgs matchers with
  | none => some (some [])
  | some matchers =>
    match filterMatchersRun ls matchers with
    | none => none
    | some _ =>
      some ((AddLabelClient.getValue api ls matchers).map
        (List.map fun s => (relabelProcess s.1 relabelCfgs, s.2)))

omit [Regexp] in
/-- The rules leave a regular expression that is not compiled. -/
def Uncompiled (cfgs : List MetricRelabelConfig) (m : Matcher) : Prop :=
  (isRegexp m.type = true ∨ meets folds cfgs.reverse m.name = true) ∧
    (m.re = false ∨ meets rebuilds cfgs.reverse m.name = true)

/-- The rules take the matcher to an added label, whose value it does not take then. -/
def RefusesRewritten (cfgs : List MetricRelabelConfig) (ls : LabelSet) (m : Matcher) : Prop :=
  ∃ m', rewriteMatcherLoop cfgs.reverse m = some m' ∧ Refuses ls m'

/-- Some matcher is refused by the rules; or in front of every matcher that the rules take to an added
label with an expression that is not compiled, the value of an added label is refused. -/
def Evaluable (cfgs : List MetricRelabelConfig) (ls : LabelSet) (matchers : List Matcher) : Prop :=
  (∃ m ∈ matchers, rewriteMatcherLoop cfgs.reverse m = none) ∨
    ∀ pre m post, matchers = pre ++ m :: post →
      (ls.lookup (sourceOf cfgs.reverse m.name)).isSome → Uncompiled cfgs m →
        ∃ p ∈ pre, RefusesRewritten cfgs ls p

omit [Regexp] in
theorem not_compiled_iff {cfgs : List MetricRelabelConfig} {m m' : Matcher}
    (h : rewriteMatcherLoop cfgs.reverse m = some m') : ¬ Compiled m' ↔ Uncompiled cfgs m := by
  obtain ⟨-, hre, htype⟩ := rewriteMatcherLoop_spec h
  have hregexp : isRegexp m'.type = true ↔
      isRegexp m.type = true ∨ meets folds cfgs.reverse m.name = true := by
    split at htype
    · rename_i hfolds
      simp [htype, hfolds]
    · rename_i hfolds
      rw [htype.1]
      simp [hfolds]
  rw [Compiled, Classical.not_imp, hregexp, hre, Uncompiled, Bool.not_eq_true,
    Bool.and_eq_false_iff, Bool.not_eq_false']

omit [Regexp] in
theorem rewriteMatchers_eq {cfgs : List MetricRelabelConfig} {matchers matchers' : List Matcher}
    (h : rewriteMatchers cfgs matchers = some matchers') :
    matchers' = matchers.map fun m => (rewriteMatcherLoop cfgs.reverse m).getD m := by
  rw [rewriteMatchers] at h
  induction matchers generalizing matchers' with
  | nil =>
    cases h
    rfl
  | cons m matchers ih =>
    rw [List.map_cons, allAnswers] at h
    obtain ⟨m', hm', h⟩ := Option.bind_eq_some_iff.mp h
    obtain ⟨rest, hrest, rfl⟩ := Option.map_eq_some_iff.mp h
    rw [List.map_cons, ← ih hrest, hm', Option.getD_some]

/-- **Compiled expressions.** Every matcher that `FilterMatchers` evaluates for a `GetValue` that has
passed the rules is an equality or has its expression compiled, so that the call does not panic,
exactly if the rules, the added labels and the matchers are `Evaluable`. -/
theorem getValue_compiled_iff [Strings] {S : Type} (api : API S) (cfgs : List MetricRelabelConfig)
    (relabelCfgs : List RelabelConfig) (ls : LabelSet) (matchers : List Matcher) :
    ((∀ m ∈ evaluatedByGetValue cfgs ls matchers, Compiled m) ↔ Evaluable cfgs ls matchers) ∧
      (relabelAddGetValue api cfgs relabelCfgs ls matchers = none ↔
        ¬ Evaluable cfgs ls matchers) := by
  have hevaluable : (∀ m ∈ evaluatedByGetValue cfgs ls matchers, Compiled m) ↔
      Evaluable cfgs ls matchers := by
    rw [evaluatedByGetValue, Evaluable]
    cases h : rewriteMatchers cfgs matchers with
    | none =>
      have hrefused := allAnswers_map_eq_none.mp h
      simp only [hrefused, true_or, iff_true]
      intro m hm
      cases hm
    | some matchers' =>
      have hkept : ¬ ∃ m ∈ matchers, rewriteMatcherLoop cfgs.reverse m = none := by
        rintro ⟨m, hm, hnone⟩
        obtain ⟨m', hm'⟩ := exists_rewritten h hm
        rw [hnone] at hm'
        cases hm'
      rw [compiled_evaluated_iff]
      simp only [hkept, false_or]
      have hmap := rewriteMatchers_eq h
      constructor
      · intro hall pre m post heq hsome hnot
        have hm : m ∈ matchers := by
          rw [heq]
          simp
        obtain ⟨m', hm'⟩ := exists_rewritten h hm
        rw [heq, List.map_append, List.map_cons, hm', Option.getD_some] at hmap
        rw [← (rewriteMatcherLoop_spec hm').1] at hsome
        obtain ⟨p', hp', href⟩ := hall _ m' _ hmap hsome ((not_compiled_iff hm').mpr hnot)
        obtain ⟨p, hp, rfl⟩ := List.mem_map.mp hp'
        obtain ⟨p', hloop⟩ := exists_rewritten h (m := p) (by
          rw [heq]
          exact List.mem_append_left _ hp)
        rw [hloop, Option.getD_some] at href
        exact ⟨p, hp, p', hloop, href⟩
      · intro hall pre' m' post' heq hsome hnot
        rw [heq] at hmap
        obtain ⟨pre, rest, hsplit, hpre, hrest⟩ := List.map_eq_append_iff.mp hmap.symm
        obtain ⟨m, post, hcons, hm, -⟩ := List.map_eq_cons_iff.mp hrest
        subst hcons
        have hmem : m ∈ matchers := by
          rw [hsplit]
          simp
        obtain ⟨m₁, hm₁⟩ := exists_rewritten h hmem
        rw [hm₁, Option.getD_some] at hm
        subst hm
        rw [(rewriteMatcherLoop_spec hm₁).1] at hsome
        obtain ⟨p, hp, p', hloop, href⟩ :=
          hall pre m post hsplit hsome ((not_compiled_iff hm₁).mp hnot)
        refine ⟨p', ?_, href⟩
        rw [← hpre]
        exact List.mem_map.mpr ⟨p, hp, by rw [hloop, Option.getD_some]⟩
  refine ⟨hevaluable, ?_⟩
  rw [← hevaluable, evaluatedByGetValue, relabelAddGetValue]
  cases rewriteMatchers cfgs matchers with
  | none => simp
  | some matchers' =>
    obtain ⟨hrun, hpanic⟩ := filterMatchersRun_spec ls matchers'
    simp only
    by_cases hall : ∀ m ∈ evaluated ls matchers', Compiled m
    · rw [hrun hall]
      exact iff_of_false (Option.some_ne_none _) (not_not_intro hall)
    · rw [hpanic hall]
      exact iff_of_true rfl hall

end

section

attribute [local instance] literalRegexp asciiStrings

/-- A client that has added `dc="eu"`, below a rule that copies `dc` to `datacenter`: a regular
expression on `datacenter` panics. -/
theorem getValue_compiled_datacenter :
    MetricRelabelConfig.validate ⟨"dc", "datacenter", .replace⟩ = .ok () ∧
      evaluatedByGetValue [⟨"dc", "datacenter", .replace⟩] ⟨[⟨"dc", "eu"⟩], by decide⟩
          [nameMatcher "up", newMatcher .matchRegexp "datacenter" "eu.*"] =
        [⟨.matchRegexp, "dc", "eu.*", false⟩] ∧
      ¬ Compiled ⟨.matchRegexp, "dc", "eu.*", false⟩ := by
  decide +kernel

end

end Promclient
end Proxeus
