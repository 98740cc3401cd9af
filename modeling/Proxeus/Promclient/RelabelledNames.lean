import Proxeus.Promclient.RelabelledValues

/-!
# Promclient.RelabelledNames

The label names of a `MetricsRelabelClient`: one series with all the names of the wrapped API is
relabelled in place of the series that have them. A rule that lets a label be there when one of certain
labels is there does to the one series what it does to the series together (`Additive.covers`). Every rule
is of that kind but a replacement whose target label, which is a template, is not the same for all values:
`labelNames_relabelled` has the condition.
-/

namespace Proxeus
namespace Promclient

open Lib Promql

/-! ## The client -/

/-- `model.LabelName.IsValid` with the UTF-8 scheme, which is the one in force. -/
def isValidLabelName (name : String) : Bool := name ≠ ""

section

variable [Regexp] [Strings] {S : Type}

/-- A rule of `relabel.Process`, where the target of a replacement may refer to the match. -/
def relabelTemplate (cfg : RelabelConfig) (l : Labels) : Labels :=
  let val := l.get cfg.sourceLabel
  match cfg.action with
  | .replace =>
    match Regexp.expand cfg.regex cfg.targetLabel val with
    | none => l
    | some target =>
      if !isValidLabelName target then l
      else
        match Regexp.expand cfg.regex cfg.replacement val with
        | none => l
        | some res => l.set target res
  | _ => relabel cfg l

def relabelTemplates (l : Labels) (cfgs : List RelabelConfig) : Labels :=
  cfgs.foldl (fun l cfg => relabelTemplate cfg l) l

/-- The series with a value for each of the names. -/
def placeholders (labelNames : List String) : Labels :=
  labelNames.foldl (fun lb lName => lb.set lName "placeholder") Labels.empty

namespace MetricsRelabelClient

def labelNames (api : API S) (cfgs : List MetricRelabelConfig) (relabelCfgs : List RelabelConfig)
    (matchers : List SelectorText) : Option (List String) :=
  match rewriteTexts cfgs matchers with
  | none => some []
  | some newMatchers =>
    (api.labelNames newMatchers).map fun labelNames =>
      (relabelTemplates (placeholders labelNames) relabelCfgs).names

end MetricsRelabelClient

open MetricsRelabelClient

/-- A target that is no template is written as it is. -/
theorem relabelTemplate_eq_relabel {cfg : RelabelConfig}
    (h : cfg.action = .replace → isValidLabelName cfg.targetLabel = true ∧
      ∀ value, Regexp.expand cfg.regex cfg.targetLabel value = some cfg.targetLabel) (l : Labels) :
    relabelTemplate cfg l = relabel cfg l := by
  unfold relabelTemplate
  cases ha : cfg.action with
  | replace =>
    obtain ⟨hvalid, hplain⟩ := h ha
    simp only [hplain, hvalid, Bool.not_true, Bool.false_eq_true, if_false, relabel, ha]
    cases Regexp.expand cfg.regex cfg.replacement (l.get cfg.sourceLabel) with
    | none => rfl
    | some res => rfl
  | _ => rfl

/-! ## Names that are there -/

/-- The labels after `f` are there when one of certain labels is there before. -/
def Additive (f : Labels → Labels) : Prop :=
  ∃ sources : String → String → Prop, ∀ l name,
    (f l).get name ≠ "" ↔ ∃ source, sources name source ∧ l.get source ≠ ""

/-- The labels of `u` are those of the series. -/
def Covers (u : Labels) (series : List Labels) : Prop :=
  ∀ name, u.get name ≠ "" ↔ ∃ l ∈ series, l.get name ≠ ""

omit [Regexp] [Strings] in
theorem additive_id : Additive fun l => l := ⟨fun name source => source = name, by simp⟩

omit [Regexp] [Strings] in
theorem Additive.comp {f g : Labels → Labels} (hg : Additive g) (hf : Additive f) :
    Additive fun l => g (f l) := by
  obtain ⟨sources, hsources⟩ := hf
  obtain ⟨sources', hsources'⟩ := hg
  refine ⟨fun name source => ∃ between, sources' name between ∧ sources between source, ?_⟩
  intro l name
  rw [hsources']
  constructor
  · rintro ⟨between, hbetween, hget⟩
    obtain ⟨source, hsource, hl⟩ := (hsources l between).mp hget
    exact ⟨source, ⟨between, hbetween, hsource⟩, hl⟩
  · rintro ⟨source, ⟨between, hbetween, hsource⟩, hl⟩
    exact ⟨between, hbetween, (hsources l between).mpr ⟨source, hsource, hl⟩⟩

omit [Regexp] [Strings] in
/-- What covers the series before covers them after. -/
theorem Additive.covers {f : Labels → Labels} (hf : Additive f) {u : Labels} {series : List Labels}
    (h : Covers u series) : Covers (f u) (series.map f) := by
  obtain ⟨sources, hsources⟩ := hf
  intro name
  rw [hsources]
  constructor
  · rintro ⟨source, hsource, hu⟩
    obtain ⟨l, hl, hget⟩ := (h source).mp hu
    exact ⟨f l, List.mem_map_of_mem hl, (hsources l name).mpr ⟨source, hsource, hget⟩⟩
  · rintro ⟨_, hmem, hget⟩
    obtain ⟨l, hl, rfl⟩ := List.mem_map.mp hmem
    obtain ⟨source, hsource, hsome⟩ := (hsources l name).mp hget
    exact ⟨source, hsource, (h source).mpr ⟨l, hl, hsome⟩⟩

omit [Regexp] [Strings] in
theorem additive_foldl {ρ : Type} {step : Labels → ρ → Labels} {rules : List ρ}
    (h : ∀ rule ∈ rules, Additive fun l => step l rule) : Additive fun l => rules.foldl step l := by
  induction rules with
  | nil => exact additive_id
  | cons rule rules ih =>
    rw [List.forall_mem_cons] at h
    exact (ih h.2).comp h.1

omit [Regexp] [Strings] in
theorem get_placeholders (names : List String) (name : String) :
    (placeholders names).get name = if name ∈ names then "placeholder" else "" := by
  have hloop : ∀ lb : Labels, (names.foldl (fun lb lName => lb.set lName "placeholder") lb).get name =
      if name ∈ names then "placeholder" else lb.get name := by
    induction names with
    | nil =>
      intro lb
      rfl
    | cons lName names ih =>
      intro lb
      rw [List.foldl_cons, ih, Labels.get_set]
      by_cases hmem : name ∈ names
      · simp [hmem]
      · simp [hmem]
  exact hloop Labels.empty

/-! ## The rules -/

/-- One rule of a client. -/
def relabelTemplateBy (cfg : MetricRelabelConfig) (l : Labels) : Labels :=
  match cfg.toRelabelConfig with
  | .ok relabelCfg => relabelTemplate relabelCfg l
  | .error _ => l

/-- The label that a replacement writes for a value, if it changes one. -/
def written (cfg : MetricRelabelConfig) (value : String) : Option String :=
  (Regexp.expand allRegex cfg.targetLabel value).filter fun target =>
    isValidLabelName target && target ≠ cfg.sourceLabel

/-- A replacement writes the same label for all values, and touches no other one without a value. -/
def Steady (cfg : MetricRelabelConfig) : Prop :=
  cfg.action = .replace → ∃ target, (∀ value, value ≠ "" → written cfg value = target) ∧
    (written cfg "" = none ∨ written cfg "" = target)

theorem get_relabelTemplateBy_replace {cfg : MetricRelabelConfig} (ha : cfg.action = .replace)
    (l : Labels) (name : String) :
    (relabelTemplateBy cfg l).get name =
      if written cfg (l.get cfg.sourceLabel) = some name then l.get cfg.sourceLabel
      else l.get name := by
  have hrule : relabelTemplateBy cfg l =
      match Regexp.expand allRegex cfg.targetLabel (l.get cfg.sourceLabel) with
      | none => l
      | some target =>
        if !isValidLabelName target then l else l.set target (l.get cfg.sourceLabel) := by
    simp only [relabelTemplateBy, MetricRelabelConfig.toRelabelConfig, ha, relabelTemplate,
      allRegex, Regexp.expand_all]
  rw [hrule]
  cases htarget : Regexp.expand allRegex cfg.targetLabel (l.get cfg.sourceLabel) with
  | none =>
    have hwritten : written cfg (l.get cfg.sourceLabel) = none := by rw [written, htarget]; rfl
    rw [hwritten]
    rfl
  | some target =>
    by_cases hkept : (isValidLabelName target && decide (target ≠ cfg.sourceLabel)) = true
    · have hwritten : written cfg (l.get cfg.sourceLabel) = some target := by
        rw [written, htarget, Option.filter_some, if_pos hkept]
      rw [Bool.and_eq_true] at hkept
      rw [hwritten]
      simp only [hkept.1, Bool.not_true, Bool.false_eq_true, if_false, Labels.get_set,
        Option.some.injEq, eq_comm]
    · have hwritten : written cfg (l.get cfg.sourceLabel) = none := by
        rw [written, htarget, Option.filter_some, if_neg hkept]
      rw [hwritten, if_neg (by simp)]
      simp only
      split
      · rfl
      · rename_i hvalid
        -- the source is set to what it is
        have hself : target = cfg.sourceLabel := by
          by_contra hself
          exact hkept (by simpa [hself] using hvalid)
        rw [hself, Labels.get_set]
        split
        · rename_i hname
          rw [hname]
        · rfl

omit [Strings] in
theorem ne_source_of_written {cfg : MetricRelabelConfig} {value target : String}
    (h : written cfg value = some target) : target ≠ cfg.sourceLabel := by
  unfold written at h
  rw [Option.filter_eq_some_iff, Bool.and_eq_true, decide_eq_true_eq] at h
  exact h.2.2

theorem relabelTemplateBy_eq {cfg : MetricRelabelConfig} (ha : cfg.action ≠ .replace) (l : Labels) :
    relabelTemplateBy cfg l = relabelBy cfg l := by
  unfold relabelTemplateBy relabelBy
  cases hcfg : cfg.toRelabelConfig with
  | error err => rfl
  | ok relabelCfg =>
    have haction : relabelCfg.action = cfg.action := by
      unfold MetricRelabelConfig.toRelabelConfig at hcfg
      split at hcfg
      · cases hcfg
        rfl
      · cases hcfg
        rfl
      · cases hcfg
        rfl
      · cases hcfg
        rfl
      · cases hcfg
    exact relabelTemplate_eq_relabel (fun h => absurd (haction.symm.trans h) ha) l

theorem additive_of_steady (hlower : ∀ s, Strings.toLower s = "" → s = "")
    (hupper : ∀ s, Strings.toUpper s = "" → s = "") {cfg : MetricRelabelConfig} (h : Steady cfg) :
    Additive (relabelTemplateBy cfg) := by
  have hfold : ∀ fold : String → String, fold "" = "" → (∀ s, fold s = "" → s = "") →
      (∀ l name, (relabelTemplateBy cfg l).get name =
        if name = cfg.targetLabel then fold (l.get cfg.sourceLabel) else l.get name) →
      Additive (relabelTemplateBy cfg) := by
    intro fold hempty hne hget
    refine ⟨fun name source => source = if name = cfg.targetLabel then cfg.sourceLabel else name, ?_⟩
    intro l name
    rw [hget]
    by_cases hname : name = cfg.targetLabel
    · simp only [hname, if_true, exists_eq_left]
      constructor
      · intro hsome hnone
        exact hsome (hnone ▸ hempty)
      · intro hsome hnone
        exact hsome (hne _ hnone)
    · simp only [hname, if_false, exists_eq_left]
  cases ha : cfg.action with
  | replace =>
    obtain ⟨target, hsome, hempty⟩ := h ha
    -- A series without a value for the source loses the target, or keeps it.
    refine ⟨fun name source => if target = some name then
      source = cfg.sourceLabel ∨ (written cfg "" = none ∧ source = name) else source = name, ?_⟩
    intro l name
    rw [get_relabelTemplateBy_replace ha]
    by_cases hval : l.get cfg.sourceLabel = ""
    · rw [hval]
      by_cases hname : target = some name
      · rcases hempty with hempty | hempty
        · simp [hempty, hname, hval]
        · simp [hempty, hname, hval]
      · rcases hempty with hempty | hempty
        · simp [hempty, hname]
        · simp [hempty, hname]
    · rw [hsome _ hval]
      by_cases hname : target = some name
      · simp only [hname, if_true]
        constructor
        · intro _
          exact ⟨cfg.sourceLabel, .inl rfl, hval⟩
        · intro _
          exact hval
      · simp [hname]
  | labelDrop =>
    refine ⟨fun name source => Regexp.matchString cfg.sourceLabel name = false ∧ source = name, ?_⟩
    intro l name
    rw [relabelTemplateBy_eq (by rw [ha]; decide), get_relabelBy, ha]
    cases hdrop : Regexp.matchString cfg.sourceLabel name with
    | false => simp [hdrop]
    | true => simp [hdrop]
  | lowercase =>
    refine hfold Strings.toLower Strings.toLower_empty hlower fun l name => ?_
    rw [relabelTemplateBy_eq (by rw [ha]; decide), get_relabelBy, ha]
  | uppercase =>
    refine hfold Strings.toUpper Strings.toUpper_empty hupper fun l name => ?_
    rw [relabelTemplateBy_eq (by rw [ha]; decide), get_relabelBy, ha]
  | _ =>
    refine ⟨fun name source => source = name, fun l name => ?_⟩
    rw [relabelTemplateBy_eq (by rw [ha]; decide), get_relabelBy, ha]
    simp

theorem relabelTemplates_eq {cfgs : List MetricRelabelConfig} {relabelCfgs : List RelabelConfig}
    (h : newMetricsRelabelClient cfgs = .ok relabelCfgs) (l : Labels) :
    relabelTemplates l relabelCfgs = cfgs.foldl (fun l cfg => relabelTemplateBy cfg l) l := by
  rw [newMetricsRelabelClient] at h
  split at h
  · cases h
  · have hstep : ∀ cfg relabelCfg, cfg.toRelabelConfig = .ok relabelCfg →
        relabelTemplateBy cfg = relabelTemplate relabelCfg := by
      intro cfg relabelCfg hcfg
      funext l
      rw [relabelTemplateBy, hcfg]
    rw [relabelTemplates, foldl_relabelConfigs hstep h]

/-! ## The answer -/

/-- The wrapped API has the label names of the series, without selectors. -/
def HasUnion (api : API S) (series : List Labels) : Prop :=
  ∃ names, api.labelNames [] = some names ∧ ∀ name, name ∈ names ↔ ∃ l ∈ series, name ∈ l.names

/-- The client answers, without selectors, with the sorted names of the relabelled series. -/
def NamesRelabelled (api : API S) (cfgs : List MetricRelabelConfig)
    (relabelCfgs : List RelabelConfig) (series : List Labels) : Prop :=
  ∃ names, labelNames api cfgs relabelCfgs [] = some names ∧ Ascending id names ∧
    ∀ name, name ∈ names ↔ ∃ l ∈ series, name ∈ (relabelTemplates l relabelCfgs).names

omit [Regexp] [Strings] in
theorem covers_placeholders {names : List String} {series : List Labels}
    (h : ∀ name, name ∈ names ↔ ∃ l ∈ series, name ∈ l.names) :
    Covers (placeholders names) series := by
  intro name
  simp only [← mem_names_labels]
  rw [← h, mem_names_labels, get_placeholders]
  split
  · simp_all
  · simp_all

theorem namesRelabelled_iff {api : API S} {names : List String}
    (hnames : api.labelNames [] = some names) (cfgs : List MetricRelabelConfig)
    (relabelCfgs : List RelabelConfig) (series : List Labels) :
    NamesRelabelled api cfgs relabelCfgs series ↔
      Covers (relabelTemplates (placeholders names) relabelCfgs)
        (series.map fun l => relabelTemplates l relabelCfgs) := by
  have hanswer : labelNames api cfgs relabelCfgs [] =
      some (relabelTemplates (placeholders names) relabelCfgs).names := by
    unfold labelNames
    rw [rewriteTexts, List.map_nil, allAnswers]
    simp only [hnames, Option.map_some]
  have hmem : ∀ name, (∃ l ∈ series, name ∈ (relabelTemplates l relabelCfgs).names) ↔
      ∃ l ∈ series.map fun l => relabelTemplates l relabelCfgs, l.get name ≠ "" := by
    intro name
    simp only [List.mem_map, exists_exists_and_eq_and, mem_names_labels]
  unfold NamesRelabelled Covers
  simp only [hmem, hanswer]
  constructor
  · rintro ⟨_, hsome, -, hiff⟩ name
    rw [← hiff, ← Option.some.inj hsome, mem_names_labels]
  · intro hcovers
    refine ⟨_, rfl, ascending_map.mpr (LabelSet.ascending _), fun name => ?_⟩
    rw [mem_names_labels, hcovers]

/-- A single replacement is right for every series only if it is steady. -/
theorem steady_of_namesRelabelled {cfg : MetricRelabelConfig} {relabelCfgs : List RelabelConfig}
    (hclient : newMetricsRelabelClient [cfg] = .ok relabelCfgs)
    (h : ∀ (api : API S) series, HasUnion api series → NamesRelabelled api [cfg] relabelCfgs series) :
    Steady cfg := by
  intro ha
  have hcovers : ∀ (names : List String) (series : List Labels),
      (∀ name, name ∈ names ↔ ∃ l ∈ series, l.get name ≠ "") →
        Covers (relabelTemplateBy cfg (placeholders names)) (series.map (relabelTemplateBy cfg)) := by
    intro names series hnames
    have hright := h ⟨fun _ => none, fun _ => none, fun _ => some names, fun _ _ => none⟩ series
      ⟨names, rfl, by simpa only [mem_names_labels] using hnames⟩
    rw [namesRelabelled_iff rfl] at hright
    simpa only [relabelTemplates_eq hclient, List.foldl_cons, List.foldl_nil] using hright
  -- what the rule adds to a label set
  have hadds : ∀ {l : Labels} (value : String) {name : String}, l.get cfg.sourceLabel = value → value ≠ "" →
      l.get name = "" →
        ((relabelTemplateBy cfg l).get name ≠ "" ↔ written cfg value = some name) := by
    intro l value name hvalue hne hname
    rw [get_relabelTemplateBy_replace ha, hvalue, hname]
    split
    · rename_i hwritten
      simp [hwritten, hne]
    · rename_i hwritten
      simp [hwritten]
  have hnone : ∀ label value name, name ≠ label → (Labels.empty.set label value).get name = "" := by
    intro label value name hne
    rw [Labels.get_set, if_neg hne]
    rfl
  refine ⟨written cfg "placeholder", fun value hvalue => ?_, ?_⟩
  · -- one series with the value
    have hsingle := hcovers [cfg.sourceLabel] [Labels.empty.set cfg.sourceLabel value] (by
      intro name
      by_cases hname : name = cfg.sourceLabel
      · simp [hname, hvalue]
      · simp [hname, hnone _ _ _ hname])
    ext target
    by_cases hself : target = cfg.sourceLabel
    · rw [hself]
      constructor
      · intro hwritten
        exact absurd rfl (ne_source_of_written hwritten)
      · intro hwritten
        exact absurd rfl (ne_source_of_written hwritten)
    · have htarget := hsingle target
      simp only [List.map_cons, List.map_nil, List.mem_singleton, exists_eq_left] at htarget
      rw [hadds "placeholder" (by simp [get_placeholders]) (by decide)
          (by simp [get_placeholders, hself]),
        hadds value (by simp) hvalue (hnone _ _ _ hself)] at htarget
      exact htarget.symm
  · cases hempty : written cfg "" with
    | none => exact .inl rfl
    | some target =>
      right
      have hself : target ≠ cfg.sourceLabel := ne_source_of_written hempty
      -- one series without a value, that loses the target, and one with a value
      have hpair := hcovers [target, cfg.sourceLabel]
        [Labels.empty.set target "placeholder", Labels.empty.set cfg.sourceLabel "placeholder"] (by
          intro name
          by_cases hname : name = cfg.sourceLabel
          · simp [hname]
          · by_cases hname' : name = target
            · simp [hname']
            · simp [hname, hname', hnone])
      have hkept : (relabelTemplateBy cfg (placeholders [target, cfg.sourceLabel])).get target ≠
          "" := by
        rw [get_relabelTemplateBy_replace ha]
        split
        · simp [get_placeholders]
        · simp [get_placeholders]
      have hlost : (relabelTemplateBy cfg (Labels.empty.set target "placeholder")).get target =
          "" := by
        have hval := hnone target "placeholder" cfg.sourceLabel hself.symm
        rw [get_relabelTemplateBy_replace ha, hval, if_pos hempty]
      have hfound := (hpair target).mp hkept
      simp only [List.map_cons, List.map_nil, List.mem_cons, List.not_mem_nil, or_false,
        exists_eq_or_imp, exists_eq_left, hlost, ne_eq, not_true_eq_false, false_or] at hfound
      exact ((hadds "placeholder" (by simp) (by decide) (hnone _ _ _ hself)).mp
        hfound).symm

/-- The names are those of the relabelled series, if every replacement is steady; for a single rule, only
then. -/
theorem labelNames_relabelled (hlower : ∀ s, Strings.toLower s = "" → s = "")
    (hupper : ∀ s, Strings.toUpper s = "" → s = "") {cfgs : List MetricRelabelConfig}
    {relabelCfgs : List RelabelConfig} (hclient : newMetricsRelabelClient cfgs = .ok relabelCfgs) :
    ((∀ cfg ∈ cfgs, Steady cfg) → ∀ (api : API S) series, HasUnion api series →
      NamesRelabelled api cfgs relabelCfgs series) ∧
    ∀ cfg, cfgs = [cfg] → ((∀ (api : API S) series, HasUnion api series →
      NamesRelabelled api cfgs relabelCfgs series) ↔ Steady cfg) := by
  have hsteady : (∀ cfg ∈ cfgs, Steady cfg) → ∀ (api : API S) series, HasUnion api series →
      NamesRelabelled api cfgs relabelCfgs series := by
    rintro hall api series ⟨names, hnames, hunion⟩
    rw [namesRelabelled_iff hnames]
    have hadditive : Additive fun l => relabelTemplates l relabelCfgs := by
      simp only [relabelTemplates_eq hclient]
      exact additive_foldl fun cfg hcfg => additive_of_steady hlower hupper (hall cfg hcfg)
    exact hadditive.covers (covers_placeholders hunion)
  refine ⟨hsteady, ?_⟩
  rintro cfg rfl
  constructor
  · exact steady_of_namesRelabelled hclient
  · intro hcfg
    exact hsteady fun cfg' hcfg' => List.mem_singleton.mp hcfg' ▸ hcfg

end

section

attribute [local instance] literalRegexp asciiStrings

theorem eq_empty_of_map_eq_empty {f : Char → Char} {s : String} (h : s.map f = "") : s = "" := by
  have hlist := congrArg String.toList h
  rw [String.toList_map] at hlist
  exact String.toList_eq_nil_iff.mp (List.map_eq_nil_iff.mp hlist)

def apiSeries : Labels := Labels.empty.set "job" "api"

/-- An API with a series of the job `api`. -/
def apiJob : API Unit where
  getValue _ := none
  series _ := none
  labelNames _ := some ["job"]
  labelValues _ _ := none

theorem hasUnion_apiJob : HasUnion apiJob [apiSeries] := by
  refine ⟨["job"], rfl, fun name => ?_⟩
  have hnames : apiSeries.names = ["job"] := by decide +kernel
  simp [hnames]

/-- `service` is a copy of `job`. -/
theorem labelNames_relabelled_service :
    NamesRelabelled apiJob [⟨"job", "service", .replace⟩]
      [⟨.replace, allRegex, "job", "service", "$1"⟩] [apiSeries] := by
  have hclient : newMetricsRelabelClient [⟨"job", "service", .replace⟩] =
      .ok [⟨.replace, allRegex, "job", "service", "$1"⟩] := by decide +kernel
  refine (labelNames_relabelled (fun _ => eq_empty_of_map_eq_empty)
    (fun _ => eq_empty_of_map_eq_empty) hclient).1 ?_ apiJob [apiSeries] hasUnion_apiJob
  intro cfg hcfg _
  rw [List.mem_singleton.mp hcfg]
  exact ⟨some "service", fun _ _ => rfl, .inr rfl⟩

/-- The target label is the value of `job`. -/
theorem labelNames_template :
    MetricRelabelConfig.validate ⟨"job", "$1", .replace⟩ = .ok () ∧
      newMetricsRelabelClient [⟨"job", "$1", .replace⟩] =
        .ok [⟨.replace, allRegex, "job", "$1", "$1"⟩] ∧
      HasUnion apiJob [apiSeries] ∧
      ¬ NamesRelabelled apiJob [⟨"job", "$1", .replace⟩] [⟨.replace, allRegex, "job", "$1", "$1"⟩]
        [apiSeries] := by
  refine ⟨by decide +kernel, by decide +kernel, hasUnion_apiJob, ?_⟩
  rintro ⟨names, hnames, -, hmem⟩
  have hanswer : MetricsRelabelClient.labelNames apiJob [⟨"job", "$1", .replace⟩]
      [⟨.replace, allRegex, "job", "$1", "$1"⟩] [] = some ["job", "placeholder"] := by
    decide +kernel
  have hrelabelled : "api" ∈ (relabelTemplates apiSeries
      [⟨.replace, allRegex, "job", "$1", "$1"⟩]).names := by decide +kernel
  have hapi := (hmem "api").mpr ⟨apiSeries, List.mem_singleton_self _, hrelabelled⟩
  rw [hanswer] at hnames
  rw [← Option.some.inj hnames] at hapi
  exact absurd hapi (by decide)

end

end Promclient
end Proxeus
