import Proxeus.Promclient.LabelNamesSpec
import Proxeus.Promclient.Request

/-!
# Promclient.LabelFilter

`LabelFilterClient` of `labelfilter.go`. It keeps the values that the dynamic labels have downstream,
and answers a request itself if one of its matchers accepts none of them. Such a matcher may still
accept a series that does not have the label, and the request may have other selectors
(`answers_iff`).
-/

namespace Proxeus
namespace Promclient

open Promql

/-! ## The filter -/

/-- `LabelFilterConfig`, without the interval of the syncs. -/
structure LabelFilterConfig where
  dynamicLabels : List String
  staticLabelsInclude : List (String × List String)
  staticLabelsExclude : List (String × List String)

/-- The map from the names of the labels to their values. -/
abbrev LabelFilter := String → Option (List String)

namespace LabelFilter

def includeStatic (filter : LabelFilter) (p : String × List String) : LabelFilter :=
  Function.update filter p.1 (some ((filter p.1).getD [] ++ p.2))

def excludeStatic (filter : LabelFilter) (p : String × List String) : LabelFilter :=
  match filter p.1 with
  | some values => Function.update filter p.1 (some (values.filter fun value => value ∉ p.2))
  | none => filter

/-- The loop of `Sync` over the dynamic labels. -/
def syncLabels {S : Type} (api : API S) (filter : LabelFilter) : List String → Option LabelFilter
  | [] => some filter
  | label :: labels =>
    (api.labelValues label []).bind fun values =>
      syncLabels api (Function.update filter label (some values)) labels

/-- `LabelFilterClient.Sync` -/
def sync {S : Type} (api : API S) (cfg : LabelFilterConfig) : Option LabelFilter :=
  (syncLabels api (fun _ => none) cfg.dynamicLabels).map fun filter =>
    cfg.staticLabelsExclude.foldl excludeStatic (cfg.staticLabelsInclude.foldl includeStatic filter)

section

variable [Regexp] {D : Type} (filter : LabelFilter)

def filterLabelMatchers (matcher : Matcher) : Bool :=
  match filter matcher.name with
  | some values => values.any matcher.accepts
  | none => true

/-- `filterMatch` after a walk of `FilterLabelVisitor`. -/
def filterMatch (e : Expr D) : Bool :=
  e.selectors.all fun vs => vs.labelMatchers.all filter.filterLabelMatchers

/-! ## LabelFilterClient -/

/-- What a method calls on the wrapped API, if it does. -/
def send : Request D → Option (Request D)
  | .query query ts =>
    query.reparse.bind fun e => if filter.filterMatch e then some (.query query ts) else none
  | .queryRange query start stop step =>
    query.reparse.bind fun e =>
      if filter.filterMatch e then some (.queryRange query start stop step) else none
  | .series matchTexts startTime endTime =>
    if matchTexts.all fun text => text.parseMetricSelector.all filter.filterLabelMatchers then
      some (.series matchTexts startTime endTime)
    else none
  | .getValue start stop matchers =>
    if matchers.all filter.filterLabelMatchers then some (.getValue start stop matchers) else none
  | .metadata metric limit =>
    if filter.filterLabelMatchers (nameMatcher metric) then some (.metadata metric limit) else none
  | .queryExemplars query startTime endTime =>
    match query.reparse with
    | none => some (.queryExemplars query startTime endTime)
    | some e =>
      if e.selectors.length = 0 ||
          e.selectors.any fun vs => vs.labelMatchers.all filter.filterLabelMatchers then
        some (.queryExemplars query startTime endTime)
      else none
  -- methods of the wrapped API
  | .labelNames matchers startTime endTime => some (.labelNames matchers startTime endTime)
  | .labelValues label matchers startTime endTime =>
    some (.labelValues label matchers startTime endTime)

end

end LabelFilter

/-! ## What is downstream -/

/-- The series and the metadata of a downstream, `M` being the metadata of a metric. -/
structure Store (S M : Type) where
  series : List (Labels × S)
  metadata : List (String × M)

namespace Store

variable [Regexp] {S M D : Type} (store : Store S M)

/-- Nothing of the store matches the request; no metric name is every metric. -/
def Unmatched : Request D → Prop
  | .metadata metric _ => ∀ p ∈ store.metadata, metric ≠ "" ∧ p.1 ≠ metric
  | request => ∀ matchers ∈ request.scope, ∀ s ∈ store.series, selects matchers s.1 = false

/-- A matcher of a dynamic label, no value of which it accepts. -/
def Dead (dynamicLabels : List String) (m : Matcher) : Prop :=
  m.name ∈ dynamicLabels ∧
    ∀ s ∈ store.series, s.1.get m.name ≠ "" → m.accepts (s.1.get m.name) = false

/-- A dead matcher of the selector refuses a missing label, or no series without the labels of its
dead matchers is selected. -/
def Excluded (dynamicLabels : List String) (matchers : List Matcher) : Prop :=
  (∃ m ∈ matchers, store.Dead dynamicLabels m ∧ m.accepts "" = false) ∨
    ∀ s ∈ store.series, (∀ m ∈ matchers, store.Dead dynamicLabels m → s.1.get m.name = "") →
      selects matchers s.1 = false

/-- The requests that are answered by the client only if nothing matches. -/
def Kept (dynamicLabels : List String) : Request D → Prop
  | .metadata metric _ =>
    metricNameLabel ∉ dynamicLabels ∨
      (metric ≠ "" ∧ ∃ s ∈ store.series, s.1.get metricNameLabel = metric) ∨
      ∀ p ∈ store.metadata, metric ≠ "" ∧ p.1 ≠ metric
  | .queryExemplars query _ _ =>
    (∃ matchers ∈ Request.scopeOfQuery query, ∀ m ∈ matchers, ¬ store.Dead dynamicLabels m) ∨
      ∀ matchers ∈ Request.scopeOfQuery query, store.Excluded dynamicLabels matchers
  | .labelNames _ _ _ => True
  | .labelValues _ _ _ _ => True
  | request =>
    (∀ matchers ∈ request.scope, ∀ m ∈ matchers, ¬ store.Dead dynamicLabels m) ∨
      ∀ matchers ∈ request.scope, store.Excluded dynamicLabels matchers

theorem unmatched_iff (dynamicLabels : List String) (matchers : List Matcher) :
    (∀ s ∈ store.series, selects matchers s.1 = false) ↔ store.Excluded dynamicLabels matchers := by
  refine ⟨fun h => .inr fun s hs _ => h s hs, fun h s hs => ?_⟩
  by_contra hsel
  rw [Bool.not_eq_false, selects, List.all_eq_true] at hsel
  have hlacks : ∀ m ∈ matchers, store.Dead dynamicLabels m → s.1.get m.name = "" := by
    intro m hm hdead
    by_contra hget
    exact absurd (hsel m hm) (Bool.eq_false_iff.mp (hdead.2 s hs hget))
  rcases h with ⟨m, hm, hdead, hrefuses⟩ | h
  · have haccepts := hsel m hm
    rw [hlacks m hm hdead, hrefuses] at haccepts
    cases haccepts
  · exact absurd (List.all_eq_true.mpr hsel) (Bool.eq_false_iff.mp (h s hs hlacks))

theorem dead_nameMatcher (dynamicLabels : List String) (metric : String) :
    store.Dead dynamicLabels (nameMatcher metric) ↔
      metricNameLabel ∈ dynamicLabels ∧
        ∀ s ∈ store.series, s.1.get metricNameLabel ≠ "" → s.1.get metricNameLabel ≠ metric := by
  simp [Dead, nameMatcher, newMatcher, Matcher.accepts]

/-- Where nothing matches, a server has no more to answer than the client. -/
theorem getValue_of_unmatched {start stop : Int} {matchers : List Matcher}
    (h : store.Unmatched (.getValue start stop matchers : Request D)) {series : List (Labels × S)}
    (hanswer : (prometheus store.series).getValue matchers = some series) : series = [] := by
  simp only [prometheus, matchingSeries] at hanswer
  split at hanswer
  · rw [← Option.some.inj hanswer]
    refine List.filter_eq_nil_iff.mpr fun s hs => ?_
    simpa using h matchers List.mem_cons_self s hs
  · cases hanswer

theorem series_of_unmatched {matchTexts : List SelectorText} {startTime endTime : Int}
    (h : store.Unmatched (.series matchTexts startTime endTime : Request D))
    {lsets : List LabelSet} (hanswer : (prometheus store.series).series matchTexts = some lsets) :
    lsets = [] := by
  by_cases hnil : matchTexts = []
  · subst hnil
    cases hanswer
  · rw [series_prometheus hnil] at hanswer
    split at hanswer
    · rw [← Option.some.inj hanswer, List.map_eq_nil_iff]
      refine List.filter_eq_nil_iff.mpr fun s hs => ?_
      rw [Bool.not_eq_true, List.any_eq_false]
      intro text htext
      have hscope : text.parseMetricSelector ∈
          (Request.series matchTexts startTime endTime : Request D).scope := by
        rw [Request.scope, Request.scopeOfTexts, if_neg hnil]
        exact List.mem_map_of_mem htext
      exact Bool.eq_false_iff.mp (h _ hscope s hs)
    · cases hanswer

end Store

/-! ## The filter of a store -/

section

variable [Regexp] {S M D : Type} {store : Store S M} {dynamicLabels : List String}

/-- A filter with the values that the dynamic labels have in the store. -/
def FilterOf (store : Store S M) (dynamicLabels : List String) (filter : LabelFilter) : Prop :=
  ∀ label, (label ∉ dynamicLabels → filter label = none) ∧
    (label ∈ dynamicLabels → ∃ values, filter label = some values ∧
      ∀ value, value ∈ values ↔ ∃ s ∈ store.series, s.1.get label = value ∧ value ≠ "")

theorem syncLabels_prometheus {labels : List String} {filter : LabelFilter}
    (hfilter : FilterOf store dynamicLabels filter) :
    ∃ filter', LabelFilter.syncLabels (prometheus store.series) filter labels = some filter' ∧
      FilterOf store (labels ++ dynamicLabels) filter' := by
  induction labels generalizing filter dynamicLabels with
  | nil => exact ⟨filter, rfl, hfilter⟩
  | cons label labels ih =>
    obtain ⟨values, hvalues, hmem⟩ := (labelValues_prometheus store.series label []).2 rfl
    have hupdated : FilterOf store (label :: dynamicLabels)
        (Function.update filter label (some values)) := by
      intro name
      by_cases hname : name = label
      · subst hname
        rw [Function.update_self]
        refine ⟨fun h => absurd List.mem_cons_self h, fun _ => ⟨values, rfl, fun value => ?_⟩⟩
        simp only [hmem, asked, decide_true, Bool.true_or, true_and]
      · rw [Function.update_of_ne hname]
        simpa only [List.mem_cons, hname, false_or] using hfilter name
    obtain ⟨filter', hsync, hof⟩ := ih hupdated
    refine ⟨filter', ?_, fun name => ?_⟩
    · rw [LabelFilter.syncLabels, hvalues, Option.bind_some, hsync]
    · have hperm : name ∈ label :: labels ++ dynamicLabels ↔ name ∈ labels ++ label :: dynamicLabels :=
        List.perm_middle.symm.mem_iff
      simpa only [hperm] using hof name

theorem sync_prometheus (store : Store S M) (dynamicLabels : List String) :
    ∃ filter, LabelFilter.sync (prometheus store.series) ⟨dynamicLabels, [], []⟩ = some filter ∧
      FilterOf store dynamicLabels filter := by
  have hempty : FilterOf store [] fun _ => none :=
    fun label => ⟨fun _ => rfl, fun h => absurd h List.not_mem_nil⟩
  obtain ⟨filter, hsync, hof⟩ := @syncLabels_prometheus _ _ _ _ _ dynamicLabels _ hempty
  rw [List.append_nil] at hof
  exact ⟨filter, by rw [LabelFilter.sync, hsync]; rfl, hof⟩

variable {filter : LabelFilter}

theorem filterLabelMatchers_eq_false (hof : FilterOf store dynamicLabels filter) (m : Matcher) :
    filter.filterLabelMatchers m = false ↔ store.Dead dynamicLabels m := by
  rw [LabelFilter.filterLabelMatchers, Store.Dead]
  by_cases hname : m.name ∈ dynamicLabels
  · obtain ⟨values, hvalues, hmem⟩ := (hof m.name).2 hname
    simp only [hvalues, List.any_eq_false, hmem, hname, true_and, Bool.not_eq_true]
    constructor
    · intro h s hs hget
      exact h _ ⟨s, hs, rfl, hget⟩
    · rintro h _ ⟨s, hs, rfl, hget⟩
      exact h s hs hget
  · simp only [(hof m.name).1 hname, hname, false_and, Bool.true_eq_false]

theorem all_filterLabelMatchers (hof : FilterOf store dynamicLabels filter)
    (matchers : List Matcher) :
    matchers.all filter.filterLabelMatchers = true ↔
      ∀ m ∈ matchers, ¬ store.Dead dynamicLabels m := by
  rw [List.all_eq_true]
  refine forall₂_congr fun m _ => ?_
  rw [← filterLabelMatchers_eq_false hof, Bool.not_eq_false]

/-- Giving up where a selector has a dead matcher. -/
theorem unmatched_of_dead_iff (selectors : List (List Matcher)) :
    ((¬ ∀ matchers ∈ selectors, ∀ m ∈ matchers, ¬ store.Dead dynamicLabels m) →
        ∀ matchers ∈ selectors, ∀ s ∈ store.series, selects matchers s.1 = false) ↔
      (∀ matchers ∈ selectors, ∀ m ∈ matchers, ¬ store.Dead dynamicLabels m) ∨
        ∀ matchers ∈ selectors, store.Excluded dynamicLabels matchers := by
  rw [← or_iff_not_imp_left]
  refine or_congr_right (forall₂_congr fun matchers _ => ?_)
  exact store.unmatched_iff dynamicLabels matchers

/-- Both methods that are sent a query to evaluate. -/
theorem answers_query_iff (hof : FilterOf store dynamicLabels filter) (query : Expr D)
    (request : Request D) :
    ((query.reparse.bind fun e => if filter.filterMatch e then some request else none) = none →
        ∀ matchers ∈ Request.scopeOfQuery query, ∀ s ∈ store.series, selects matchers s.1 = false) ↔
      (∀ matchers ∈ Request.scopeOfQuery query, ∀ m ∈ matchers, ¬ store.Dead dynamicLabels m) ∨
        ∀ matchers ∈ Request.scopeOfQuery query, store.Excluded dynamicLabels matchers := by
  rw [← unmatched_of_dead_iff, Request.scopeOfQuery]
  cases query.reparse with
  | none => simp
  | some e =>
    have hmatch : filter.filterMatch e = true ↔
        ∀ matchers ∈ e.selectors.map VectorSelector.labelMatchers, ∀ m ∈ matchers,
          ¬ store.Dead dynamicLabels m := by
      rw [LabelFilter.filterMatch, List.all_eq_true, List.forall_mem_map]
      exact forall₂_congr fun vs _ => all_filterLabelMatchers hof vs.labelMatchers
    rw [← hmatch, Option.bind_some]
    split <;> simp [*]

end

/-- What the client answers itself. -/
theorem answers_iff [Regexp] {S M : Type} (D : Type) (store : Store S M)
    (dynamicLabels : List String) :
    ∃ filter, LabelFilter.sync (prometheus store.series) ⟨dynamicLabels, [], []⟩ = some filter ∧
      ∀ request : Request D,
        (filter.send request = none → store.Unmatched request) ↔ store.Kept dynamicLabels request := by
  obtain ⟨filter, hsync, hof⟩ := sync_prometheus store dynamicLabels
  refine ⟨filter, hsync, fun request => ?_⟩
  cases request with
  | labelNames matchers startTime endTime =>
    refine iff_of_true (fun h => ?_) trivial
    cases h
  | labelValues label matchers startTime endTime =>
    refine iff_of_true (fun h => ?_) trivial
    cases h
  | query query ts => exact answers_query_iff hof query _
  | queryRange query start stop step => exact answers_query_iff hof query _
  | series matchTexts startTime endTime =>
    refine Iff.trans ?_ (unmatched_of_dead_iff (Request.scopeOfTexts matchTexts))
    refine imp_congr ?_ Iff.rfl
    have hall : (matchTexts.all fun text =>
        text.parseMetricSelector.all filter.filterLabelMatchers) = true ↔
        ∀ matchers ∈ Request.scopeOfTexts matchTexts, ∀ m ∈ matchers,
          ¬ store.Dead dynamicLabels m := by
      rw [List.all_eq_true, Request.scopeOfTexts]
      split
      · rename_i hnil
        simp [hnil]
      · rw [List.forall_mem_map]
        exact forall₂_congr fun text _ => all_filterLabelMatchers hof text.parseMetricSelector
    rw [← hall, LabelFilter.send]
    split <;> simp [*]
  | getValue start stop matchers =>
    refine Iff.trans ?_ (unmatched_of_dead_iff [matchers])
    refine imp_congr ?_ Iff.rfl
    rw [LabelFilter.send, List.forall_mem_singleton, ← all_filterLabelMatchers hof]
    split <;> simp [*]
  | metadata metric limit =>
    have hdead : filter.filterLabelMatchers (nameMatcher metric) = true ↔
        metricNameLabel ∉ dynamicLabels ∨
          (metric ≠ "" ∧ ∃ s ∈ store.series, s.1.get metricNameLabel = metric) := by
      rw [← Bool.not_eq_false, filterLabelMatchers_eq_false hof, store.dead_nameMatcher]
      simp only [not_and_or, not_forall, not_not, exists_prop]
      refine or_congr_right ⟨?_, ?_⟩
      · rintro ⟨s, hs, hne, hget⟩
        exact ⟨hget ▸ hne, s, hs, hget⟩
      · rintro ⟨hne, s, hs, hget⟩
        exact ⟨s, hs, hget ▸ hne, hget⟩
    rw [Store.Kept, ← or_assoc, ← hdead, LabelFilter.send, Store.Unmatched]
    split <;> simp [*]
  | queryExemplars query startTime endTime =>
    simp only [Store.Kept, LabelFilter.send, Store.Unmatched, Request.scope, Request.scopeOfQuery]
    cases query.reparse with
    | none => simp
    | some e =>
      have hany : (e.selectors.any fun vs =>
          vs.labelMatchers.all filter.filterLabelMatchers) = true ↔
          ∃ matchers ∈ e.selectors.map VectorSelector.labelMatchers, ∀ m ∈ matchers,
            ¬ store.Dead dynamicLabels m := by
        simp only [List.any_eq_true, List.mem_map, exists_exists_and_eq_and,
          all_filterLabelMatchers hof]
      simp only [store.unmatched_iff dynamicLabels, ← hany]
      by_cases hnil : e.selectors = []
      · simp [hnil]
      · have hlen : e.selectors.length ≠ 0 := by simpa using hnil
        simp only [hlen, decide_false, Bool.false_or]
        split <;> simp [*]

/-- One series `up{job="a"}`, which has no value of `cluster`, and the metadata of `up`. -/
def upStore : Store Unit Unit :=
  ⟨[((Labels.empty.set metricNameLabel "up").set "job" "a", ())], [("up", ())]⟩

/-- What the filter drops although `up` matches: one alternative of two, a matcher that accepts a
missing label, and the metadata of all metrics. -/
theorem send_up_dropped :
    let filter := (@LabelFilter.sync _ (@prometheus literalRegexp _ upStore.series)
      ⟨["job", "cluster", metricNameLabel], [], []⟩).getD fun _ => none
    let dead : SelectorText := ⟨"up", [newMatcher .matchEqual "job" "b"]⟩
    let absent := [nameMatcher "up", newMatcher .matchNotEqual "cluster" "x"]
    let send := @LabelFilter.send literalRegexp Empty filter
    (send (.series [dead, ⟨"up", []⟩] 0 10)).isNone ∧ (send (.getValue 0 10 absent)).isNone ∧
      (send (.metadata "" "")).isNone ∧ upStore.metadata ≠ [] ∧
      ∀ s ∈ upStore.series, @selects literalRegexp [nameMatcher "up"] s.1 = true ∧
        @selects literalRegexp absent s.1 = true := by
  decide +kernel

end Promclient
end Proxeus
