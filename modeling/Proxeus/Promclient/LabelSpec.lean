import Proxeus.Promclient.InstantQuerySpec
import Proxeus.Promclient.Label
import Proxeus.Promql.EngineSpec

/-!
# Promclient.LabelSpec

What `AddLabelClient` returns, next to the series of the store with the labels added. The matchers
that are left when those of the added labels are gone select the same series
(`selects_filterMatchers`); what becomes of a selector on its way as a text is `selects_text`.
-/

namespace Proxeus

open Lib

/-! ## Label sets -/

namespace LabelSet

theorem lookup_eq_some {ls : LabelSet} {name value : String} :
    ls.lookup name = some value ↔ ⟨name, value⟩ ∈ ls.pairs := by
  refine ⟨mem_of_lookup, fun hmem => ?_⟩
  cases hl : ls.lookup name with
  | none => exact absurd (List.mem_map_of_mem hmem) (lookup_eq_none.mp hl)
  | some v =>
    have heq := ls.ascending.eq_of_key_eq (mem_of_lookup hl) hmem rfl
    rw [Label.mk.injEq] at heq
    rw [heq.2]

theorem get_toLabels (lset : LabelSet) (name : String) :
    lset.toLabels.get name = (lset.lookup name).getD "" := by
  refine Labels.get_of_mem fun value hvalue => ?_
  simp only [toLabels, List.mem_filter, decide_eq_true_eq, ← lookup_eq_some]
  constructor
  · rintro ⟨hlookup, -⟩
    rw [hlookup, Option.getD_some]
  · intro hget
    cases hl : lset.lookup name with
    | none =>
      rw [hl] at hget
      exact absurd hget.symm hvalue
    | some v =>
      rw [hl] at hget
      exact ⟨congrArg some hget, hvalue⟩

theorem lookup_toLabelSet (l : Labels) (name : String) :
    l.lookup name = if l.get name = "" then none else some (l.get name) := by
  split
  · rename_i hget
    rw [lookup_eq_none]
    intro hmem
    obtain ⟨p, hp, rfl⟩ := List.mem_map.mp hmem
    obtain ⟨hvalue, hne⟩ := (l.mem_pairs_iff p).mp hp
    exact hne (hvalue.symm.trans hget)
  · rename_i hget
    exact lookup_eq_some.mpr ((l.get_eq_iff name _ hget).mp rfl)

theorem lookup_merge (lset other : LabelSet) (name : String) :
    (lset.merge other).lookup name = (other.lookup name).or (lset.lookup name) := by
  refine Option.ext fun value => ?_
  rw [lookup_eq_some]
  simp only [merge, mem_sortBy, List.mem_append, List.mem_filter, decide_eq_true_eq,
    ← lookup_eq_some]
  cases ho : other.lookup name with
  | none => simp [lookup_eq_none.mp ho]
  | some v =>
    have hin : name ∈ other.names := List.mem_map_of_mem (lookup_eq_some.mp ho)
    simp [hin]

/-- Adding labels to a series and to its label set. -/
theorem toLabels_merge (l : Labels) (ls : LabelSet) :
    (l.toLabelSet.merge ls).toLabels = l.setAll ls.pairs := by
  refine Labels.ext_get fun name => ?_
  rw [get_toLabels, lookup_merge, Labels.get_setAll, lookup_toLabelSet]
  cases ls.lookup name with
  | some value => rfl
  | none =>
    rw [Option.none_or, Option.getD_none]
    split
    · rename_i hget
      rw [hget, Option.getD_none]
    · rw [Option.getD_some]

theorem mem_names_iff {ls : LabelSet} {name : String} :
    name ∈ ls.names ↔ ∃ value, ls.lookup name = some value := by
  rw [← not_iff_not, ← lookup_eq_none, not_exists]
  exact ⟨fun h value hvalue => by simp [h] at hvalue, Option.eq_none_iff_forall_not_mem.mpr⟩

end LabelSet

namespace Promclient

open Promql

/-! ## Selectors as texts -/

section

variable [Regexp] {D : Type}

theorem check_braces (matchers : List Matcher) :
    SelectorText.check ⟨"", matchers⟩ = !acceptsEmpty matchers := by
  simp [SelectorText.check, SelectorText.parseMetricSelector, acceptsEmpty_map_reparse]

theorem selects_braces (matchers : List Matcher) (metric : Labels) :
    selects (SelectorText.parseMetricSelector ⟨"", matchers⟩) metric = selects matchers metric := by
  simp [SelectorText.parseMetricSelector]

/-- A selector that is printed and read again asks for the metric name outside of its braces, too. -/
theorem selects_text (vs : VectorSelector D) (metric : Labels) :
    selects vs.text.parseMetricSelector metric =
      (selects vs.labelMatchers metric &&
        (vs.name = "" || metric.get metricNameLabel = vs.name)) := by
  rw [SelectorText.parseMetricSelector, selects_append, selects_map_reparse]
  by_cases hname : vs.name = ""
  · simp [VectorSelector.text, hname, selects]
  · have hlast : selects [nameMatcher vs.name] metric =
        decide (metric.get metricNameLabel = vs.name) := by
      simp [selects, nameMatcher, newMatcher, Matcher.accepts]
    rw [if_neg (by exact hname), show vs.text.name = vs.name from rfl, hlast]
    by_cases hget : metric.get metricNameLabel = vs.name
    · have hbraces : selects vs.text.braces metric = selects vs.labelMatchers metric := by
        rw [Bool.eq_iff_iff, selects, selects, List.all_eq_true, List.all_eq_true]
        refine ⟨fun h m hm => ?_, fun h m hm => h m (List.mem_filter.mp hm).1⟩
        by_cases hdrop : m.name = metricNameLabel ∧ m.type = .matchEqual ∧ m.value = vs.name
        · rw [Matcher.accepts, hdrop.2.1, hdrop.1, hget, hdrop.2.2]
          exact decide_eq_true rfl
        · refine h m (List.mem_filter.mpr ⟨hm, ?_⟩)
          simp only [not_and] at hdrop
          simp only [Bool.not_eq_true', Bool.and_eq_false_imp, Bool.and_eq_true,
            decide_eq_true_eq, hname, ne_eq, not_false_eq_true, decide_true, and_imp]
          intro hmn hty hval
          exact absurd hval (hdrop hmn hty)
      simp [hbraces, hget]
    · simp [hget, hname]

omit [Regexp] in
theorem parseMetricSelector_reparse (name : String) (braces : List Matcher) :
    SelectorText.parseMetricSelector ⟨name, braces.map Matcher.reparse⟩ =
      SelectorText.parseMetricSelector ⟨name, braces⟩ := by
  rw [SelectorText.parseMetricSelector, List.map_map]
  rfl

theorem text_of_parseExpr {text : SelectorText} {vs : VectorSelector D}
    (h : text.parseExpr = some vs) : vs.text = ⟨text.name, text.braces.map Matcher.reparse⟩ := by
  obtain ⟨name, braces⟩ := text
  rw [SelectorText.parseExpr] at h
  split at h
  · rename_i hcheck
    cases h
    rw [SelectorText.check, Bool.and_eq_true] at hcheck
    have hbraces : ∀ m ∈ braces.map Matcher.reparse,
        (!(m.name = metricNameLabel && m.type = .matchEqual && m.value = name && name ≠ "")) =
          true := by
      intro m hm
      obtain ⟨m', hm', rfl⟩ := List.mem_map.mp hm
      by_cases hname : name = ""
      · simp [hname]
      · have hno := hcheck.1
        simp only [ne_eq, hname, not_false_eq_true, decide_true, Bool.true_and, Bool.not_eq_true',
          List.any_eq_false, decide_eq_true_eq] at hno
        simp [show m'.reparse.name = m'.name from rfl, hno m' hm']
    rw [VectorSelector.text, SelectorText.parseMetricSelector, List.filter_append,
      List.filter_eq_self.mpr hbraces]
    by_cases hname : name = ""
    · simp [hname]
    · simp [hname, nameMatcher, newMatcher]
  · cases h

/-- What is parsed is printed as a text that is parsed to the same. -/
theorem reparse_of_parseExpr {text : SelectorText} {vs : VectorSelector D}
    (h : text.parseExpr = some vs) : vs.reparse = some vs := by
  have hparse : vs.text.parseExpr = some vs := by
    rw [text_of_parseExpr h, ← h, SelectorText.parseExpr, SelectorText.parseExpr,
      SelectorText.check, SelectorText.check, parseMetricSelector_reparse, List.any_map]
    rfl
  rw [VectorSelector.reparse, hparse, Option.map_some]

theorem labelMatchers_of_parseExpr {text : SelectorText} {vs : VectorSelector D}
    (h : text.parseExpr = some vs) :
    vs.name = text.name ∧ vs.labelMatchers = text.parseMetricSelector ∧ vs.originalOffset = 0 ∧
      vs.timestamp = none ∧ vs.unexpandedSeriesSet = none := by
  rw [SelectorText.parseExpr] at h
  split at h
  · cases h
    exact ⟨rfl, rfl, rfl, rfl, rfl⟩
  · cases h

/-! ## Selectors without the matchers of the added labels -/

/-- A series with a metric name is selected by the matchers that are left as it is, with the added
labels, by all. -/
theorem selects_filterMatchers (ls : LabelSet) {matchers : List Matcher} {metric : Labels}
    (hname : (∀ m ∈ matchers, m.name ∈ ls.names) → metric.get metricNameLabel ≠ "") :
    selects matchers (metric.setAll ls.pairs) =
      (filterMatchers ls matchers).any fun filtered => selects filtered metric := by
  rw [selects_setAll, filterMatchers]
  cases hf : filterMatchersLoop ls matchers with
  | none => rfl
  | some left =>
    cases left with
    | nil =>
      have hall : ∀ m ∈ matchers, m.name ∈ ls.names := by
        intro m hm
        by_contra hnot
        exact List.not_mem_nil ((mem_of_filterMatchersLoop hf m).mpr ⟨hm, hnot⟩)
      simp [selects, anyMetricName, Matcher.accepts, Regexp.matchString_any, hname hall]
    | cons m left => rfl

theorem selects_filterSelector (ls : LabelSet) (vs : VectorSelector D) {metric : Labels}
    (hname : (∀ m ∈ vs.labelMatchers, m.name ∈ ls.names) → metric.get metricNameLabel ≠ "") :
    ((filterSelector ls vs).any fun vs' => selects vs'.text.parseMetricSelector metric) =
      (selects vs.labelMatchers (metric.setAll ls.pairs) &&
        (vs.name = "" || metric.get metricNameLabel = vs.name)) := by
  rw [selects_filterMatchers ls hname, filterSelector]
  cases filterMatchers ls vs.labelMatchers with
  | none => rfl
  | some filtered => exact selects_text { vs with labelMatchers := filtered } metric

/-- What the labels refuse is not selected by the matchers that are left. -/
theorem filterSelector_refuses {ls : LabelSet} (vs : VectorSelector D) {metric : Labels}
    (h : selects vs.labelMatchers (metric.setAll ls.pairs) = false) :
    ((filterSelector ls vs).any fun vs' => selects vs'.text.parseMetricSelector metric) = false := by
  by_cases hall : ∀ m ∈ vs.labelMatchers, m.name ∈ ls.names
  · have hloop : filterMatchersLoop ls vs.labelMatchers = none := by
      cases hf : filterMatchersLoop ls vs.labelMatchers with
      | none => rfl
      | some left =>
        have hleft : left = [] := List.eq_nil_iff_forall_not_mem.mpr fun m hm =>
          ((mem_of_filterMatchersLoop hf m).mp hm).2 (hall m ((mem_of_filterMatchersLoop hf m).mp hm).1)
        rw [selects_setAll, hf, hleft] at h
        cases h
    rw [filterSelector, filterMatchers, hloop]
    rfl
  · rw [selects_filterSelector ls vs fun hall' => absurd hall' hall, h, Bool.false_and]

end

/-! ## What the client returns -/

/-- Keeping fewer elements gives the same results only if it keeps the same elements. -/
theorem map_filter_eq_iff {α β : Type*} {l : List α} {p q : α → Bool} (f : α → β)
    (hsub : ∀ x ∈ l, q x → p x) :
    (l.filter q).map f = (l.filter p).map f ↔ ∀ x ∈ l, p x → q x := by
  have hfilter : l.filter q = (l.filter p).filter q := by
    rw [List.filter_filter]
    refine List.filter_congr fun x hx => ?_
    cases hq : q x with
    | false => rfl
    | true => rw [hsub x hx hq, Bool.and_true]
  constructor
  · intro heq x hx hpx
    have hlen : ((l.filter p).filter q).length = (l.filter p).length := by
      rw [← hfilter, ← List.length_map f, heq, List.length_map]
    have hall := List.length_filter_eq_length_iff.mp hlen
    exact hall x (List.mem_filter.mpr ⟨hx, hpx⟩)
  · intro h
    rw [List.filter_congr fun x hx => Bool.eq_iff_iff.mpr ⟨hsub x hx, h x hx⟩]

section

variable [Regexp] {S : Type}

/-- Every series of the store has a metric name. -/
def Named (store : List (Labels × S)) : Prop := ∀ s ∈ store, s.1.get metricNameLabel ≠ ""

instance (store : List (Labels × S)) : Decidable (Named store) :=
  inferInstanceAs (Decidable (∀ s ∈ store, s.1.get metricNameLabel ≠ ""))

/-- The series of the store with the labels added. -/
def labelled (ls : LabelSet) (store : List (Labels × S)) : List (Labels × S) :=
  store.map fun s => (s.1.setAll ls.pairs, s.2)

theorem getValue_eq_iff {store : List (Labels × S)} (hname : Named store) (ls : LabelSet)
    (matchers : List Matcher) :
    AddLabelClient.getValue (prometheus store) ls matchers =
        some ((labelled ls store).filter fun s => selects matchers s.1) ↔
      (filterMatchers ls matchers).all fun filtered => !acceptsEmpty filtered := by
  have hsel : ∀ s ∈ store, selects matchers (s.1.setAll ls.pairs) =
      (filterMatchers ls matchers).any fun filtered => selects filtered s.1 :=
    fun s hs => selects_filterMatchers ls fun _ => hname s hs
  rw [labelled, List.filter_map, AddLabelClient.getValue]
  cases hf : filterMatchers ls matchers with
  | none =>
    rw [List.filter_eq_nil_iff.mpr fun s hs => by simp [hsel s hs, hf]]
    simp
  | some filtered =>
    rw [List.filter_congr fun s hs => by rw [Function.comp_apply, hsel s hs, hf]]
    simp only [prometheus, check_braces, matchingSeries]
    cases he : acceptsEmpty filtered with
    | false => simp [he]
    | true => simp [he]

/-- Whether the server takes all selectors. -/
def taken (texts : List SelectorText) : Bool :=
  texts.all fun text => !acceptsEmpty text.parseMetricSelector

theorem parseMatchersParam_eq (texts : List SelectorText) :
    parseMatchersParam texts =
      if taken texts then some (texts.map SelectorText.parseMetricSelector) else none := by
  rw [parseMatchersParam]
  induction texts with
  | nil => rfl
  | cons text texts ih =>
    have hcons : taken (text :: texts) =
        (!acceptsEmpty text.parseMetricSelector && taken texts) := rfl
    rw [List.map_cons, allAnswers, ih, hcons, List.map_cons]
    cases acceptsEmpty text.parseMetricSelector with
    | true => simp
    | false => cases taken texts <;> simp

theorem series_prometheus {store : List (Labels × S)} {texts : List SelectorText}
    (hne : texts ≠ []) :
    (prometheus store).series texts =
      if taken texts then
        some ((store.filter fun s =>
          texts.any fun text => selects text.parseMetricSelector s.1).map fun s => s.1.toLabelSet)
      else none := by
  simp only [prometheus, parseMatchersParam_eq, if_neg hne]
  split
  · have hsel : ∀ s ∈ store, (decide (texts.map SelectorText.parseMetricSelector = []) ||
        (texts.map SelectorText.parseMetricSelector).any fun matchers => selects matchers s.1) =
        texts.any fun text => selects text.parseMetricSelector s.1 := by
      intro s _
      rw [List.any_map, decide_eq_false (by simpa using hne), Bool.false_or]
      rfl
    rw [Option.map_some, matchingSeries, List.filter_congr hsel]
  · rfl

/-- Whether a series is selected by a selector, with the added labels, and by the metric name outside
of its braces, without them. -/
def selectsSent (ls : LabelSet) (vs : VectorSelector Empty) (metric : Labels) : Bool :=
  selects vs.labelMatchers (metric.setAll ls.pairs) &&
    (vs.name = "" || metric.get metricNameLabel = vs.name)

theorem selects_any_filteredMatches (ls : LabelSet) (selectors : List (VectorSelector Empty))
    {metric : Labels} (hname : metric.get metricNameLabel ≠ "") :
    ((AddLabelClient.filteredMatches ls selectors).any fun text =>
        selects text.parseMetricSelector metric) =
      selectors.any fun vs => selectsSent ls vs metric := by
  rw [AddLabelClient.filteredMatches, List.any_map]
  induction selectors with
  | nil => rfl
  | cons vs selectors ih =>
    have hvs := selects_filterSelector ls vs fun _ => hname
    rw [List.filterMap_cons, List.any_cons, ← ih, selectsSent, ← hvs]
    cases filterSelector ls vs with
    | none => rfl
    | some vs' => rfl

theorem series_eq {store : List (Labels × S)} (hname : Named store) (ls : LabelSet)
    {texts : List SelectorText} {selectors : List (VectorSelector Empty)}
    (hparse : allAnswers (texts.map SelectorText.parseExpr) = some selectors) :
    AddLabelClient.series (prometheus store) ls texts =
      if taken (AddLabelClient.filteredMatches ls selectors) then
        some ((store.filter fun s => selectors.any fun vs => selectsSent ls vs s.1).map fun s =>
          s.1.toLabelSet.merge ls)
      else none := by
  have hany := fun s (hs : s ∈ store) => selects_any_filteredMatches ls selectors (hname s hs)
  rw [AddLabelClient.series, hparse, Option.bind_some, ← List.filter_congr hany]
  by_cases hnil : AddLabelClient.filteredMatches ls selectors = []
  · simp [hnil, taken]
  · rw [if_neg (by simpa using hnil), series_prometheus hnil]
    split
    · rw [Option.map_some, List.map_map]
      rfl
    · rfl

theorem series_eq_iff {store : List (Labels × S)} (hname : Named store) (ls : LabelSet)
    {texts : List SelectorText} {selectors : List (VectorSelector Empty)}
    (hparse : allAnswers (texts.map SelectorText.parseExpr) = some selectors) :
    (∃ lsets, AddLabelClient.series (prometheus store) ls texts = some lsets ∧
      lsets.map LabelSet.toLabels =
        ((labelled ls store).filter fun s =>
          selectors.any fun vs => selects vs.labelMatchers s.1).map Prod.fst) ↔
      taken (AddLabelClient.filteredMatches ls selectors) ∧
      ∀ s ∈ store, (selectors.any fun vs => selects vs.labelMatchers (s.1.setAll ls.pairs)) →
        selectors.any fun vs => selectsSent ls vs s.1 := by
  have hwanted : ((labelled ls store).filter fun s =>
      selectors.any fun vs => selects vs.labelMatchers s.1).map Prod.fst =
      (store.filter fun s => selectors.any fun vs =>
        selects vs.labelMatchers (s.1.setAll ls.pairs)).map fun s => s.1.setAll ls.pairs := by
    rw [labelled, List.filter_map, List.map_map]
    rfl
  have hlabels : ∀ l : List (Labels × S),
      (l.map fun s => s.1.toLabelSet.merge ls).map LabelSet.toLabels =
        l.map fun s => s.1.setAll ls.pairs := by
    intro l
    rw [List.map_map]
    exact List.map_congr_left fun s _ => LabelSet.toLabels_merge s.1 ls
  have hsent : ∀ s ∈ store, (selectors.any fun vs => selectsSent ls vs s.1) →
      selectors.any fun vs => selects vs.labelMatchers (s.1.setAll ls.pairs) := by
    intro s _ h
    obtain ⟨vs, hvs, hsel⟩ := List.any_eq_true.mp h
    exact List.any_eq_true.mpr ⟨vs, hvs, (Bool.and_eq_true_iff.mp hsel).1⟩
  rw [hwanted, series_eq hname ls hparse]
  by_cases htaken : taken (AddLabelClient.filteredMatches ls selectors) = true
  · rw [if_pos htaken, and_iff_right htaken, 
      ← map_filter_eq_iff (fun s => s.1.setAll ls.pairs) hsent]
    simp only [Option.some.injEq, exists_eq_left', hlabels]
  · rw [if_neg htaken]
    refine iff_of_false ?_ fun h => htaken h.1
    rintro ⟨lsets, hnot, -⟩
    cases hnot

end

section

variable [Libraries] {D : Type} (src : Source D ℚ)

theorem backend_vectorSelector (vs : VectorSelector D) (t : Int) :
    (backend src).query (.vectorSelector vs) t =
      if vs.text.check then
        some ((src.instant (lookupTime vs.timestamp vs.originalOffset t)).filter fun s =>
          selects vs.text.parseMetricSelector s.metric)
      else none := by
  simp only [backend, Expr.reparse, VectorSelector.reparse, SelectorText.parseExpr]
  split
  · rfl
  · rfl

theorem backend_aggregateExpr (op : ItemType) (vs : VectorSelector D) (grouping : List String)
    (without : Bool) (t : Int) :
    (backend src).query (.aggregateExpr op (.vectorSelector vs) .noExpr grouping without) t =
      if vs.text.check then
        aggregation op .noValue grouping without
          ((src.instant (lookupTime vs.timestamp vs.originalOffset t)).filter fun s =>
            selects vs.text.parseMetricSelector s.metric)
      else none := by
  simp only [backend, Expr.reparse, VectorSelector.reparse, SelectorText.parseExpr]
  split
  · simp only [Option.map_some, Option.bind_some, eval, evalVectorSelector, Value.toVector,
      Engine.aggregation]
    cases aggregation op .noValue grouping without _ with
    | none => rfl
    | some v => rfl
  · rfl

theorem query_eq_iff {text : SelectorText} {vs : VectorSelector D}
    (hparse : text.parseExpr = some vs) (ls : LabelSet) (t : Int)
    (hname : ∀ s ∈ src.instant t, s.metric.get metricNameLabel ≠ "") :
    (addLabelClient (backend src) ls).query (.vectorSelector vs) t =
        some (((src.instant t).map (addLabels ls)).filter fun s =>
          selects vs.labelMatchers s.metric) ↔
      ((filterSelector ls vs).all fun vs' => vs'.text.check) ∧
        ∀ s ∈ src.instant t, selects vs.labelMatchers (addLabels ls s).metric →
          vs.name = "" ∨ s.metric.get metricNameLabel = vs.name := by
  obtain ⟨-, -, hoffset, htimestamp, -⟩ := labelMatchers_of_parseExpr hparse
  have hsel := fun s (hs : s ∈ src.instant t) => selects_filterSelector ls vs fun _ => hname s hs
  have hquery : (addLabelClient (backend src) ls).query (.vectorSelector vs) t =
      match filterSelector ls vs with
      | none => some []
      | some vs' => ((backend src).query (.vectorSelector vs') t).map (List.map (addLabels ls)) := by
    simp only [addLabelClient, Expr.reparse, reparse_of_parseExpr hparse, Option.map_some,
      Option.bind_some, filterMatcherVisitor]
    cases filterSelector ls vs with
    | none => rfl
    | some vs' => rfl
  rw [hquery, List.filter_map]
  cases hf : filterSelector ls vs with
  | none =>
    have hnone : ∀ s ∈ src.instant t, selects vs.labelMatchers (addLabels ls s).metric = false := by
      intro s hs
      have hloop : filterMatchersLoop ls vs.labelMatchers = none := by
        simpa [filterSelector, filterMatchers] using hf
      rw [addLabels, selects_setAll, hloop]
    rw [List.filter_eq_nil_iff.mpr fun s hs => by simp [hnone s hs]]
    refine iff_of_true rfl ⟨rfl, fun s hs h => ?_⟩
    rw [hnone s hs] at h
    cases h
  | some vs' =>
    have hoffset' : vs'.originalOffset = 0 ∧ vs'.timestamp = none := by
      obtain ⟨filtered, -, rfl⟩ := Option.map_eq_some_iff.mp hf
      exact ⟨hoffset, htimestamp⟩
    have hforwarded : ∀ s ∈ src.instant t, selects vs'.text.parseMetricSelector s.metric =
        (selects vs.labelMatchers (addLabels ls s).metric &&
          (vs.name = "" || s.metric.get metricNameLabel = vs.name)) := by
      intro s hs
      have hs' := hsel s hs
      rw [hf] at hs'
      exact hs'
    have hgone : ∀ s ∈ src.instant t, (selects vs.labelMatchers (addLabels ls s).metric &&
          (vs.name = "" || s.metric.get metricNameLabel = vs.name)) →
        ((fun s => selects vs.labelMatchers s.metric) ∘ addLabels ls) s :=
      fun s _ h => (Bool.and_eq_true_iff.mp h).1
    simp only [backend_vectorSelector, lookupTime, hoffset'.1, hoffset'.2, Option.getD_none,
      Int.sub_zero, Option.all_some]
    by_cases hcheck : vs'.text.check = true
    · rw [if_pos hcheck, Option.map_some, Option.some.injEq, List.filter_congr hforwarded,
        map_filter_eq_iff _ hgone, and_iff_right hcheck]
      simp only [Function.comp_apply, Bool.and_eq_true, Bool.or_eq_true, decide_eq_true_eq]
      exact forall₂_congr fun s _ => ⟨fun h hs => (h hs).2, fun h hs => ⟨hs, h hs⟩⟩
    · rw [if_neg hcheck]
      exact iff_of_false (by simp) fun h => hcheck h.1

end

/-- The requests for series return the labelled series that match, exactly if the server takes what
is left of the selectors, and what is to be returned has the metric names that are sent along. -/
theorem addLabelClient_exact_iff [Libraries] {S D : Type} (ls : LabelSet) :
    (∀ store : List (Labels × S), Named store → ∀ matchers,
      (AddLabelClient.getValue (prometheus store) ls matchers =
          some ((labelled ls store).filter fun s => selects matchers s.1) ↔
        (filterMatchers ls matchers).all fun filtered => !acceptsEmpty filtered)) ∧
    (∀ (src : Source D ℚ) (t : Int), (∀ s ∈ src.instant t, s.metric.get metricNameLabel ≠ "") →
      ∀ (text : SelectorText) (vs : VectorSelector D), text.parseExpr = some vs →
      ((addLabelClient (backend src) ls).query (.vectorSelector vs) t =
          some (((src.instant t).map (addLabels ls)).filter fun s =>
            selects vs.labelMatchers s.metric) ↔
        ((filterSelector ls vs).all fun vs' => vs'.text.check) ∧
          ∀ s ∈ src.instant t, selects vs.labelMatchers (addLabels ls s).metric →
            vs.name = "" ∨ s.metric.get metricNameLabel = vs.name)) ∧
    (∀ store : List (Labels × S), Named store →
      ∀ (texts : List SelectorText) (selectors : List (VectorSelector Empty)),
      allAnswers (texts.map SelectorText.parseExpr) = some selectors →
      ((∃ lsets, AddLabelClient.series (prometheus store) ls texts = some lsets ∧
          lsets.map LabelSet.toLabels =
            ((labelled ls store).filter fun s =>
              selectors.any fun vs => selects vs.labelMatchers s.1).map Prod.fst) ↔
        taken (AddLabelClient.filteredMatches ls selectors) ∧
        ∀ s ∈ store, (selectors.any fun vs => selects vs.labelMatchers (s.1.setAll ls.pairs)) →
          selectors.any fun vs => selectsSent ls vs s.1)) :=
  ⟨fun _ hname matchers => getValue_eq_iff hname ls matchers,
    fun src t hname _ _ hparse => query_eq_iff src hparse ls t hname,
    fun _ hname _ _ hparse => series_eq_iff hname ls hparse⟩

section

attribute [local instance] sortingLibraries

/-- `{job="api"}`, where `job="api"` is added. -/
theorem addLabelClient_exact_job :
    AddLabelClient.getValue (prometheus [(Labels.empty.set metricNameLabel "up", ())])
        ⟨[⟨"job", "api"⟩], ascending_singleton _⟩ [newMatcher .matchEqual "job" "api"] =
      some [((Labels.empty.set metricNameLabel "up").set "job" "api", ())] ∧
    (addLabelClient (backend ⟨fun _ => [⟨Labels.empty.set metricNameLabel "up", 1⟩], fun _ _ => [],
        fun _ _ => none, fun _ => 60⟩) ⟨[⟨"job", "api"⟩], ascending_singleton _⟩).query
        (.vectorSelector (D := Empty) ⟨"", [newMatcher .matchEqual "job" "api"], 0, none, 0, none⟩) 0 =
      some [⟨(Labels.empty.set metricNameLabel "up").set "job" "api", 1⟩] ∧
    ∃ lsets, AddLabelClient.series (prometheus [(Labels.empty.set metricNameLabel "up", ())])
        ⟨[⟨"job", "api"⟩], ascending_singleton _⟩
        [⟨"", [newMatcher .matchEqual "job" "api"]⟩] = some lsets ∧
      lsets.map LabelSet.toLabels = [(Labels.empty.set metricNameLabel "up").set "job" "api"] := by
  obtain ⟨hget, hquery, hseries⟩ :=
    addLabelClient_exact_iff (S := Unit) (D := Empty) ⟨[⟨"job", "api"⟩], ascending_singleton _⟩
  refine ⟨?_, ?_, ?_⟩
  · exact ((hget [(Labels.empty.set metricNameLabel "up", ())] (by decide +kernel) _).mpr
      (by decide +kernel)).trans (by decide +kernel)
  · exact ((hquery ⟨fun _ => [⟨Labels.empty.set metricNameLabel "up", 1⟩], fun _ _ => [],
        fun _ _ => none, fun _ => 60⟩ 0 (by decide +kernel)
        ⟨"", [newMatcher .matchEqual "job" "api"]⟩ _ rfl).mpr
        ⟨by decide +kernel, fun _ _ _ => Or.inl rfl⟩).trans (by decide +kernel)
  · obtain ⟨lsets, hsome, hlabels⟩ :=
      (hseries [(Labels.empty.set metricNameLabel "up", ())] (by decide +kernel)
        [⟨"", [newMatcher .matchEqual "job" "api"]⟩] _ rfl).mpr
        ⟨by decide +kernel, by decide +kernel⟩
    exact ⟨lsets, hsome, hlabels.trans (by decide +kernel)⟩

/-- `{job="api",env!="prod"}`, where `job="api"` is added: the server does not take `{env!="prod"}`. -/
theorem addLabelClient_refused :
    AddLabelClient.getValue (prometheus [(Labels.empty.set metricNameLabel "up", ())])
        ⟨[⟨"job", "api"⟩], ascending_singleton _⟩
        [newMatcher .matchEqual "job" "api", newMatcher .matchNotEqual "env" "prod"] = none ∧
      selects [newMatcher .matchEqual "job" "api", newMatcher .matchNotEqual "env" "prod"]
        ((Labels.empty.set metricNameLabel "up").setAll [⟨"job", "api"⟩]) := by
  decide +kernel

end

end Promclient
end Proxeus
