import Proxeus.Promclient.LabelSpec
import Proxeus.Promclient.Request

/-!
# Promclient.InjectMatchers

`InjectMatchersClient` of `inject_matchers.go`, by what its methods send downstream, and the scope of
what is sent: every selector is to be the caller's together with the injected matchers
(`send_conjoins_iff`). The methods send a changed request, but for `QueryExemplars`, which is the one
of the wrapped API; and a selector that has its metric name outside of the braces is not read
downstream once a matcher for the name has been added to it.
-/

namespace Proxeus
namespace Promclient

open Promql

/-- The matchers that `GetInjectMatchers` has parsed. -/
structure InjectMatchersClient where
  matchers : List Matcher
  parsed : matchers.map Matcher.reparse = matchers

/-- The comparison in `appendMatchers`. -/
def sameMatcher (existing m : Matcher) : Bool :=
  existing.type = m.type && existing.name = m.name && existing.value = m.value

def appendMatchers (matchers : List Matcher) : List Matcher → List Matcher
  | [] => matchers
  | m :: toAdd =>
    appendMatchers
      (if matchers.any fun existing => sameMatcher existing m then matchers else matchers ++ [m])
      toAdd

/-- `injectMatchersVisitor.Visit` of a selector. -/
def injectSelector {D : Type} (matchers : List Matcher) (vs : VectorSelector D) :
    VectorSelector D :=
  { vs with labelMatchers := appendMatchers vs.labelMatchers matchers }

namespace InjectMatchersClient

variable (c : InjectMatchersClient)

def injectIntoMatch (text : SelectorText) : SelectorText :=
  ⟨"", appendMatchers text.parseMetricSelector c.matchers⟩

def injectIntoMatches (texts : List SelectorText) : List SelectorText :=
  if texts.length = 0 then [⟨"", c.matchers⟩] else texts.map c.injectIntoMatch

section

variable [Regexp] {D : Type}

def injectIntoQuery (query : Expr D) : Option (Expr D) :=
  query.reparse.map (Expr.mapSelectors (injectSelector c.matchers))

/-- What a method calls on the wrapped API, if it does. -/
def send : Request D → Option (Request D)
  | .labelNames matchers startTime endTime =>
    some (.labelNames (c.injectIntoMatches matchers) startTime endTime)
  | .labelValues label matchers startTime endTime =>
    some (.labelValues label (c.injectIntoMatches matchers) startTime endTime)
  | .query query ts => (c.injectIntoQuery query).map (.query · ts)
  | .queryRange query start stop step => (c.injectIntoQuery query).map (.queryRange · start stop step)
  | .series matchTexts startTime endTime =>
    some (.series (c.injectIntoMatches matchTexts) startTime endTime)
  | .getValue start stop matchers => some (.getValue start stop (appendMatchers matchers c.matchers))
  -- methods of the wrapped API
  | .metadata metric limit => some (.metadata metric limit)
  | .queryExemplars query startTime endTime => some (.queryExemplars query startTime endTime)

end

end InjectMatchersClient

/-! ## What is to be sent -/

namespace Request

variable [Regexp] {D : Type}

/-- A selector is sent as the caller's together with the injected matchers. -/
def Conjoins (matchers caller sent : List Matcher) : Prop :=
  ∀ metric, selects sent metric = (selects caller metric && selects matchers metric)

/-- Where a selector has a metric name outside of its braces, the injected matchers have no other. -/
def Named (matchers : List Matcher) (query : Expr D) : Prop :=
  ∀ e, query.reparse = some e → ∀ vs ∈ e.selectors, vs.name ≠ "" →
    ∀ m ∈ matchers, m.name = metricNameLabel → m.type = .matchEqual ∧ m.value = vs.name

/-- The requests that are sent with the injected matchers. -/
def Reached (matchers : List Matcher) : Request D → Prop
  | query e _ => Named matchers e
  | queryRange e _ _ _ => Named matchers e
  | queryExemplars e _ _ =>
    ∀ caller ∈ scopeOfQuery e, ∀ metric, selects caller metric → selects matchers metric
  | _ => True

end Request

/-! ## Appending -/

theorem sameMatcher_iff {existing m : Matcher} :
    sameMatcher existing m = true ↔
      existing.type = m.type ∧ existing.name = m.name ∧ existing.value = m.value := by
  simp [sameMatcher, and_assoc]

theorem accepts_of_same [Regexp] {existing m : Matcher} (h : sameMatcher existing m = true)
    (s : String) : existing.accepts s = m.accepts s := by
  obtain ⟨htype, -, hvalue⟩ := sameMatcher_iff.mp h
  rw [Matcher.accepts, Matcher.accepts, htype, hvalue]

/-- The matchers are there. -/
def Present (toAdd matchers : List Matcher) : Prop :=
  ∀ m ∈ toAdd, ∃ existing ∈ matchers, sameMatcher existing m = true

theorem subset_appendMatchers (matchers toAdd : List Matcher) :
    matchers ⊆ appendMatchers matchers toAdd := by
  induction toAdd generalizing matchers with
  | nil => exact List.Subset.refl _
  | cons m toAdd ih =>
    rw [appendMatchers]
    refine List.Subset.trans ?_ (ih _)
    split
    · exact List.Subset.refl _
    · exact List.subset_append_left _ _

theorem mem_appendMatchers {matchers toAdd : List Matcher} {m : Matcher}
    (h : m ∈ appendMatchers matchers toAdd) : m ∈ matchers ∨ m ∈ toAdd := by
  induction toAdd generalizing matchers with
  | nil => exact .inl h
  | cons added toAdd ih =>
    rw [appendMatchers] at h
    rcases ih h with hm | hm
    · split at hm
      · exact .inl hm
      · rcases List.mem_append.mp hm with hm | hm
        · exact .inl hm
        · exact .inr (List.mem_singleton.mp hm ▸ List.mem_cons_self)
    · exact .inr (List.mem_cons_of_mem _ hm)

theorem present_appendMatchers (matchers toAdd : List Matcher) :
    Present toAdd (appendMatchers matchers toAdd) := by
  induction toAdd generalizing matchers with
  | nil => exact fun m hm => absurd hm List.not_mem_nil
  | cons m toAdd ih =>
    intro m' hm'
    rw [appendMatchers]
    rcases List.mem_cons.mp hm' with rfl | hm'
    · split
      · rename_i hany
        obtain ⟨existing, hmem, hsame⟩ := List.any_eq_true.mp hany
        exact ⟨existing, subset_appendMatchers _ _ hmem, hsame⟩
      · exact ⟨m', subset_appendMatchers _ _ (List.mem_append_right _ List.mem_cons_self),
          sameMatcher_iff.mpr ⟨rfl, rfl, rfl⟩⟩
    · exact ih _ m' hm'

theorem appendMatchers_of_present {toAdd matchers : List Matcher} (h : Present toAdd matchers) :
    appendMatchers matchers toAdd = matchers := by
  induction toAdd with
  | nil => rfl
  | cons m toAdd ih =>
    have hany : (matchers.any fun existing => sameMatcher existing m) = true := by
      obtain ⟨existing, hmem, hsame⟩ := h m List.mem_cons_self
      exact List.any_eq_true.mpr ⟨existing, hmem, hsame⟩
    rw [appendMatchers, if_pos hany, ih fun m' hm' => h m' (List.mem_cons_of_mem m hm')]

section

variable [Regexp] {D : Type}

theorem selects_appendMatchers (matchers toAdd : List Matcher) (metric : Labels) :
    selects (appendMatchers matchers toAdd) metric =
      (selects matchers metric && selects toAdd metric) := by
  rw [Bool.eq_iff_iff, Bool.and_eq_true]
  simp only [selects, List.all_eq_true]
  constructor
  · intro h
    refine ⟨fun m hm => h m (subset_appendMatchers _ _ hm), fun m hm => ?_⟩
    obtain ⟨existing, hmem, hsame⟩ := present_appendMatchers matchers toAdd m hm
    rw [← accepts_of_same hsame, ← (sameMatcher_iff.mp hsame).2.1]
    exact h existing hmem
  · rintro ⟨hcaller, hadded⟩ m hm
    rcases mem_appendMatchers hm with hm | hm
    · exact hcaller m hm
    · exact hadded m hm

omit [Regexp] in
/-- What the printer leaves out is the matcher for the name outside of the braces. -/
theorem mem_text_braces {vs : VectorSelector D} {m : Matcher} :
    m ∈ vs.text.braces ↔ m ∈ vs.labelMatchers ∧
      (vs.name ≠ "" → m.name = metricNameLabel → m.type = .matchEqual → m.value ≠ vs.name) := by
  simp only [VectorSelector.text, List.mem_filter, Bool.not_eq_true', Bool.and_eq_false_imp,
    Bool.and_eq_true, decide_eq_true_eq, decide_eq_false_iff_not, and_imp]
  tauto

omit [Regexp] in
theorem present_parseMetricSelector {toAdd : List Matcher} {vs : VectorSelector D}
    (h : Present toAdd vs.labelMatchers) : Present toAdd vs.text.parseMetricSelector := by
  intro m hm
  obtain ⟨existing, hmem, hsame⟩ := h m hm
  by_cases hbraces : existing ∈ vs.text.braces
  · exact ⟨existing.reparse, List.mem_append_left _ (List.mem_map_of_mem hbraces), hsame⟩
  · simp only [mem_text_braces, hmem, true_and, not_forall, not_not] at hbraces
    obtain ⟨hne, hname, htype, hvalue⟩ := hbraces
    refine ⟨nameMatcher vs.name, List.mem_append_right _ ?_, ?_⟩
    · rw [if_neg (by exact hne)]
      exact List.mem_cons_self
    · rw [sameMatcher_iff] at hsame ⊢
      exact ⟨(htype.symm.trans hsame.1 :), (hname.symm.trans hsame.2.1 :),
        (hvalue.symm.trans hsame.2.2 :)⟩

/-! ## A selector of a query -/

theorem reparse_of_reparse {vs vs' : VectorSelector D} (h : vs.reparse = some vs') :
    vs'.reparse = some vs' := by
  obtain ⟨parsed, hparsed, rfl⟩ := Option.map_eq_some_iff.mp h
  obtain ⟨parsed', hparsed', heq⟩ := Option.map_eq_some_iff.mp (reparse_of_parseExpr hparsed)
  obtain ⟨-, -, hoffset, htimestamp, -⟩ := labelMatchers_of_parseExpr hparsed
  obtain ⟨-, -, hoffset', htimestamp', -⟩ := labelMatchers_of_parseExpr hparsed'
  have hself : parsed' = parsed := by
    rw [← heq]
    simp only [hoffset, htimestamp, ← hoffset', ← htimestamp']
  rw [VectorSelector.reparse]
  exact Option.map_eq_some_iff.mpr ⟨parsed', hparsed', by rw [hself]⟩

/-- A parsed selector is printed as a text that is taken, and read as it is. -/
theorem parsed_of_reparse {e e' : Expr D} (h : e.reparse = some e') :
    ∀ vs ∈ e'.selectors, vs.text.check = true ∧ vs.text.parseMetricSelector = vs.labelMatchers := by
  intro vs hvs
  obtain ⟨vs₀, -, hvs₀⟩ := exists_of_mem_selectors h hvs
  have hself := reparse_of_reparse hvs₀
  refine ⟨?_, (labelMatchers_of_reparse hself).2.symm⟩
  rw [← isSome_reparse_selector, hself, Option.isSome_some]

/-- What has been parsed is read as it is. -/
theorem reparse_parsed {e e' : Expr D} (h : e.reparse = some e') : e'.reparse = some e' := by
  induction e generalizing e' with
  | vectorSelector vs =>
    obtain ⟨vs', hvs, rfl⟩ := Option.map_eq_some_iff.mp h
    rw [Expr.reparse, reparse_of_reparse hvs, Option.map_some]
  | matrixSelector vs range =>
    obtain ⟨vs', hvs, rfl⟩ := Option.map_eq_some_iff.mp h
    rw [Expr.reparse, reparse_of_reparse hvs, Option.map_some]
  | subqueryExpr expr range originalOffset offset step timestamp ih =>
    obtain ⟨expr', hexpr, rfl⟩ := Option.map_eq_some_iff.mp h
    rw [Expr.reparse, ih hexpr, Option.map_some]
  | call func args ih =>
    obtain ⟨args', hargs, rfl⟩ := Option.map_eq_some_iff.mp h
    rw [Expr.reparse, ih hargs, Option.map_some]
  | aggregateExpr op expr param grouping without ihe ihp =>
    obtain ⟨expr', hexpr, h⟩ := Option.bind_eq_some_iff.mp h
    obtain ⟨param', hparam, rfl⟩ := Option.map_eq_some_iff.mp h
    rw [Expr.reparse, ihe hexpr, Option.bind_some, ihp hparam, Option.map_some]
  | binaryExpr op lhs rhs ihl ihr =>
    obtain ⟨lhs', hlhs, h⟩ := Option.bind_eq_some_iff.mp h
    obtain ⟨rhs', hrhs, rfl⟩ := Option.map_eq_some_iff.mp h
    rw [Expr.reparse, ihl hlhs, Option.bind_some, ihr hrhs, Option.map_some]
  | unaryExpr op expr ih =>
    obtain ⟨expr', hexpr, rfl⟩ := Option.map_eq_some_iff.mp h
    rw [Expr.reparse, ih hexpr, Option.map_some]
  | numberLiteral val =>
    cases h
    rfl
  | stringLiteral val =>
    cases h
    rfl
  | parenExpr expr ih =>
    obtain ⟨expr', hexpr, rfl⟩ := Option.map_eq_some_iff.mp h
    rw [Expr.reparse, ih hexpr, Option.map_some]
  | stepInvariantExpr expr ih => exact ih h
  | noExpr =>
    cases h
    rfl
  | argument head tail ihh iht =>
    obtain ⟨head', hhead, h⟩ := Option.bind_eq_some_iff.mp h
    obtain ⟨tail', htail, rfl⟩ := Option.map_eq_some_iff.mp h
    rw [Expr.reparse, ihh hhead, Option.bind_some, iht htail, Option.map_some]

theorem acceptsEmpty_eq_selects (matchers : List Matcher) :
    acceptsEmpty matchers = selects matchers Labels.empty := rfl

/-- Reading a selector that the matchers have been added to. -/
theorem selects_injected {vs : VectorSelector D}
    (hparsed : vs.text.parseMetricSelector = vs.labelMatchers) (matchers : List Matcher)
    (metric : Labels) :
    selects (injectSelector matchers vs).text.parseMetricSelector metric =
      (selects vs.labelMatchers metric && selects matchers metric) := by
  have hname := selects_text vs metric
  rw [hparsed] at hname
  rw [selects_text, show (injectSelector matchers vs).labelMatchers =
    appendMatchers vs.labelMatchers matchers from rfl, selects_appendMatchers,
    show (injectSelector matchers vs).name = vs.name from rfl]
  cases hsel : selects vs.labelMatchers metric with
  | false => simp only [Bool.false_and]
  | true =>
    rw [hsel, Bool.true_and] at hname
    rw [← hname, Bool.and_true]

theorem check_injected_iff {vs : VectorSelector D} (hcheck : vs.text.check = true)
    (hparsed : vs.text.parseMetricSelector = vs.labelMatchers) (matchers : List Matcher) :
    (injectSelector matchers vs).text.check = true ↔
      (vs.name ≠ "" → ∀ m ∈ matchers, m.name = metricNameLabel →
        m.type = .matchEqual ∧ m.value = vs.name) := by
  rw [SelectorText.check, Bool.and_eq_true, Bool.not_eq_true', Bool.not_eq_true'] at hcheck
  have hempty : acceptsEmpty (injectSelector matchers vs).text.parseMetricSelector = false := by
    have hno : selects vs.labelMatchers Labels.empty = false := by
      rw [← hparsed, ← acceptsEmpty_eq_selects]
      exact hcheck.2
    rw [acceptsEmpty_eq_selects, selects_injected hparsed, hno, Bool.false_and]
  have hname : (injectSelector matchers vs).text.name = vs.name := rfl
  rw [SelectorText.check, hempty, hname, Bool.not_false, Bool.and_true, Bool.not_eq_true',
    Bool.and_eq_false_imp, decide_eq_true_eq]
  refine imp_congr_right fun hne => ?_
  simp only [List.any_eq_false, decide_eq_true_eq]
  constructor
  · intro hno m hm hmetric
    obtain ⟨existing, hmem, hsame⟩ := present_appendMatchers vs.labelMatchers matchers m hm
    obtain ⟨htype, hn, hvalue⟩ := sameMatcher_iff.mp hsame
    have hout : existing ∉ (injectSelector matchers vs).text.braces :=
      fun hin => hno existing hin (hn.trans hmetric)
    rw [mem_text_braces] at hout
    by_contra hother
    refine hout ⟨hmem, fun _ _ ht hv => hother ⟨htype ▸ ht, hvalue ▸ hv⟩⟩
  · intro hall m hm hmetric
    obtain ⟨hmem, hkept⟩ := mem_text_braces.mp hm
    rcases mem_appendMatchers hmem with hin | hin
    · have hout := Bool.and_eq_false_imp.mp hcheck.1 (decide_eq_true hne)
      rw [List.any_eq_false] at hout
      exact hout m (mem_text_braces.mpr ⟨hin, hkept⟩) (decide_eq_true hmetric)
    · obtain ⟨htype, hvalue⟩ := hall m hin hmetric
      exact hkept hne hmetric htype hvalue

/-! ## Queries -/

section

variable {query e : Expr D} {matchers : List Matcher}

theorem isSome_injected_iff (hquery : query.reparse = some e) :
    (e.mapSelectors (injectSelector matchers)).reparse.isSome = true ↔
      Request.Named matchers query := by
  have hparsed := parsed_of_reparse hquery
  rw [isSome_reparse, Expr.selectors_mapSelectors, List.all_map, List.all_eq_true, Request.Named,
    hquery]
  simp only [Option.some.injEq, forall_eq', Function.comp_apply]
  refine forall₂_congr fun vs hvs => ?_
  exact check_injected_iff (hparsed vs hvs).1 (hparsed vs hvs).2 matchers

theorem conjoins_injected (hquery : query.reparse = some e) (hnamed : Request.Named matchers query) :
    List.Forall₂ (Request.Conjoins matchers) (Request.scopeOfQuery query)
      (Request.scopeOfQuery (e.mapSelectors (injectSelector matchers))) := by
  obtain ⟨sent, hsent⟩ := Option.isSome_iff_exists.mp ((isSome_injected_iff hquery).mpr hnamed)
  have hread := forall₂_selectors_of_reparse hsent
  rw [Expr.selectors_mapSelectors, List.forall₂_map_left_iff] at hread
  simp only [Request.scopeOfQuery, hquery, hsent, List.forall₂_map_left_iff,
    List.forall₂_map_right_iff]
  have hboth := (List.forall₂_and_left _ _).mpr ⟨parsed_of_reparse hquery, hread⟩
  refine hboth.imp fun vs vs' hvs metric => ?_
  obtain ⟨⟨-, hself⟩, hinjected⟩ := hvs
  rw [(labelMatchers_of_reparse hinjected).2, selects_injected hself]

/-- What is not read downstream has no selector left. -/
theorem named_of_conjoins (hquery : query.reparse = some e)
    (h : List.Forall₂ (Request.Conjoins matchers) (Request.scopeOfQuery query)
      (Request.scopeOfQuery (e.mapSelectors (injectSelector matchers)))) :
    Request.Named matchers query := by
  cases hsent : (e.mapSelectors (injectSelector matchers)).reparse with
  | some sent => exact (isSome_injected_iff hquery).mp (by rw [hsent, Option.isSome_some])
  | none =>
    simp only [Request.scopeOfQuery, hquery, hsent, List.forall₂_nil_right_iff,
      List.map_eq_nil_iff] at h
    intro e' he' vs hvs
    rw [hquery, Option.some.injEq] at he'
    rw [← he', h] at hvs
    exact absurd hvs List.not_mem_nil

/-- A query that has been injected into is the same after another time. -/
theorem injectIntoQuery_injected (c : InjectMatchersClient) (e : Expr D) :
    (c.injectIntoQuery (e.mapSelectors (injectSelector c.matchers))).bind Expr.reparse =
      (e.mapSelectors (injectSelector c.matchers)).reparse := by
  rw [InjectMatchersClient.injectIntoQuery]
  cases hsent : (e.mapSelectors (injectSelector c.matchers)).reparse with
  | none => rfl
  | some sent =>
    have hself : sent.mapSelectors (injectSelector c.matchers) = sent := by
      refine Expr.mapSelectors_eq_self fun vs' hvs' => ?_
      obtain ⟨injected, hmem, hread⟩ := exists_of_mem_selectors hsent hvs'
      rw [Expr.selectors_mapSelectors] at hmem
      obtain ⟨vs, -, rfl⟩ := List.mem_map.mp hmem
      have hpresent : Present c.matchers vs'.labelMatchers := by
        rw [(labelMatchers_of_reparse hread).2]
        exact present_parseMetricSelector (present_appendMatchers _ _)
      rw [injectSelector, appendMatchers_of_present hpresent]
    rw [Option.map_some, hself, Option.bind_some, reparse_parsed hsent]

/-! ## Texts -/

theorem conjoins_injectIntoMatches (c : InjectMatchersClient) (texts : List SelectorText) :
    List.Forall₂ (Request.Conjoins c.matchers) (Request.scopeOfTexts texts)
      (Request.scopeOfTexts (c.injectIntoMatches texts)) := by
  have hinjected : ∀ matchers metric,
      selects (SelectorText.parseMetricSelector ⟨"", appendMatchers matchers c.matchers⟩) metric =
        (selects matchers metric && selects c.matchers metric) := fun matchers metric => by
    rw [selects_braces, selects_appendMatchers]
  rw [InjectMatchersClient.injectIntoMatches, Request.scopeOfTexts, Request.scopeOfTexts]
  cases texts with
  | nil =>
    refine .cons (fun metric => ?_) .nil
    rw [selects_braces]
    rfl
  | cons text texts =>
    simp only [List.length_cons, Nat.succ_ne_zero, if_false, List.map_eq_nil_iff, reduceCtorEq,
      List.forall₂_map_left_iff, List.forall₂_map_right_iff]
    exact List.forall₂_same.mpr fun text _ metric => hinjected _ metric

omit [Regexp] in
theorem parseMetricSelector_of_parsed {matchers : List Matcher}
    (h : ∀ m ∈ matchers, m.reparse = m) :
    SelectorText.parseMetricSelector ⟨"", matchers⟩ = matchers := by
  rw [SelectorText.parseMetricSelector, if_pos rfl, List.append_nil, List.map_congr_left h,
    List.map_id']

omit [Regexp] in
theorem reparse_of_mem_parseMetricSelector {text : SelectorText} {m : Matcher}
    (h : m ∈ text.parseMetricSelector) : m.reparse = m := by
  rw [SelectorText.parseMetricSelector, List.mem_append] at h
  rcases h with h | h
  · obtain ⟨m', -, rfl⟩ := List.mem_map.mp h
    rfl
  · split at h
    · exact absurd h List.not_mem_nil
    · rw [List.mem_singleton.mp h]
      rfl

namespace InjectMatchersClient

variable (c : InjectMatchersClient)

omit [Regexp] in
theorem reparse_of_mem {m : Matcher} (h : m ∈ c.matchers) : m.reparse = m := by
  have hmap : c.matchers.map Matcher.reparse = c.matchers.map id := by rw [c.parsed, List.map_id]
  exact List.map_inj_left.mp hmap m h

omit [Regexp] in
theorem injectIntoMatch_of_present {matchers : List Matcher} (h : ∀ m ∈ matchers, m.reparse = m)
    (hpresent : Present c.matchers matchers) : c.injectIntoMatch ⟨"", matchers⟩ = ⟨"", matchers⟩ := by
  rw [injectIntoMatch, parseMetricSelector_of_parsed h, appendMatchers_of_present hpresent]

omit [Regexp] in
theorem injectIntoMatches_injected (texts : List SelectorText) :
    c.injectIntoMatches (c.injectIntoMatches texts) = c.injectIntoMatches texts := by
  have honce : ∀ text ∈ c.injectIntoMatches texts, c.injectIntoMatch text = text := by
    intro text htext
    rw [injectIntoMatches] at htext
    split at htext
    · rw [List.mem_singleton.mp htext]
      exact c.injectIntoMatch_of_present (fun _ => c.reparse_of_mem) fun m hm =>
        ⟨m, hm, sameMatcher_iff.mpr ⟨rfl, rfl, rfl⟩⟩
    · obtain ⟨caller, -, rfl⟩ := List.mem_map.mp htext
      refine c.injectIntoMatch_of_present (fun m hm => ?_) (present_appendMatchers _ _)
      rcases mem_appendMatchers hm with hm | hm
      · exact reparse_of_mem_parseMetricSelector hm
      · exact c.reparse_of_mem hm
  have hne : (c.injectIntoMatches texts).length ≠ 0 := by
    rw [injectIntoMatches]
    split
    · exact Nat.one_ne_zero
    · rwa [List.length_map]
  rw [injectIntoMatches, if_neg hne, List.map_congr_left honce, List.map_id']

/-! ## Every request -/

/-- What is asked of a method, for a request that is sent. -/
def Scoped (request : Request D) : Prop :=
  (∀ sent, c.send request = some sent →
    List.Forall₂ (Request.Conjoins c.matchers) request.scope sent.scope) ∧
  ((c.send request).bind c.send).bind Request.read = (c.send request).bind Request.read

theorem send_texts {request sent : Request D} (hsend : c.send request = some sent)
    (hscope : List.Forall₂ (Request.Conjoins c.matchers) request.scope sent.scope)
    (hagain : c.send sent = some sent) : c.Scoped request := by
  refine ⟨fun sent' hsent' => ?_, ?_⟩
  · rw [hsend, Option.some.injEq] at hsent'
    exact hsent' ▸ hscope
  · rw [hsend, Option.bind_some, hagain]

/-- Both methods that are sent a query to evaluate. -/
theorem send_query_iff {query : Expr D} {request : Expr D → Request D}
    (hsend : ∀ e, c.send (request e) = (c.injectIntoQuery e).map request)
    (hscope : ∀ e, (request e).scope = Request.scopeOfQuery e)
    (hread : ∀ e, (request e).read = e.reparse.map request) :
    c.Scoped (request query) ↔ Request.Named c.matchers query := by
  rw [Scoped, hsend, injectIntoQuery]
  cases hquery : query.reparse with
  | none => simp [Request.Named, hquery]
  | some e =>
    simp only [Option.map_some, Option.some.injEq, forall_eq', Option.bind_some, hscope, hsend,
      hread]
    constructor
    · rintro ⟨hconjoins, -⟩
      exact named_of_conjoins hquery hconjoins
    · intro hnamed
      refine ⟨conjoins_injected hquery hnamed, ?_⟩
      have hagain := congrArg (Option.map request) (injectIntoQuery_injected c e)
      rw [Option.map_bind] at hagain
      rw [← hagain, Option.bind_map]
      exact Option.bind_congr fun sent _ => hread sent

/-- A request is sent in the injected scope, and no differently by two clients than by one, if its
selectors can be read with the injected matchers; one for exemplars, if it has them already. -/
theorem send_conjoins_iff (request : Request D) :
    c.Scoped request ↔ request.Reached c.matchers := by
  cases request with
  | labelNames matchers startTime endTime =>
    refine iff_of_true (c.send_texts rfl (conjoins_injectIntoMatches c matchers) ?_) trivial
    rw [send, injectIntoMatches_injected]
  | labelValues label matchers startTime endTime =>
    refine iff_of_true (c.send_texts rfl (conjoins_injectIntoMatches c matchers) ?_) trivial
    rw [send, injectIntoMatches_injected]
  | query query ts =>
    exact @send_query_iff _ _ c query (fun e => .query e ts) (fun _ => rfl) (fun _ => rfl)
      fun _ => rfl
  | queryRange query start stop step =>
    exact @send_query_iff _ _ c query (fun e => .queryRange e start stop step) (fun _ => rfl)
      (fun _ => rfl) fun _ => rfl
  | series matchTexts startTime endTime =>
    refine iff_of_true (c.send_texts rfl (conjoins_injectIntoMatches c matchTexts) ?_) trivial
    rw [send, injectIntoMatches_injected]
  | getValue start stop matchers =>
    refine iff_of_true (c.send_texts rfl ?_ ?_) trivial
    · exact .cons (selects_appendMatchers matchers c.matchers) .nil
    · rw [send, appendMatchers_of_present (present_appendMatchers _ _)]
  | metadata metric limit => exact iff_of_true (c.send_texts rfl .nil rfl) trivial
  | queryExemplars query startTime endTime =>
    simp only [Scoped, send, Option.some.injEq, forall_eq', Option.bind_some, and_true,
      Request.scope, Request.Reached, List.forall₂_same, Request.Conjoins]
    refine forall₂_congr fun caller _ => forall_congr' fun metric => ?_
    cases selects caller metric <;> simp

end InjectMatchersClient

end

end

/-- The matcher `cluster="A"`, to be injected. -/
def clusterClient : InjectMatchersClient := ⟨[newMatcher .matchEqual "cluster" "A"], rfl⟩

/-- The exemplars of `up` are asked for in every cluster. -/
theorem send_queryExemplars_up :
    let up : VectorSelector Empty := ⟨"up", [nameMatcher "up"], 0, none, 0, none⟩
    let request : Request Empty := .queryExemplars (.vectorSelector up) 0 10
    @InjectMatchersClient.send clusterClient literalRegexp _ request = some request ∧
      ¬ List.Forall₂ (@Request.Conjoins literalRegexp clusterClient.matchers)
        (@Request.scope literalRegexp _ request) (@Request.scope literalRegexp _ request) := by
  intro up request
  refine ⟨rfl, fun h => ?_⟩
  have hup : @Request.scope literalRegexp _ request = [[nameMatcher "up"]] := by
    decide +kernel
  rw [hup] at h
  cases h with
  | cons h _ =>
    have hother := h ((Labels.empty.set metricNameLabel "up").set "cluster" "B")
    revert hother
    decide +kernel

end Promclient
end Proxeus
