import Proxeus.Proxystorage.Sendable

/-!
# Proxystorage.Fidelity

Native histograms in a query. JSON answers lose a part of them, so that a walk sends nothing that
touches them (`histogramFinder`) and puts no answer into the tree that has one
(`containsLossyHistogram`); the engine then fetches their samples itself, by remote read.

`walk_fidelity`: a walk refuses a query exactly if it touches histograms and a group has neither remote
read nor `allow_lossy`; otherwise each selector of histograms is left in its place, without data, and no
data in the tree has a histogram.
-/

namespace Proxeus
namespace Proxystorage

open Promclient Promql Lib

section

variable {V : Type}

/-- The selector, if the engine has to fetch its histograms. -/
def pendingSelector (isHistogramName : String → Bool) (inside : Bool)
    (vs : VectorSelector (Response V)) : List (VectorSelector (Response V)) :=
  if vs.unexpandedSeriesSet.isNone && (inside || isHistogramName vs.name) then [vs] else []

/-- The selectors of histograms without data, in order: those of a metric that is known for
histograms, and those below a function of histograms, which the tree may be itself (`inside`). -/
def pendingHistograms (isHistogramName : String → Bool) :
    Bool → Expr (Response V) → List (VectorSelector (Response V))
  | inside, .vectorSelector vs => pendingSelector isHistogramName inside vs
  | inside, .matrixSelector vs _ => pendingSelector isHistogramName inside vs
  | inside, .subqueryExpr expr _ _ _ _ _ => pendingHistograms isHistogramName inside expr
  | inside, .call func args =>
    pendingHistograms isHistogramName (inside || histogramOnlyFuncs.contains func) args
  | inside, .aggregateExpr _ expr param _ _ =>
    pendingHistograms isHistogramName inside expr ++ pendingHistograms isHistogramName inside param
  | inside, .binaryExpr _ lhs rhs =>
    pendingHistograms isHistogramName inside lhs ++ pendingHistograms isHistogramName inside rhs
  | inside, .unaryExpr _ expr => pendingHistograms isHistogramName inside expr
  | inside, .parenExpr expr => pendingHistograms isHistogramName inside expr
  | inside, .stepInvariantExpr expr => pendingHistograms isHistogramName inside expr
  | inside, .argument head tail =>
    pendingHistograms isHistogramName inside head ++ pendingHistograms isHistogramName inside tail
  | _, _ => []

/-- The data that the selectors of a tree have. -/
def fetched : Expr (Response V) → List (Response V)
  | .vectorSelector vs => vs.unexpandedSeriesSet.toList
  | .matrixSelector vs _ => vs.unexpandedSeriesSet.toList
  | .subqueryExpr expr _ _ _ _ _ => fetched expr
  | .call _ args => fetched args
  | .aggregateExpr _ expr param _ _ => fetched expr ++ fetched param
  | .binaryExpr _ lhs rhs => fetched lhs ++ fetched rhs
  | .unaryExpr _ expr => fetched expr
  | .parenExpr expr => fetched expr
  | .stepInvariantExpr expr => fetched expr
  | .argument head tail => fetched head ++ fetched tail
  | _ => []

/-- Histograms are still to be fetched as before, and new data has none. -/
structure Faithful (isHistogramName : String → Bool) (inside : Bool) (e e' : Expr (Response V)) :
    Prop where
  pending : pendingHistograms isHistogramName inside e' = pendingHistograms isHistogramName inside e
  data : ∀ d ∈ fetched e', d ∈ fetched e ∨ containsLossyHistogram d = false

variable {isHistogramName : String → Bool} {inside : Bool} {e e' e'' : Expr (Response V)}

theorem Faithful.refl (e : Expr (Response V)) : Faithful isHistogramName inside e e :=
  ⟨rfl, fun _ h => .inl h⟩

theorem Faithful.trans (h : Faithful isHistogramName inside e e')
    (h' : Faithful isHistogramName inside e' e'') : Faithful isHistogramName inside e e'' where
  pending := h'.pending.trans h.pending
  data d hd := (h'.data d hd).elim (h.data d) .inr

theorem Faithful.append {f f' : Expr (Response V)} {inside' : Bool}
    (node : Expr (Response V) → Expr (Response V) → Expr (Response V))
    (hpending : ∀ a b, pendingHistograms isHistogramName inside (node a b) =
      pendingHistograms isHistogramName inside' a ++ pendingHistograms isHistogramName inside' b)
    (hdata : ∀ a b, fetched (node a b) = fetched a ++ fetched b)
    (h : Faithful isHistogramName inside' e e') (h' : Faithful isHistogramName inside' f f') :
    Faithful isHistogramName inside (node e f) (node e' f') where
  pending := by rw [hpending, hpending, h.pending, h'.pending]
  data d hd := by
    rw [hdata, List.mem_append] at hd ⊢
    rcases hd with hd | hd
    · exact (h.data d hd).imp_left .inl
    · exact (h'.data d hd).imp_left .inr

/-- A tree without histograms has none to be fetched. -/
theorem pendingHistograms_of_floats (h : histogramFinder isHistogramName e = false) :
    pendingHistograms isHistogramName false e = [] := by
  induction e with
  | vectorSelector vs => simp_all [histogramFinder, Expr.nodes, pendingHistograms, pendingSelector]
  | matrixSelector vs range =>
    simp_all [histogramFinder, Expr.nodes, pendingHistograms, pendingSelector]
  | call func args ih =>
    simp_all [histogramFinder, Expr.nodes, pendingHistograms, isHistogramOnlyCall]
  | _ => simp_all [histogramFinder, Expr.nodes, pendingHistograms]

theorem histogramFinder_of_mem_children {c : Expr (Response V)}
    (h : histogramFinder isHistogramName e = false) (hc : c ∈ children e) :
    histogramFinder isHistogramName c = false := by
  cases e <;> simp_all [children, histogramFinder, Expr.nodes] <;> grind

/-! ## What is sent and what is cloned -/

theorem fetched_offsetRemover (e : Expr (Response V)) : fetched (offsetRemover e) = fetched e := by
  induction e <;> simp_all [fetched, offsetRemover]

theorem fetched_removeOffset (r : Prepared) (e : Expr (Response V)) :
    fetched (removeOffset r e) = fetched e := by
  rw [removeOffset]
  split
  · rfl
  · exact fetched_offsetRemover e

theorem histogramFinder_removeOffset (r : Prepared) (e : Expr (Response V)) :
    histogramFinder isHistogramName (removeOffset r e) = histogramFinder isHistogramName e := by
  rw [removeOffset]
  split
  · rfl
  · exact histogramFinder_offsetRemover isHistogramName e

theorem fetched_of_fresh (h : Fresh e) : fetched e = [] := by
  induction e <;> simp_all [fetched]

variable [Regexp]

theorem name_of_reparse {vs vs' : VectorSelector (Response V)} (h : vs.reparse = some vs') :
    vs'.name = vs.name := by
  obtain ⟨parsed, hparsed, rfl⟩ := Option.map_eq_some_iff.mp h
  rw [SelectorText.parseExpr] at hparsed
  split at hparsed
  · cases hparsed
    rfl
  · cases hparsed

theorem histogramFinder_of_reparse (h : e.reparse = some e') :
    histogramFinder isHistogramName e' = histogramFinder isHistogramName e := by
  induction e generalizing e' with
  | vectorSelector vs =>
    obtain ⟨vs', hvs, rfl⟩ := Option.map_eq_some_iff.mp h
    simp [histogramFinder, Expr.nodes, name_of_reparse hvs]
  | matrixSelector vs range =>
    obtain ⟨vs', hvs, rfl⟩ := Option.map_eq_some_iff.mp h
    simp [histogramFinder, Expr.nodes, name_of_reparse hvs, isHistogramOnlyCall]
  | aggregateExpr op expr param grouping without ih ih' =>
    obtain ⟨expr', hexpr, h⟩ := Option.bind_eq_some_iff.mp h
    obtain ⟨param', hparam, rfl⟩ := Option.map_eq_some_iff.mp h
    have hexpr := ih hexpr
    have hparam := ih' hparam
    simp_all [histogramFinder, Expr.nodes, isHistogramOnlyCall]
  | binaryExpr op lhs rhs ih ih' =>
    obtain ⟨lhs', hlhs, h⟩ := Option.bind_eq_some_iff.mp h
    obtain ⟨rhs', hrhs, rfl⟩ := Option.map_eq_some_iff.mp h
    have hlhs := ih hlhs
    have hrhs := ih' hrhs
    simp_all [histogramFinder, Expr.nodes, isHistogramOnlyCall]
  | argument head tail ih ih' =>
    obtain ⟨head', hhead, h⟩ := Option.bind_eq_some_iff.mp h
    obtain ⟨tail', htail, rfl⟩ := Option.map_eq_some_iff.mp h
    have hhead := ih hhead
    have htail := ih' htail
    simp_all [histogramFinder, Expr.nodes]
  | stepInvariantExpr expr ih =>
    have hexpr := ih h
    simp_all [histogramFinder, Expr.nodes, isHistogramOnlyCall]
  | subqueryExpr expr range originalOffset offset step timestamp ih =>
    obtain ⟨expr', hexpr, rfl⟩ := Option.map_eq_some_iff.mp h
    have hexpr := ih hexpr
    simp_all [histogramFinder, Expr.nodes, isHistogramOnlyCall]
  | call func args ih =>
    obtain ⟨args', hargs, rfl⟩ := Option.map_eq_some_iff.mp h
    have hargs := ih hargs
    simp_all [histogramFinder, Expr.nodes, isHistogramOnlyCall]
  | unaryExpr op expr ih =>
    obtain ⟨expr', hexpr, rfl⟩ := Option.map_eq_some_iff.mp h
    have hexpr := ih hexpr
    simp_all [histogramFinder, Expr.nodes, isHistogramOnlyCall]
  | parenExpr expr ih =>
    obtain ⟨expr', hexpr, rfl⟩ := Option.map_eq_some_iff.mp h
    have hexpr := ih hexpr
    simp_all [histogramFinder, Expr.nodes, isHistogramOnlyCall]
  | _ =>
    cases h
    rfl

theorem histogramFinder_cloneExpr (h : histogramFinder isHistogramName e = false) :
    histogramFinder isHistogramName (cloneExpr e) = false := by
  rw [cloneExpr]
  cases hreparse : e.reparse with
  | none => rfl
  | some e' => exact (histogramFinder_of_reparse hreparse).trans h

theorem histogramFinder_preserveLabel (h : histogramFinder isHistogramName e = false)
    (srcLabel dstLabel : String) :
    histogramFinder isHistogramName (preserveLabel e srcLabel dstLabel) = false := by
  have hclone := histogramFinder_cloneExpr h
  simp_all [preserveLabel, histogramFinder, Expr.nodes, isHistogramOnlyCall, histogramOnlyFuncs]

/-! ## What is put in the place of a node -/

omit [Regexp] in
theorem containsLossyHistogram_fillStaleNaNGaps {ss : Response V}
    (h : containsLossyHistogram ss = false) (startTs endTs interval : Int) :
    containsLossyHistogram (fillStaleNaNGaps ss startTs endTs interval) = false := by
  simp only [containsLossyHistogram, List.any_eq_false] at h ⊢
  rw [fillStaleNaNGaps]
  split
  · exact h
  · intro s hs
    obtain ⟨s', hs', rfl⟩ := List.mem_map.mp hs
    dsimp only
    split
    · have hs' := h s' hs'
      rw [List.any_eq_true] at hs' ⊢
      rintro ⟨x, hx, hhist⟩
      rcases List.mem_append.mp (mem_sortBy.mp hx) with hx | hx
      · exact hs' ⟨x, hx, hhist⟩
      · obtain ⟨ts, -, rfl⟩ := List.mem_map.mp hx
        cases hhist
    · exact h s' hs'

variable [Engine V] {p : ProxyStorage V} {s : EvalStmt} {r : Prepared}
  {path : List (Expr (Response V))}

/-- What is put in the place of a node without histograms. -/
structure Replaces (isHistogramName : String → Bool) (node node' : Expr (Response V)) : Prop where
  notCall : isHistogramOnlyCall node' = false
  floats : isHistogramName "" = false → histogramFinder isHistogramName node' = false
  pending : pendingHistograms isHistogramName false node' = []
  data : ∀ d ∈ fetched node', d ∈ fetched node ∨ containsLossyHistogram d = false

omit [Regexp] [Engine V] in
theorem Replaces.of_floats {node node' : Expr (Response V)} (hnotCall : isHistogramOnlyCall node' = false)
    (hfloats : histogramFinder isHistogramName node' = false)
    (hdata : ∀ d ∈ fetched node', d ∈ fetched node) : Replaces isHistogramName node node' :=
  ⟨hnotCall, fun _ => hfloats, pendingHistograms_of_floats hfloats, fun d hd => .inl (hdata d hd)⟩

omit [Regexp] [Engine V] in
/-- A selector with an answer. -/
theorem Replaces.selector {node : Expr (Response V)} {vs : VectorSelector (Response V)}
    {result : Response V} (hdata : vs.unexpandedSeriesSet = some result)
    (hlossy : containsLossyHistogram result = false)
    (hname : isHistogramName "" = false → isHistogramName vs.name = false) :
    Replaces isHistogramName node (.vectorSelector vs) where
  notCall := rfl
  floats hempty := by simp [histogramFinder, Expr.nodes, hname hempty]
  pending := by rw [pendingHistograms, pendingSelector, hdata]; rfl
  data d hd := by
    rw [fetched, hdata] at hd
    rw [List.mem_singleton.mp hd]
    exact .inr hlossy

omit [Regexp] [Engine V] in
/-- An aggregation over an answer. -/
theorem Replaces.aggregate {node param : Expr (Response V)} {vs : VectorSelector (Response V)}
    (hselector : Replaces isHistogramName node (.vectorSelector vs))
    (hparam : histogramFinder isHistogramName param = false)
    (hsub : ∀ d ∈ fetched param, d ∈ fetched node) (op : ItemType) (grouping : List String)
    (without : Bool) :
    Replaces isHistogramName node
      (.aggregateExpr op (.vectorSelector vs) param grouping without) where
  notCall := rfl
  floats hempty := by
    have hfloats := hselector.floats hempty
    rw [histogramFinder] at hfloats hparam ⊢
    rw [Expr.nodes, List.any_cons, List.any_append, hfloats, hparam]
    rfl
  pending := by
    rw [pendingHistograms, hselector.pending, pendingHistograms_of_floats hparam]
    rfl
  data d hd := by
    rw [fetched, List.mem_append] at hd
    exact hd.elim (hselector.data d) fun hd => .inl (hsub d hd)

omit [Engine V] in
theorem replaces_average {expr param node' : Expr (Response V)} {grouping : List String}
    {without : Bool}
    (hfloats : histogramFinder isHistogramName (.aggregateExpr .avg expr param grouping without) =
      false)
    (hnode' : node' = .aggregateExpr .max
        (preserveLabel
          (.binaryExpr "/"
            (.aggregateExpr .sum (preserveLabel (cloneExpr expr) metricNameLabel
              metricNameWorkaroundLabel) param
              (grouping.map fun g => if g = metricNameLabel then metricNameWorkaroundLabel else g)
              without)
            (.aggregateExpr .count (preserveLabel (cloneExpr expr) metricNameLabel
              metricNameWorkaroundLabel) param
              (grouping.map fun g => if g = metricNameLabel then metricNameWorkaroundLabel else g)
              without))
          metricNameWorkaroundLabel metricNameLabel)
        .noExpr grouping without ∨
      node' = .binaryExpr "/" (.aggregateExpr .sum (cloneExpr expr) param grouping without)
        (.aggregateExpr .count (cloneExpr expr) param grouping without)) :
    Replaces isHistogramName (.aggregateExpr .avg expr param grouping without) node' := by
  have hexpr := histogramFinder_of_mem_children (c := expr) hfloats (by simp [children])
  have hparam := histogramFinder_of_mem_children (c := param) hfloats (by simp [children])
  have hclone := histogramFinder_cloneExpr hexpr
  rcases hnode' with rfl | rfl
  · have hpreserve := histogramFinder_preserveLabel hclone metricNameLabel metricNameWorkaroundLabel
    have hquotient : histogramFinder isHistogramName
        (.binaryExpr "/"
          (.aggregateExpr .sum (preserveLabel (cloneExpr expr) metricNameLabel
            metricNameWorkaroundLabel) param
            (grouping.map fun g => if g = metricNameLabel then metricNameWorkaroundLabel else g)
            without)
          (.aggregateExpr .count (preserveLabel (cloneExpr expr) metricNameLabel
            metricNameWorkaroundLabel) param
            (grouping.map fun g => if g = metricNameLabel then metricNameWorkaroundLabel else g)
            without)) = false := by
      simp_all [histogramFinder, Expr.nodes, isHistogramOnlyCall]
    have hfloats' := histogramFinder_preserveLabel hquotient metricNameWorkaroundLabel metricNameLabel
    refine .of_floats rfl ?_ fun d hd => ?_
    · rw [histogramFinder] at hfloats' ⊢
      rw [Expr.nodes, List.any_cons, List.any_append, hfloats']
      rfl
    · rw [fetched, fetched_of_fresh (fresh_preserveLabel _ _ _)] at hd
      cases hd
  · refine .of_floats rfl ?_ fun d hd => ?_
    · simp_all [histogramFinder, Expr.nodes, isHistogramOnlyCall]
    · simp only [fetched, fetched_of_fresh (fresh_cloneExpr expr), List.nil_append,
        List.mem_append, or_self] at hd ⊢
      exact Or.inr hd

omit [Engine V] in
theorem replaces_replaceAggregate {op : ItemType} {expr param node' : Expr (Response V)}
    {grouping : List String} {without : Bool}
    (hfloats : histogramFinder isHistogramName (.aggregateExpr op expr param grouping without) = false)
    (houtcome : (replaceAggregate p s r op expr param grouping without).outcome = .pushed node') :
    Replaces isHistogramName (.aggregateExpr op expr param grouping without) node' := by
  have hparam := histogramFinder_of_mem_children (c := param) hfloats (by simp [children])
  have hparam' := (histogramFinder_removeOffset r param).trans hparam
  have hsub : ∀ d ∈ fetched (removeOffset r param),
      d ∈ fetched (.aggregateExpr op expr param grouping without) := by
    intro d hd
    rw [fetched_removeOffset] at hd
    exact List.mem_append_right _ hd
  unfold replaceAggregate at houtcome
  cases hdata : hasData expr with
  | true =>
    rw [hdata] at houtcome
    cases houtcome
  | false =>
    cases op with
    | avg =>
      simp only [hdata, Bool.false_eq_true, if_false] at houtcome
      split at houtcome
      · obtain ⟨hlossy, houtcome⟩ := outcome_of_lossy houtcome
        cases houtcome
        exact (Replaces.selector rfl hlossy id).aggregate hparam' hsub _ _ _
      · refine replaces_average hfloats ?_
        split at houtcome
        · cases houtcome
          exact .inl rfl
        · cases houtcome
          exact .inr rfl
    | countValues =>
      simp only [hdata, Bool.false_eq_true, if_false] at houtcome
      split at houtcome
      · obtain ⟨hlossy, houtcome⟩ := outcome_of_lossy houtcome
        cases houtcome
        exact (Replaces.selector rfl hlossy id).aggregate rfl (List.forall_mem_nil _) _ _ _
      · cases houtcome
    | quantile => cases hdata ▸ houtcome
    | stddev => cases hdata ▸ houtcome
    | stdvar => cases hdata ▸ houtcome
    | limitk => cases hdata ▸ houtcome
    | limitRatio => cases hdata ▸ houtcome
    | _ =>
      simp only [hdata, Bool.false_eq_true, if_false] at houtcome
      obtain ⟨hlossy, houtcome⟩ := outcome_of_lossy houtcome
      cases houtcome
      exact (Replaces.selector rfl hlossy id).aggregate hparam' hsub _ _ _

omit [Regexp] [Engine V] in
/-- An answer below a function that sorts. -/
theorem Replaces.sorted {node : Expr (Response V)} {vs : VectorSelector (Response V)} {func : String}
    (hselector : Replaces isHistogramName node (.vectorSelector vs))
    (hfunc : histogramOnlyFuncs.contains func = false) :
    Replaces isHistogramName node (.call func (.argument (.vectorSelector vs) .noExpr)) where
  notCall := hfunc
  floats hempty := by
    have hfloats := hselector.floats hempty
    rw [histogramFinder] at hfloats ⊢
    rw [Expr.nodes, List.any_cons, Expr.nodes, List.any_append, hfloats]
    simpa [Expr.nodes, isHistogramOnlyCall] using hfunc
  pending := by
    rw [pendingHistograms, hfunc, Bool.or_false, pendingHistograms, hselector.pending]
    rfl
  data d hd := by
    refine hselector.data d ?_
    simpa [fetched] using hd

omit [Regexp] [Engine V] in
theorem replaces_replaceCall {func : String} {args node' : Expr (Response V)}
    (houtcome : (replaceCall p s r func args).outcome = .pushed node') :
    Replaces isHistogramName (.call func args) node' := by
  rw [replaceCall] at houtcome
  dsimp only at houtcome
  cases hfunc : perSeriesFuncs.contains func with
  | false =>
    rw [hfunc] at houtcome
    cases houtcome
  | true =>
    rw [hfunc, if_neg (by simp)] at houtcome
    obtain ⟨hlossy, houtcome⟩ := outcome_of_lossy houtcome
    cases houtcome
    generalize (if 0 < s.interval then queryRangeAt p s r (removeOffset r (.call func args))
      else p.client.query false (removeOffset r (.call func args)) (s.start - r.reqOffset)) = result
      at hlossy
    have hanswer : containsLossyHistogram (if 0 < s.interval then
        fillStaleNaNGaps result (s.start - r.reqOffset) (s.stop - r.reqOffset) s.interval
        else result) = false := by
      split
      · exact containsLossyHistogram_fillStaleNaNGaps hlossy _ _ _
      · exact hlossy
    have hselector : Replaces isHistogramName (.call func args)
        (.vectorSelector (responseSelector s r _)) := .selector rfl hanswer id
    split
    · rename_i hsorted
      rw [Bool.or_eq_true, decide_eq_true_eq, decide_eq_true_eq] at hsorted
      refine hselector.sorted ?_
      rcases hsorted with rfl | rfl <;> rfl
    · exact hselector

omit [Regexp] [Engine V] in
theorem replaces_replaceVectorSelector {vs : VectorSelector (Response V)} {visit : Visit V}
    {node' : Expr (Response V)} (hfloats : histogramFinder isHistogramName (.vectorSelector vs) = false)
    (h : replaceVectorSelector p s r path vs = .ok visit)
    (houtcome : visit.outcome = .pushed node') :
    Replaces isHistogramName (.vectorSelector vs) node' := by
  have hname : isHistogramName vs.name = false := by
    simpa [histogramFinder, Expr.nodes] using hfloats
  simp only [replaceVectorSelector] at h
  split at h
  · cases h
    cases houtcome
  · split at h
    · cases h
      cases houtcome
    · split at h
      · cases h
      · split at h
        · cases h
          cases houtcome
        · rename_i hlossy
          split at h
          · cases h
            cases houtcome
            exact .selector rfl (by simpa using hlossy) fun _ => hname
          · cases h
            cases houtcome
            exact .selector rfl (by simpa using hlossy) fun _ => hname

omit [Regexp] [Engine V] in
theorem replaces_vectorBinaryExpr {node : VectorSelector (Response V) → Expr (Response V)}
    {vs : VectorSelector (Response V)} {visit : Visit V} {node' : Expr (Response V)}
    (h : vectorBinaryExpr p s r node vs = .ok visit) (houtcome : visit.outcome = .pushed node') :
    Replaces isHistogramName e node' := by
  simp only [vectorBinaryExpr] at h
  split at h
  · cases h
  · split at h
    · cases h
      cases houtcome
    · rename_i hlossy
      cases h
      cases houtcome
      exact .selector rfl (by simpa using hlossy) id

omit [Regexp] [Engine V] in
theorem replaces_replaceBinary {op : String} {lhs rhs node' : Expr (Response V)}
    {visit : Visit V} (h : replaceBinary p s r op lhs rhs = .ok visit)
    (houtcome : visit.outcome = .pushed node') : Replaces isHistogramName e node' := by
  simp only [replaceBinary] at h
  split at h
  · split at h
    · exact replaces_vectorBinaryExpr h houtcome
    · cases h
      cases houtcome
  · split at h
    · split at h
      · exact replaces_vectorBinaryExpr h houtcome
      · cases h
        cases houtcome
    · cases h
      cases houtcome


/-! ## A walk -/

omit [Regexp] [Engine V] in
theorem Faithful.below {node c c' : Expr (Response V)} (hnode : isHistogramOnlyCall node = false)
    (h : Faithful isHistogramName (inside || isHistogramOnlyCall node) c c') :
    Faithful isHistogramName inside c c' := by
  rwa [hnode, Bool.or_false] at h

omit [Regexp] [Engine V] in
/-- The children of a node under a walk that is faithful to each. -/
theorem faithful_walkChildren
    {walk : Expr (Response V) → Except Failure (Expr (Response V) × Bool)}
    {node node' : Expr (Response V)} {pushed : Bool}
    (hwalk : ∀ c c' pushed, walk c = .ok (c', pushed) →
      Faithful isHistogramName (inside || isHistogramOnlyCall node) c c')
    (h : walkChildren walk node = .ok (node', pushed)) :
    Faithful isHistogramName inside node node' := by
  cases node with
  | matrixSelector vs range =>
    obtain ⟨⟨y, pushed'⟩, hy, heq⟩ := map_eq_ok h
    have hfaithful := (hwalk _ _ _ hy).below rfl
    cases y with
    | vectorSelector vs' =>
      cases heq
      exact ⟨hfaithful.pending, hfaithful.data⟩
    | _ =>
      cases heq
      exact .refl _
  | subqueryExpr expr range originalOffset offset step timestamp =>
    obtain ⟨⟨y, pushed'⟩, hy, heq⟩ := map_eq_ok h
    cases heq
    have hfaithful := (hwalk _ _ _ hy).below rfl
    exact ⟨hfaithful.pending, hfaithful.data⟩
  | call func args =>
    obtain ⟨⟨y, pushed'⟩, hy, heq⟩ := map_eq_ok h
    cases heq
    have hfaithful := hwalk _ _ _ hy
    exact ⟨hfaithful.pending, hfaithful.data⟩
  | aggregateExpr op expr param grouping without =>
    obtain ⟨⟨x, pushed'⟩, hx, h⟩ := bind_eq_ok h
    obtain ⟨⟨y, pushed''⟩, hy, heq⟩ := map_eq_ok h
    cases heq
    have hexpr := (hwalk _ _ _ hx).below rfl
    have hparam := (hwalk _ _ _ hy).below rfl
    exact .append (fun expr param => .aggregateExpr op expr param grouping without)
      (fun _ _ => rfl) (fun _ _ => rfl) hexpr hparam
  | binaryExpr op lhs rhs =>
    obtain ⟨⟨x, pushed'⟩, hx, h⟩ := bind_eq_ok h
    obtain ⟨⟨y, pushed''⟩, hy, heq⟩ := map_eq_ok h
    cases heq
    have hlhs := (hwalk _ _ _ hx).below rfl
    have hrhs := (hwalk _ _ _ hy).below rfl
    exact .append (.binaryExpr op) (fun _ _ => rfl) (fun _ _ => rfl) hlhs hrhs
  | argument head tail =>
    obtain ⟨⟨x, pushed'⟩, hx, h⟩ := bind_eq_ok h
    obtain ⟨⟨y, pushed''⟩, hy, heq⟩ := map_eq_ok h
    cases heq
    have hhead := (hwalk _ _ _ hx).below rfl
    have htail := (hwalk _ _ _ hy).below rfl
    exact .append .argument (fun _ _ => rfl) (fun _ _ => rfl) hhead htail
  | unaryExpr op expr =>
    obtain ⟨⟨y, pushed'⟩, hy, heq⟩ := map_eq_ok h
    cases heq
    have hfaithful := (hwalk _ _ _ hy).below rfl
    exact ⟨hfaithful.pending, hfaithful.data⟩
  | parenExpr expr =>
    obtain ⟨⟨y, pushed'⟩, hy, heq⟩ := map_eq_ok h
    cases heq
    have hfaithful := (hwalk _ _ _ hy).below rfl
    exact ⟨hfaithful.pending, hfaithful.data⟩
  | stepInvariantExpr expr =>
    obtain ⟨⟨y, pushed'⟩, hy, heq⟩ := map_eq_ok h
    cases heq
    have hfaithful := (hwalk _ _ _ hy).below rfl
    exact ⟨hfaithful.pending, hfaithful.data⟩
  | _ =>
    cases h
    exact .refl _

/-- What a visit puts in the place of a node. -/
theorem faithful_of_pushed
    {inspect : EvalStmt → Expr (Response V) → Except Failure (Expr (Response V) × Bool)}
    (hinspect : ∀ s e e' pushed, inspect s e = .ok (e', pushed) →
      Faithful (histogramNamePredicate p) false e e')
    {node node' : Expr (Response V)} {visit : Visit V}
    (h : nodeReplacer p inspect s path node = .ok visit) (houtcome : visit.outcome = .pushed node') :
    path.any isHistogramOnlyCall = false ∧
      (Replaces (histogramNamePredicate p) node node' ∨ isSubQuery node' = true) ∧
      Faithful (histogramNamePredicate p) false node node' := by
  obtain ⟨r, haccepted, hreplaced⟩ := visit_cases h houtcome
  obtain ⟨hpath, hfloats⟩ := haccepted.notHistogram
  have hreplaces (h : Replaces (histogramNamePredicate p) node node') :
      path.any isHistogramOnlyCall = false ∧
        (Replaces (histogramNamePredicate p) node node' ∨ isSubQuery node' = true) ∧
        Faithful (histogramNamePredicate p) false node node' :=
    ⟨hpath, .inl h, h.pending.trans (pendingHistograms_of_floats hfloats).symm, h.data⟩
  cases node with
  | aggregateExpr op expr param grouping without =>
    cases hreplaced
    exact hreplaces (replaces_replaceAggregate hfloats houtcome)
  | call func args =>
    cases hreplaced
    exact hreplaces (replaces_replaceCall houtcome)
  | vectorSelector vs => exact hreplaces (replaces_replaceVectorSelector hfloats hreplaced houtcome)
  | binaryExpr op lhs rhs => exact hreplaces (replaces_replaceBinary hreplaced houtcome)
  | subqueryExpr expr range originalOffset offset step timestamp =>
    obtain ⟨⟨newN, pushed⟩, hnewN, rfl⟩ := map_eq_ok hreplaced
    cases pushed with
    | true =>
      cases houtcome
      have hfaithful := hinspect _ _ _ _ hnewN
      exact ⟨hpath, .inr rfl, hfaithful.pending, hfaithful.data⟩
    | false => cases houtcome
  | _ =>
    cases hreplaced
    cases houtcome

theorem faithful_walk (fuel : Nat) (s : EvalStmt) (path : List (Expr (Response V)))
    (e e' : Expr (Response V)) (pushed : Bool) (h : walk p fuel s path e = .ok (e', pushed)) :
    Faithful (histogramNamePredicate p) (path.any isHistogramOnlyCall) e e' := by
  induction fuel generalizing s path e e' pushed with
  | zero => cases h
  | succ fuel ih =>
    have hchildren (node node' : Expr (Response V)) (pushed : Bool)
        (h : walkChildren (walk p fuel s (node :: path)) node = .ok (node', pushed)) :
        Faithful (histogramNamePredicate p) (path.any isHistogramOnlyCall) node node' := by
      refine faithful_walkChildren (fun c c' pushed hc => ?_) h
      rw [Bool.or_comm]
      exact ih s (node :: path) c c' pushed hc
    have hnode (hnode : IsNode e) :
        Faithful (histogramNamePredicate p) (path.any isHistogramOnlyCall) e e' := by
      rw [walk_of_isNode hnode] at h
      obtain ⟨visit, hvisit, h⟩ := bind_eq_ok h
      have hast := ast_of_declined (fun s e => keeps_walk fuel s [] e) hvisit
      cases hout : visit.outcome with
      | pushed node =>
        rw [hout] at h
        obtain ⟨⟨y, pushed'⟩, hy, heq⟩ := map_eq_ok h
        cases heq
        obtain ⟨hpath, -, hfaithful⟩ :=
          faithful_of_pushed (fun s e e' pushed hinspect => ih s [] e e' pushed hinspect) hvisit hout
        have hwalked := hchildren node y pushed' hy
        rw [hpath] at hwalked ⊢
        exact hfaithful.trans hwalked
      | fallback reason =>
        rw [hout, hast (by simp [hout])] at h
        exact hchildren e e' pushed h
      | revisit =>
        rw [hout, hast (by simp [hout])] at h
        exact hchildren e e' pushed h
    cases e with
    | noExpr =>
      cases h
      exact .refl _
    | argument head tail =>
      refine faithful_walkChildren (fun c c' pushed hc => ?_) h
      have hwalked := ih s path c c' pushed hc
      rwa [← Bool.or_false (path.any isHistogramOnlyCall)] at hwalked
    | _ => exact hnode trivial

/-! ## A walk that refuses -/

omit [Regexp] in
/-- `prepare` refuses a node that touches histograms, below no subquery. -/
theorem refused_prepare {node : Expr (Response V)} {err : Failure}
    (h : prepare p node path = .error err) :
    path.any isSubQuery = false ∧ strictMissingRemoteRead p ≠ [] ∧
      (path.any isHistogramOnlyCall = true ∨
        histogramFinder (histogramNamePredicate p) node = true) := by
  rw [prepare] at h
  dsimp only at h
  split at h
  · cases h
  · rename_i hpath
    split at h
    · rename_i hhist
      split at h
      · rename_i hmissing
        exact ⟨Bool.eq_false_iff.mpr hpath, hmissing, (Bool.or_eq_true _ _).mp hhist⟩
      · cases h
    · split at h
      · cases h
      · split at h
        · cases h
        · split at h
          · cases h
          · split at h
            · cases h
            · split at h
              · cases h
              · cases h

omit [Regexp] [Engine V] in
theorem bind_eq_error {α β : Type} {x : Except Failure α} {f : α → Except Failure β} {err : Failure}
    (h : x.bind f = .error err) : x = .error err ∨ ∃ a, x = .ok a ∧ f a = .error err := by
  cases x with
  | error err' =>
    cases h
    exact .inl rfl
  | ok a => exact .inr ⟨a, rfl, h⟩

omit [Regexp] [Engine V] in
theorem error_of_walkBoth {fst snd : Except Failure (Expr (Response V) × Bool)} {err : Failure}
    (node : Expr (Response V) → Expr (Response V) → Expr (Response V))
    (h : walkBoth node fst snd = .error err) : fst = .error err ∨ snd = .error err := by
  cases fst with
  | error err' =>
    cases h
    exact .inl rfl
  | ok x =>
    cases snd with
    | error err' =>
      cases h
      exact .inr rfl
    | ok y => cases h

omit [Regexp] [Engine V] in
theorem error_of_map {α β : Type} {x : Except Failure α} {f : α → β} {err : Failure}
    (h : x.map f = .error err) : x = .error err := by
  cases x with
  | error err' =>
    cases h
    rfl
  | ok y => cases h

omit [Regexp] [Engine V] in
theorem error_of_walkChildren
    {walk : Expr (Response V) → Except Failure (Expr (Response V) × Bool)}
    {node : Expr (Response V)} {err : Failure} (h : walkChildren walk node = .error err) :
    ∃ c ∈ children node, walk c = .error err := by
  have hone (c : Expr (Response V)) (hc : children node = [c]) (h : walk c = .error err) :
      ∃ c ∈ children node, walk c = .error err := ⟨c, by rw [hc, List.mem_singleton], h⟩
  have htwo (c c' : Expr (Response V)) (hc : children node = [c, c'])
      (h : walk c = .error err ∨ walk c' = .error err) :
      ∃ c ∈ children node, walk c = .error err := by
    rcases h with h | h
    · exact ⟨c, by simp [hc], h⟩
    · exact ⟨c', by simp [hc], h⟩
  cases node with
  | matrixSelector vs range => exact hone _ rfl (error_of_map h)
  | subqueryExpr expr range originalOffset offset step timestamp => exact hone _ rfl (error_of_map h)
  | call func args => exact hone _ rfl (error_of_map h)
  | aggregateExpr op expr param grouping without =>
    exact htwo _ _ rfl (error_of_walkBoth
      (fun expr param => .aggregateExpr op expr param grouping without) h)
  | binaryExpr op lhs rhs => exact htwo _ _ rfl (error_of_walkBoth _ h)
  | unaryExpr op expr => exact hone _ rfl (error_of_map h)
  | parenExpr expr => exact hone _ rfl (error_of_map h)
  | stepInvariantExpr expr => exact hone _ rfl (error_of_map h)
  | argument head tail => exact htwo _ _ rfl (error_of_walkBoth _ h)
  | _ => cases h

omit [Regexp] [Engine V] in
theorem vectorBinaryExpr_ne_histogramFidelity {node : VectorSelector (Response V) → Expr (Response V)}
    {vs : VectorSelector (Response V)} {ords : List Nat} :
    vectorBinaryExpr p s r node vs ≠ .error (.histogramFidelity ords) := by
  simp only [vectorBinaryExpr]
  split
  · simp
  · split
    · simp
    · simp

omit [Engine V] in
/-- Only the arm of a subquery refuses, where the walk of its expression does. -/
theorem refused_replaceNode
    {inspect : EvalStmt → Expr (Response V) → Except Failure (Expr (Response V) × Bool)}
    {node : Expr (Response V)} {ords : List Nat}
    (h : replaceNode p inspect s r path node = .error (.histogramFidelity ords)) :
    ∃ expr ∈ children node, ∃ s, inspect s expr = .error (.histogramFidelity ords) := by
  cases node with
  | subqueryExpr expr range originalOffset offset step timestamp =>
    refine ⟨expr, List.mem_singleton.mpr rfl, subEvalStmt p s range offset step timestamp, ?_⟩
    rw [replaceNode, replaceSubquery] at h
    cases hinspect : inspect (subEvalStmt p s range offset step timestamp) expr with
    | error err =>
      rw [hinspect] at h
      cases h
      rfl
    | ok newN =>
      rw [hinspect] at h
      cases h
  | vectorSelector vs =>
    simp only [replaceNode, replaceVectorSelector] at h
    split at h
    · cases h
    · split at h
      · cases h
      · split at h
        · cases h
        · split at h
          · cases h
          · split at h
            · cases h
            · cases h
  | binaryExpr op lhs rhs =>
    simp only [replaceNode, replaceBinary] at h
    split at h
    · split at h
      · exact absurd h vectorBinaryExpr_ne_histogramFidelity
      · cases h
    · split at h
      · split at h
        · exact absurd h vectorBinaryExpr_ne_histogramFidelity
        · cases h
      · cases h
  | _ => cases h

omit [Regexp] [Engine V] in
theorem histogramFinder_of_child {node c : Expr (Response V)} (hc : c ∈ children node)
    (h : histogramFinder isHistogramName c = true) : histogramFinder isHistogramName node = true := by
  by_contra hnode
  rw [histogramFinder_of_mem_children (Bool.eq_false_iff.mpr hnode) hc] at h
  cases h

omit [Regexp] [Engine V] in
theorem histogramFinder_of_isHistogramOnlyCall {node : Expr (Response V)}
    (h : isHistogramOnlyCall node = true) : histogramFinder isHistogramName node = true := by
  cases node with
  | call func args =>
    rw [histogramFinder, Expr.nodes, List.any_cons]
    exact Bool.or_eq_true_iff.mpr (Or.inl h)
  | _ => cases h

/-- A walk that refuses has come to histograms, in the tree or above it. -/
theorem refused_walk (hempty : histogramNamePredicate p "" = false) (fuel : Nat) (s : EvalStmt)
    (path : List (Expr (Response V))) (e : Expr (Response V)) (ords : List Nat)
    (h : walk p fuel s path e = .error (.histogramFidelity ords)) :
    path.any isSubQuery = false ∧ strictMissingRemoteRead p ≠ [] ∧
      (path.any isHistogramOnlyCall = true ∨ histogramFinder (histogramNamePredicate p) e = true) := by
  induction fuel generalizing s path e with
  | zero => cases h
  | succ fuel ih =>
    have hchild (c : Expr (Response V)) (hc : c ∈ children e)
        (h : walk p fuel s (e :: path) c = .error (.histogramFidelity ords)) :
        path.any isSubQuery = false ∧ strictMissingRemoteRead p ≠ [] ∧
          (path.any isHistogramOnlyCall = true ∨
            histogramFinder (histogramNamePredicate p) e = true) := by
      obtain ⟨hsub, hmissing, hhist⟩ := ih s (e :: path) c h
      rw [List.any_cons, Bool.or_eq_false_iff] at hsub
      rw [List.any_cons, Bool.or_eq_true] at hhist
      refine ⟨hsub.2, hmissing, ?_⟩
      rcases hhist with (hcall | hpath) | hfinder
      · exact .inr (histogramFinder_of_isHistogramOnlyCall hcall)
      · exact .inl hpath
      · exact .inr (histogramFinder_of_child hc hfinder)
    have hnode (hnode : IsNode e) :
        path.any isSubQuery = false ∧ strictMissingRemoteRead p ≠ [] ∧
          (path.any isHistogramOnlyCall = true ∨
            histogramFinder (histogramNamePredicate p) e = true) := by
      rw [walk_of_isNode hnode] at h
      rcases bind_eq_error h with hvisit | ⟨visit, hvisit, h⟩
      · rcases bind_eq_error hvisit with hprepare | ⟨prepared, hprepared, hreplace⟩
        · exact refused_prepare hprepare
        · cases prepared with
          | inl reason => cases hreplace
          | inr r =>
            have haccepted := prepare_eq_inr hprepared
            obtain ⟨expr, hexpr, s', hinspect⟩ := refused_replaceNode (error_of_map hreplace)
            obtain ⟨-, hmissing, hhist⟩ := ih s' [] expr hinspect
            refine ⟨haccepted.notBelowSubquery, hmissing, .inr ?_⟩
            exact histogramFinder_of_child hexpr (hhist.resolve_left (by simp))
      · have hast := ast_of_declined (fun s e => keeps_walk fuel s [] e) hvisit
        cases hout : visit.outcome with
        | pushed node' =>
          rw [hout] at h
          obtain ⟨c, hc, h⟩ := error_of_walkChildren (error_of_map h)
          obtain ⟨hsub, -, hhist⟩ := ih s (node' :: path) c h
          obtain ⟨hpath, hreplaced, -⟩ := faithful_of_pushed
            (fun s e e' pushed hinspect => faithful_walk fuel s [] e e' pushed hinspect) hvisit hout
          rw [List.any_cons, Bool.or_eq_false_iff] at hsub
          rcases hreplaced with hreplaces | hsubquery
          · rw [List.any_cons, hreplaces.notCall, hpath] at hhist
            have hfloats := hreplaces.floats hempty
            rw [histogramFinder_of_child hc (hhist.resolve_left (by simp))] at hfloats
            cases hfloats
          · rw [hsubquery] at hsub
            cases hsub.1
        | fallback reason =>
          rw [hout, hast (by simp [hout])] at h
          obtain ⟨c, hc, h⟩ := error_of_walkChildren h
          exact hchild c hc h
        | revisit =>
          rw [hout, hast (by simp [hout])] at h
          obtain ⟨c, hc, h⟩ := error_of_walkChildren h
          exact hchild c hc h
    cases e with
    | noExpr => cases h
    | argument head tail =>
      obtain ⟨c, hc, h⟩ := error_of_walkChildren h
      obtain ⟨hsub, hmissing, hhist⟩ := ih s path c h
      exact ⟨hsub, hmissing, hhist.imp_right (histogramFinder_of_child hc)⟩
    | _ => exact hnode trivial

/-- A query that touches histograms is refused if a group cannot serve them; if it is not, they are
left to the engine. -/
theorem walk_fidelity (hempty : histogramNamePredicate p "" = false) (hnode : IsNode e)
    (s : EvalStmt) :
    ((∃ fuel ords, walk p fuel s [] e = .error (.histogramFidelity ords)) ↔
      histogramFinder (histogramNamePredicate p) e = true ∧ strictMissingRemoteRead p ≠ []) ∧
    ∀ fuel tree pushed, walk p fuel s [] e = .ok (tree, pushed) →
      pendingHistograms (histogramNamePredicate p) false tree =
        pendingHistograms (histogramNamePredicate p) false e ∧
      ∀ d ∈ fetched tree, d ∈ fetched e ∨ containsLossyHistogram d = false := by
  refine ⟨⟨fun hrefused => ?_, fun hhist => ?_⟩, fun fuel tree pushed h => ?_⟩
  · obtain ⟨fuel, ords, h⟩ := hrefused
    obtain ⟨-, hmissing, hhist⟩ := refused_walk hempty fuel s [] e ords h
    exact ⟨hhist.resolve_left (by simp), hmissing⟩
  · obtain ⟨hhist, hmissing⟩ := hhist
    have hprepare : prepare p e [] = .error (.histogramFidelity (strictMissingRemoteRead p)) := by
      simp [prepare, hhist, hmissing]
    refine ⟨1, strictMissingRemoteRead p, ?_⟩
    rw [walk_of_isNode hnode, nodeReplacer, hprepare]
    rfl
  · have hfaithful := faithful_walk fuel s [] e tree pushed h
    exact ⟨hfaithful.pending, hfaithful.data⟩

end

section

attribute [local instance] sortingLibraries

/-- A group without remote read that knows `latency` for a metric of histograms. -/
def latencyGroup : ServerGroupConfig where
  ordinal := 1
  remoteRead := false
  allowLossy := false
  metadataRefresh := 60000
  isHistogramMetric name := name = "latency"

/-- `sum(up) + rate(latency[5m])` -/
def latencyQuery : Expr (Response ℚ) :=
  .binaryExpr "+" (.aggregateExpr .sum (.vectorSelector ⟨"up", [], 0, none, 0, none⟩) .noExpr [] false)
    (.call "rate" (.argument (.matrixSelector ⟨"latency", [], 0, none, 0, none⟩ 300000) .noExpr))

def latencyProxy : ProxyStorage ℚ := { answering ⟨[], false⟩ with sgs := [latencyGroup] }

theorem walk_fidelity_latency :
    ((∃ fuel ords, walk latencyProxy fuel ⟨0, 0, 0⟩ [] latencyQuery =
        .error (.histogramFidelity ords)) ↔
      histogramFinder (histogramNamePredicate latencyProxy) latencyQuery = true ∧
        strictMissingRemoteRead latencyProxy ≠ []) ∧
    ∀ fuel tree pushed, walk latencyProxy fuel ⟨0, 0, 0⟩ [] latencyQuery = .ok (tree, pushed) →
      pendingHistograms (histogramNamePredicate latencyProxy) false tree =
        pendingHistograms (histogramNamePredicate latencyProxy) false latencyQuery ∧
      ∀ d ∈ fetched tree, d ∈ fetched latencyQuery ∨ containsLossyHistogram d = false :=
  walk_fidelity (e := latencyQuery) (by decide) trivial ⟨0, 0, 0⟩

end

end Proxystorage
end Proxeus
