import Proxeus.Proxystorage.Pushdown

/-!
# Proxystorage.Operands

The operands of the aggregations that `NodeReplacer` sends as a whole: expressions over one selector,
without calls over several series. `SentOperand` has what the servers answer to such an operand, with
its offset or moved by it; calls of label functions around it are answered by relabelling
(`sentOperand_callAll`).
-/

namespace Proxeus
namespace Proxystorage

open Lib Promclient Promql

section

variable [Libraries]

/-- An operand that is sent to the servers of the groups, and their answers to it. -/
structure SentOperand {ι : Type*} (groups : List ι) (down : ι → Downstream) (ts : Int)
    (e : Expr (Response ℚ)) (answers : ι → Option (InstantVector ℚ)) : Prop where
  reparse : e.reparse = some e
  noData : hasData e = false
  floats : e.nodes.any isHistogramOnlyCall = false
  noAggregates : booleanFinder isAgg e = 0
  oneSelector : booleanFinder isVectorSelector e = 1
  perSeries : booleanFinder isCrossSeriesCall e = 0
  kept : ∀ g ∈ groups, (down g).answer e ts = answers g
  moved : ∃ offset,
    (∀ nodes, OffsetFinder.visit ⟨false, 0, false⟩ (e.nodes ++ nodes) =
      OffsetFinder.visit ⟨true, offset, false⟩ nodes) ∧
    (booleanFinder hasTimestamp e = 0 →
      ∀ g ∈ groups, (down g).answer (offsetRemover e) (ts - offset) = answers g)

variable {ι : Type*} {groups : List ι} {down : ι → Downstream} {ts : Int}
  {e param : Expr (Response ℚ)} {answers : ι → Option (InstantVector ℚ)} {value : Value ℚ}

theorem SentOperand.congr {answers' : ι → Option (InstantVector ℚ)}
    (h : SentOperand groups down ts e answers) (heq : ∀ g ∈ groups, answers g = answers' g) :
    SentOperand groups down ts e answers' := by
  obtain ⟨offset, hoffset, hmoved⟩ := h.moved
  exact { h with
    kept := fun g hg => (h.kept g hg).trans (heq g hg)
    moved := ⟨offset, hoffset, fun hnone g hg => (hmoved hnone g hg).trans (heq g hg)⟩ }

/-- An aggregation of the operand is accepted, and what is sent has the answers to the operand. -/
theorem SentOperand.accepted [MergeSeriesSet] {p : ProxyStorage ℚ}
    {apis : List (QueryAPI (Response ℚ))} {path : List (Expr (Response ℚ))}
    (h : SentOperand groups down ts e answers) (hfronts : Fronts p apis) (hpath : Clean path)
    (hparam : Literal param value) (op : ItemType) (grouping : List String) (without : Bool) :
    ∃ r, prepare p (.aggregateExpr op e param grouping without) path = .ok (.inr r) ∧
      ∀ g ∈ groups, (down g).answer (removeOffset r e) (ts - r.reqOffset) = answers g := by
  obtain ⟨offset, hvisit, hmoved⟩ := h.moved
  obtain ⟨r, hr⟩ := exists_prepare_inr hfronts.notExact hfronts.metrics hpath hparam h.floats
    h.noAggregates h.oneSelector h.perSeries hvisit op grouping without
  refine ⟨r, hr, fun g hg => ?_⟩
  have haccepted := prepare_eq_inr hr
  have hoffset : r.offset = offset := by
    have hparamvisit : OffsetFinder.visit ⟨true, offset, false⟩ (param.nodes ++ []) =
        ⟨true, offset, false⟩ := visit_literal hparam rfl []
    rw [List.append_nil, ← hvisit] at hparamvisit
    rw [haccepted.offset]
    exact congrArg OffsetFinder.offset hparamvisit
  rw [haccepted.reqOffset, removeOffset]
  cases hkeep : r.keepOffsets with
  | true =>
    rw [if_pos rfl, if_pos rfl, Int.sub_zero]
    exact h.kept g hg
  | false =>
    rw [if_neg Bool.false_ne_true, if_neg Bool.false_ne_true, hoffset]
    refine hmoved ?_ g hg
    by_contra hsome
    have hpos : 0 < booleanFinder hasTimestamp
        (.aggregateExpr op e param grouping without : Expr (Response ℚ)) := by
      rw [booleanFinder_aggregateExpr]
      omega
    have hkept := haccepted.keepOffsets.mpr (Or.inl hpos)
    rw [hkeep] at hkept
    cases hkept

/-! ## Selectors -/

theorem sentOperand_selector {vs : VectorSelector (Response ℚ)} (hparsed : vs.reparse = some vs)
    (hforwards : ∀ g ∈ groups,
      (down g).Forwards vs (lookupTime vs.timestamp vs.originalOffset ts)) :
    SentOperand groups down ts (.vectorSelector vs) fun g =>
      some ((down g).selected vs (lookupTime vs.timestamp vs.originalOffset ts)) where
  reparse := by rw [Expr.reparse, hparsed, Option.map_some]
  noData := by
    have hreparse : (Expr.vectorSelector vs).reparse = some (.vectorSelector vs) := by
      rw [Expr.reparse, hparsed, Option.map_some]
    rw [hasData, fresh_vectorSelector.mp (fresh_of_reparse hreparse)]
    rfl
  floats := rfl
  noAggregates := rfl
  oneSelector := rfl
  perSeries := rfl
  kept g hg := Downstream.answer_vectorSelector (hforwards g hg) rfl
  moved := by
    refine ⟨vs.originalOffset, fun _ => rfl, fun hnone g hg => ?_⟩
    refine Downstream.answer_vectorSelector (hforwards g hg) ?_
    have htimestamp : vs.timestamp = none := by
      by_contra hsome
      have hmem : Expr.vectorSelector vs ∈ (Expr.vectorSelector vs).nodes := List.mem_singleton_self _
      have hpos : 0 < booleanFinder hasTimestamp (.vectorSelector vs : Expr (Response ℚ)) :=
        List.length_pos_of_mem
          (List.mem_filter.mpr ⟨hmem, Option.isSome_iff_ne_none.mpr hsome⟩)
      omega
    rw [htimestamp, lookupTime, lookupTime, Option.getD_none, Option.getD_none, Int.sub_zero]

/-! ## Label functions -/

omit [Libraries] in
theorem isCrossSeriesCall_call (c : LabelCall) (e : Expr (Response ℚ)) :
    isCrossSeriesCall (c.call e) = false := by
  have hfunc : ["time", "pi", "label_replace", "label_join"].contains c.func = true := by
    cases c with
    | labelReplace dst replacement src regex => rfl
    | labelJoin dst separator srcs => rfl
  rw [LabelCall.call, isCrossSeriesCall, hfunc, Bool.or_true, Bool.not_true]

omit [Libraries] in
theorem isHistogramOnlyCall_call (c : LabelCall) (e : Expr (Response ℚ)) :
    isHistogramOnlyCall (c.call e) = false := by
  cases c with
  | labelReplace dst replacement src regex => rfl
  | labelJoin dst separator srcs => rfl

omit [Libraries] in
/-- A finder that passes over the calls of label functions finds what it finds in the vector. -/
theorem booleanFinder_callAll {f : Expr (Response ℚ) → Bool}
    (hcall : ∀ (c : LabelCall) e, f (c.call e) = false)
    (hnumber : ∀ val, f (.numberLiteral val) = false)
    (hstring : ∀ val, f (.stringLiteral val) = false) (calls : List LabelCall) :
    booleanFinder f (LabelCall.callAll calls e) = booleanFinder f e := by
  induction calls with
  | nil => rfl
  | cons c calls ih =>
    have hstrs : booleanFinder f (LabelCall.stringArgs c.strs : Expr (Response ℚ)) = 0 :=
      booleanFinder_literal (LabelCall.literal_stringArgs c.strs) hnumber hstring
    have hnot := hcall c (LabelCall.callAll calls e)
    rw [LabelCall.callAll, List.foldr_cons, ← LabelCall.callAll, ← ih]
    rw [LabelCall.call] at hnot ⊢
    rw [booleanFinder] at hstrs ⊢
    rw [Expr.nodes, List.filter_cons, hnot, if_neg Bool.false_ne_true, Expr.nodes,
      List.filter_append, List.length_append, hstrs]
    rfl

omit [Libraries] in
theorem visit_callAll {offset : Int}
    (h : ∀ nodes, OffsetFinder.visit ⟨false, 0, false⟩ (e.nodes ++ nodes) =
      OffsetFinder.visit ⟨true, offset, false⟩ nodes) (calls : List LabelCall)
    (nodes : List (Expr (Response ℚ))) :
    OffsetFinder.visit ⟨false, 0, false⟩ ((LabelCall.callAll calls e).nodes ++ nodes) =
      OffsetFinder.visit ⟨true, offset, false⟩ nodes := by
  induction calls generalizing nodes with
  | nil => exact h nodes
  | cons c calls ih =>
    have hnodes : (LabelCall.callAll (c :: calls) e).nodes ++ nodes =
        c.call (LabelCall.callAll calls e) :: ((LabelCall.callAll calls e).nodes ++
          ((LabelCall.stringArgs c.strs : Expr (Response ℚ)).nodes ++ nodes)) := by
      rw [← List.append_assoc]
      rfl
    rw [hnodes, ← visit_literal (LabelCall.literal_stringArgs c.strs) rfl nodes, ← ih]
    rfl

omit [Libraries] in
theorem offsetRemover_callAll (calls : List LabelCall) :
    offsetRemover (LabelCall.callAll calls e) = LabelCall.callAll calls (offsetRemover e) := by
  induction calls with
  | nil => rfl
  | cons c calls ih =>
    have hstrs : offsetRemover (LabelCall.stringArgs c.strs : Expr (Response ℚ)) =
        LabelCall.stringArgs c.strs := by
      induction c.strs with
      | nil => rfl
      | cons s strs ih => rw [LabelCall.stringArgs, offsetRemover, ih]; rfl
    show Expr.call c.func (.argument (offsetRemover (LabelCall.callAll calls e))
      (offsetRemover (LabelCall.stringArgs c.strs))) = _
    rw [ih, hstrs]
    rfl

theorem sentOperand_callAll (h : SentOperand groups down ts e answers) (calls : List LabelCall) :
    SentOperand groups down ts (LabelCall.callAll calls e) fun g =>
      (answers g).bind (LabelCall.relabelAll calls) where
  reparse := by rw [LabelCall.reparse_callAll, h.reparse, Option.map_some]
  noData := by
    cases calls with
    | nil => exact h.noData
    | cons c calls => rfl
  floats := by
    have hzero : booleanFinder isHistogramOnlyCall (LabelCall.callAll calls e) = 0 := by
      rw [booleanFinder_callAll isHistogramOnlyCall_call (fun _ => rfl) fun _ => rfl, booleanFinder,
        List.filter_eq_nil_iff.mpr (List.any_eq_false.mp h.floats)]
      rfl
    exact List.any_eq_false.mpr (List.filter_eq_nil_iff.mp (List.length_eq_zero_iff.mp hzero))
  noAggregates := by
    rw [booleanFinder_callAll (fun _ _ => rfl) (fun _ => rfl) fun _ => rfl, h.noAggregates]
  oneSelector := by rw [booleanFinder_callAll (fun _ _ => rfl) (fun _ => rfl) fun _ => rfl, h.oneSelector]
  perSeries := by
    rw [booleanFinder_callAll isCrossSeriesCall_call (fun _ => rfl) fun _ => rfl, h.perSeries]
  kept g hg := by rw [Downstream.answer_callAll, h.kept g hg]
  moved := by
    obtain ⟨offset, hvisit, hmoved⟩ := h.moved
    refine ⟨offset, visit_callAll hvisit calls, fun hnone g hg => ?_⟩
    rw [booleanFinder_callAll (fun _ _ => rfl) (fun _ => rfl) fun _ => rfl] at hnone
    rw [offsetRemover_callAll, Downstream.answer_callAll, hmoved hnone g hg]

end

end Proxystorage
end Proxeus
