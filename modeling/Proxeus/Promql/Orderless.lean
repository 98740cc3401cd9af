import Proxeus.Promql.LabelCall

/-!
# Promql.Orderless

The samples of an instant vector have no order. Values are the same if their vectors are equal up to
the order of the samples (`Value.Same`), and what the engine makes of the same values is the same
again, as long as the rest of it keeps to that (`RestOrderless`). `topk` and `bottomk`, which choose
among equal values by their order, and `limitk` and `limit_ratio` are not among the aggregations here.
-/

namespace Proxeus
namespace Promql

open Lib

/-! ## Values without an order -/

inductive Value.Same : Value ℚ → Value ℚ → Prop where
  | vector {v v' : InstantVector ℚ} (h : v.Perm v') : Same (.vector v) (.vector v')
  | values {head head' tail tail' : Value ℚ} (hhead : Same head head') (htail : Same tail tail') :
      Same (.values head tail) (.values head' tail')
  | scalar (v : ℚ) : Same (.scalar v) (.scalar v)
  | string (s : String) : Same (.string s) (.string s)
  | matrix (stop range : Int) (steps : List (Int × InstantVector ℚ)) :
      Same (.matrix stop range steps) (.matrix stop range steps)
  | noValue : Same .noValue .noValue

theorem Value.Same.refl (x : Value ℚ) : Value.Same x x := by
  induction x with
  | scalar v => exact .scalar v
  | string s => exact .string s
  | vector v => exact .vector (.refl v)
  | matrix stop range steps => exact .matrix stop range steps
  | noValue => exact .noValue
  | values head tail ih ih' => exact .values ih ih'

theorem Value.Same.trans {x y z : Value ℚ} (h : Value.Same x y) (h' : Value.Same y z) :
    Value.Same x z := by
  induction h generalizing z with
  | vector h =>
    cases h' with
    | vector h' => exact .vector (h.trans h')
  | values hhead htail ih ih' =>
    cases h' with
    | values hhead' htail' => exact .values (ih hhead') (ih' htail')
  | _ => exact h'

/-- Two evaluations that fail, or whose values are the same. -/
abbrev SameAnswer : Option (Value ℚ) → Option (Value ℚ) → Prop := Option.Rel Value.Same

theorem SameAnswer.refl : ∀ x : Option (Value ℚ), SameAnswer x x
  | none => .none
  | some x => .some (.refl x)

theorem SameAnswer.trans {x y z : Option (Value ℚ)} (h : SameAnswer x y) (h' : SameAnswer y z) :
    SameAnswer x z := by
  cases h with
  | none => exact h'
  | some h =>
    cases h' with
    | some h' => exact .some (h.trans h')

theorem SameAnswer.vector {v v' : Option (InstantVector ℚ)} (h : Option.Rel List.Perm v v') :
    SameAnswer (v.map .vector) (v'.map .vector) := by
  cases h with
  | none => exact .none
  | some h => exact .some (.vector h)

theorem SameAnswer.bind {x x' : Option (Value ℚ)} (h : SameAnswer x x')
    {f f' : Value ℚ → Option (Value ℚ)} (hf : ∀ y y', Value.Same y y' → SameAnswer (f y) (f' y')) :
    SameAnswer (x.bind f) (x'.bind f') := by
  cases h with
  | none => exact .none
  | some h => exact hf _ _ h

theorem Value.Same.toVector {x x' : Value ℚ} (h : Value.Same x x') :
    Option.Rel List.Perm x.toVector x'.toVector := by
  cases h with
  | vector h => exact .some h
  | _ => exact .none

theorem SameAnswer.toVector {x x' : Option (Value ℚ)} (h : SameAnswer x x') :
    Option.Rel List.Perm (x.bind Value.toVector) (x'.bind Value.toVector) := by
  cases h with
  | none => exact .none
  | some h => exact h.toVector

theorem eq_vector_of_toVector {x : Value ℚ} {v : InstantVector ℚ} (h : x.toVector = some v) :
    x = .vector v := by
  cases x with
  | vector v' =>
    cases h
    rfl
  | _ => cases h

/-! ## Aggregations -/

/-- The rest of the engine takes no notice of the order of the samples. -/
structure RestOrderless [Libraries] : Prop where
  call : ∀ func t x x', Value.Same x x' →
    SameAnswer (Libraries.rest.call func x t) (Libraries.rest.call func x' t)
  aggregation : ∀ op param grouping without, op ∈ [.stddev, .stdvar, .quantile] →
    ∀ v v' : InstantVector ℚ, v.Perm v' →
      Option.Rel List.Perm (Libraries.rest.aggregation op param grouping without v)
        (Libraries.rest.aggregation op param grouping without v')
  binary : ∀ op l l' r r', Value.Same l l' → Value.Same r r' →
    SameAnswer (Libraries.rest.binary op l r) (Libraries.rest.binary op l' r')
  unary : ∀ op x x', Value.Same x x' →
    SameAnswer (Libraries.rest.unary op x) (Libraries.rest.unary op x')

/-- The aggregations that take no notice of the order, by the values of their parameters. -/
inductive Orderless : ItemType → Value ℚ → Prop where
  | composable {op : ItemType} (hop : op ∈ composable) (value : Value ℚ) : Orderless op value
  | avg (value : Value ℚ) : Orderless .avg value
  | countValues (valueLabel : String) : Orderless .countValues (.string valueLabel)
  | rest {op : ItemType} (hop : op ∈ [.stddev, .stdvar, .quantile]) (value : Value ℚ) :
      Orderless op value

/-- A result that is put together from itself alone. -/
theorem orderFree_of_recombines {f g : List ℚ → ℚ} (h : Recombines f g f) : OrderFree f := by
  intro l l' hl
  by_cases hnil : l = []
  · subst hnil
    rw [hl.nil_eq]
  · have hparts : ∀ p ∈ [l], p ≠ [] := fun p hp => by rwa [List.mem_singleton.mp hp]
    have hself := h.recombine [l] (List.cons_ne_nil _ _) hparts l (by rw [List.flatten_singleton])
    have hother := h.recombine [l] (List.cons_ne_nil _ _) hparts l' (by rwa [List.flatten_singleton])
    exact hself.symm.trans hother

section

variable [Libraries] {v v' : InstantVector ℚ}

theorem aggregation_perm (hrest : RestOrderless) {op : ItemType} {value : Value ℚ}
    (hop : Orderless op value) (grouping : List String) (without : Bool) (h : v.Perm v') :
    Option.Rel List.Perm (aggregation op value grouping without v)
      (aggregation op value grouping without v') := by
  cases hop with
  | composable hop =>
    obtain ⟨f, g, hr, hf, -⟩ := exists_recombines hop
    rw [hf, hf]
    exact .some (aggregateBy_perm _ (orderFree_of_recombines hr) h)
  | avg => exact .some (aggregateBy_perm _ (fun _ _ hl => mean_perm hl) h)
  | countValues valueLabel =>
    exact .some (aggregateBy_perm _ (fun _ _ hl => congrArg Nat.cast hl.length_eq) h)
  | rest hop =>
    have hrest := hrest.aggregation op value grouping without hop v v' h
    simp only [List.mem_cons, List.not_mem_nil, or_false] at hop
    rcases hop with rfl | rfl | rfl
    · exact hrest
    · exact hrest
    · exact hrest

/-! ## Functions and operators -/

omit [Libraries] in
theorem relabelVector_perm (f : Labels → Labels) (h : v.Perm v') :
    Option.Rel List.Perm (relabelVector f v) (relabelVector f v') := by
  rw [LabelCall.relabelVector_eq, LabelCall.relabelVector_eq]
  by_cases hnodup : (v.map fun s => f s.metric).Nodup
  · rw [if_pos hnodup, if_pos ((h.map _).nodup_iff.mp hnodup)]
    exact .some (h.map _)
  · rw [if_neg hnodup, if_neg fun hnodup' => hnodup ((h.map _).nodup_iff.mpr hnodup')]
    exact .none

omit [Libraries] in
/-- Strings have no order to lose. -/
theorem strings_same {x x' : Value ℚ} (h : Value.Same x x') : strings x = strings x' := by
  induction h with
  | values hhead htail ih ih' =>
    cases hhead with
    | string s => rw [strings, strings, ih']
    | _ => rfl
  | _ => rfl

omit [Libraries] in
theorem eq_stringValues {x : Value ℚ} {strs : List String} (h : strings x = some strs) :
    x = LabelCall.stringValues strs := by
  induction x generalizing strs with
  | noValue =>
    cases h
    rfl
  | values head tail _ ih =>
    cases head with
    | string s =>
      obtain ⟨strs, htail, rfl⟩ := Option.map_eq_some_iff.mp h
      rw [ih htail]
      rfl
    | _ => cases h
  | _ => cases h

/-- What a label function does, by the strings after its vector. -/
def labelFunction (func : String) (v : InstantVector ℚ) (strs : List String) : Option (Value ℚ) :=
  if func = "label_replace" then
    match strs with
    | [dst, replacement, src, regex] =>
      (relabelVector (labelReplace dst replacement src regex) v).map .vector
    | _ => none
  else
    match strs with
    | dst :: separator :: srcs => (relabelVector (labelJoin dst separator srcs) v).map .vector
    | _ => none

theorem callFunction_labels {func : String} (hfunc : func = "label_replace" ∨ func = "label_join")
    (v : InstantVector ℚ) (tail : Value ℚ) (t : Int) :
    callFunction func (.values (.vector v) tail) t = (strings tail).bind (labelFunction func v) := by
  unfold callFunction labelFunction
  rcases hfunc with rfl | rfl
  · rw [if_pos rfl]
    cases hstrs : strings tail with
    | none =>
      rw [Option.bind_none]
      split
      · rename_i heq
        cases heq
        cases hstrs
      · rfl
    | some strs =>
      cases eq_stringValues hstrs
      rw [Option.bind_some, if_pos rfl]
      rcases strs with _ | ⟨dst, _ | ⟨replacement, _ | ⟨src, _ | ⟨regex, _ | ⟨s, strs⟩⟩⟩⟩⟩ <;> rfl
  · rw [if_neg (by decide), if_pos rfl]
    cases hstrs : strings tail with
    | none =>
      rw [Option.bind_none]
      split
      · rename_i heq
        cases heq
        rename_i srcs
        have hsrcs : strings srcs = none := by
          simpa only [strings, Option.map_eq_none_iff] using hstrs
        rw [hsrcs, Option.bind_none]
      · rfl
    | some strs =>
      cases eq_stringValues hstrs
      rw [Option.bind_some, if_neg (by decide)]
      rcases strs with _ | ⟨dst, _ | ⟨separator, srcs⟩⟩
      · rfl
      · rfl
      · show (strings (LabelCall.stringValues srcs)).bind _ = _
        rw [LabelCall.strings_stringValues, Option.bind_some]

theorem labelFunction_perm (func : String) (strs : List String) (h : v.Perm v') :
    SameAnswer (labelFunction func v strs) (labelFunction func v' strs) := by
  unfold labelFunction
  split
  · split
    · exact SameAnswer.vector (relabelVector_perm _ h)
    · exact .none
  · split
    · exact SameAnswer.vector (relabelVector_perm _ h)
    · exact .none

/-- The vector that a label function is called for. -/
def vectorArg : Value ℚ → Option (InstantVector ℚ)
  | .values head _ => head.toVector
  | _ => none

theorem callFunction_no_vector {func : String}
    (hfunc : func = "label_replace" ∨ func = "label_join") {x : Value ℚ} (hx : vectorArg x = none)
    (t : Int) : callFunction func x t = none := by
  unfold callFunction
  rcases hfunc with rfl | rfl
  · rw [if_pos rfl]
    split
    · cases hx
    · rfl
  · rw [if_neg (by decide), if_pos rfl]
    split
    · cases hx
    · rfl

theorem callFunction_same (hrest : RestOrderless) (func : String) (t : Int) {x x' : Value ℚ}
    (h : Value.Same x x') : SameAnswer (callFunction func x t) (callFunction func x' t) := by
  by_cases hfunc : func = "label_replace" ∨ func = "label_join"
  · have hother (hx : vectorArg x = none) (hx' : vectorArg x' = none) :
        SameAnswer (callFunction func x t) (callFunction func x' t) := by
      rw [callFunction_no_vector hfunc hx, callFunction_no_vector hfunc hx']
      exact .none
    cases h with
    | values hhead htail =>
      cases hhead with
      | vector h =>
        rw [callFunction_labels hfunc, callFunction_labels hfunc, strings_same htail]
        rename_i tail' _ _
        cases strings tail' with
        | none => exact .none
        | some strs => exact labelFunction_perm func strs h
      | _ => exact hother rfl rfl
    | _ => exact hother rfl rfl
  · unfold callFunction
    rw [if_neg fun hf => hfunc (Or.inl hf), if_neg fun hf => hfunc (Or.inr hf),
      if_neg fun hf => hfunc (Or.inl hf), if_neg fun hf => hfunc (Or.inr hf)]
    exact hrest.call func t x x' h

omit [Libraries] in
/-- Among samples with different signatures the first one of a signature is the only one. -/
theorem find_signature_perm {w w' : InstantVector ℚ} (hw : w.Perm w') (hnodup : (w.map matchSignature).Nodup)
    (l : Labels) :
    w.find? (fun r => matchSignature r = l) = w'.find? fun r => matchSignature r = l := by
  cases hfind : w'.find? fun r => matchSignature r = l with
  | none =>
    refine List.find?_eq_none.mpr fun r hr => ?_
    exact List.find?_eq_none.mp hfind r (hw.mem_iff.mp hr)
  | some r =>
    have hr : matchSignature r = l := by simpa using List.find?_some hfind
    cases hfind' : w.find? fun r => matchSignature r = l with
    | none =>
      have hmem := hw.mem_iff.mpr (List.mem_of_find?_eq_some hfind)
      exact absurd (decide_eq_true hr) (List.find?_eq_none.mp hfind' r hmem)
    | some r' =>
      have hr' : matchSignature r' = l := by simpa using List.find?_some hfind'
      have hmem := hw.mem_iff.mpr (List.mem_of_find?_eq_some hfind)
      rw [List.inj_on_of_nodup_map hnodup (List.mem_of_find?_eq_some hfind') hmem (hr'.trans hr.symm)]

omit [Libraries] in
theorem vectorDiv_perm {w w' : InstantVector ℚ} (h : v.Perm v') (hw : w.Perm w') :
    Option.Rel List.Perm (vectorDiv v w) (vectorDiv v' w') := by
  have hsignatures := hw.map matchSignature
  have hmatched : (v.filter fun l => matchSignature l ∈ w.map matchSignature).Perm
      (v'.filter fun l => matchSignature l ∈ w'.map matchSignature) := by
    have hcongr : (v.filter fun l => matchSignature l ∈ w.map matchSignature) =
        v.filter fun l => matchSignature l ∈ w'.map matchSignature :=
      List.filter_congr fun l _ => by rw [decide_eq_decide, hsignatures.mem_iff]
    rw [hcongr]
    exact h.filter _
  rw [vectorDiv, vectorDiv]
  by_cases hnil : v = [] ∨ w = []
  · rw [if_pos hnil, if_pos (hnil.imp (fun hv => (hv ▸ h).nil_eq.symm) fun hv => (hv ▸ hw).nil_eq.symm)]
    exact .some (.refl [])
  · rw [if_neg hnil, if_neg (mt (Or.imp (fun hv => (hv ▸ h).eq_nil) fun hv => (hv ▸ hw).eq_nil) hnil)]
    by_cases hright : (w.map matchSignature).Nodup
    · rw [if_neg (not_not.mpr hright), if_neg (not_not.mpr (hsignatures.nodup_iff.mp hright))]
      have hleft := (hmatched.map matchSignature).nodup_iff
      split
      · rename_i hnot
        rw [if_pos (mt hleft.mpr hnot)]
        exact .none
      · rename_i hnot
        rw [if_neg (mt (mt hleft.mp) hnot)]
        refine .some ?_
        simp only [find_signature_perm hw hright]
        exact h.filterMap _
    · rw [if_pos hright, if_pos (mt hsignatures.nodup_iff.mpr hright)]
      exact .none

theorem binaryOperator_other (op : String) {l r : Value ℚ} (h : l.toVector = none ∨ r.toVector = none) :
    binaryOperator op l r = Libraries.rest.binary op l r := by
  cases l with
  | vector v =>
    cases r with
    | vector w => exact absurd h (by simp [Value.toVector])
    | _ => rfl
  | _ => rfl

theorem binaryOperator_same (hrest : RestOrderless) (op : String) {l l' r r' : Value ℚ}
    (hl : Value.Same l l') (hr : Value.Same r r') :
    SameAnswer (binaryOperator op l r) (binaryOperator op l' r') := by
  have hother (h : l.toVector = none ∧ l'.toVector = none ∨ r.toVector = none ∧ r'.toVector = none) :
      SameAnswer (binaryOperator op l r) (binaryOperator op l' r') := by
    rw [binaryOperator_other op (h.imp And.left And.left),
      binaryOperator_other op (h.imp And.right And.right)]
    exact hrest.binary op l l' r r' hl hr
  have hleft := hl.toVector
  have hright := hr.toVector
  cases hv : l.toVector with
  | none =>
    rw [hv] at hleft
    generalize hv' : l'.toVector = left at hleft
    cases hleft
    exact hother (Or.inl ⟨hv, hv'⟩)
  | some v =>
    cases hw : r.toVector with
    | none =>
      rw [hw] at hright
      generalize hw' : r'.toVector = right at hright
      cases hright
      exact hother (Or.inr ⟨hw, hw'⟩)
    | some w =>
      cases eq_vector_of_toVector hv
      cases eq_vector_of_toVector hw
      cases hl with
      | vector h =>
        cases hr with
        | vector hw =>
          rename_i v' w'
          show SameAnswer (if op = "/" then _ else _) (if op = "/" then _ else _)
          split
          · exact SameAnswer.vector (vectorDiv_perm h hw)
          · exact hrest.binary op _ _ _ _ (.vector h) (.vector hw)

end

end Promql
end Proxeus
