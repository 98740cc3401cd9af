import Proxeus.Promql.Orderless
import Proxeus.Proxystorage.GroupPushdown

/-!
# Proxystorage.SeriesContext

What a query does with one selector that it does with each series by itself: the functions of
`perSeriesFuncs`, operators with a number, signs and parentheses (`SeriesContext`). Such an expression
is sent to the servers as a whole, below an aggregation too. Where the parts of the engine that it uses
work on each series by itself (`BySeries`), the labelled answers of the groups are the value that the
expression has over the labelled series of all groups (`pools_plug`).
-/

namespace Proxeus
namespace Proxystorage

open Lib Promclient Promql

/-! ## Contexts -/

/-- An expression around a selector. The other operands are literals. -/
inductive SeriesContext (D : Type) where
  | hole
  | call (func : String) (args : SeriesContext D)
  /-- the first argument, before literals -/
  | first (arg : SeriesContext D) (rest : Expr D) (value : Value ℚ) (hrest : Literal rest value)
  /-- an argument after a literal -/
  | after (lit : Expr D) (value : Value ℚ) (hlit : Literal lit value) (args : SeriesContext D)
  | binaryLeft (op : String) (lhs : SeriesContext D) (k : ℚ)
  | binaryRight (op : String) (k : ℚ) (rhs : SeriesContext D)
  | unary (op : String) (expr : SeriesContext D)
  | paren (expr : SeriesContext D)

namespace SeriesContext

section

variable {D : Type}

def plug : SeriesContext D → Expr D → Expr D
  | hole, e => e
  | call func args, e => .call func (args.plug e)
  | first arg rest _ _, e => .argument (arg.plug e) rest
  | after lit _ _ args, e => .argument lit (args.plug e)
  | binaryLeft op lhs k, e => .binaryExpr op (lhs.plug e) (.numberLiteral k)
  | binaryRight op k rhs, e => .binaryExpr op (.numberLiteral k) (rhs.plug e)
  | unary op expr, e => .unaryExpr op (expr.plug e)
  | paren expr, e => .parenExpr (expr.plug e)

/-- Walks that go through every node, with `map` below literals. -/
theorem map_plug (c : SeriesContext D) (e : Expr D) {walk : Expr D → Option (Expr D)}
    (hlit : ∀ lit value, Literal lit value → walk lit = some lit)
    (hcall : ∀ func args, walk (.call func args) = (walk args).map (.call func))
    (hargument : ∀ head tail, walk (.argument head tail) =
      (walk head).bind fun head => (walk tail).map fun tail => .argument head tail)
    (hbinary : ∀ op lhs rhs, walk (.binaryExpr op lhs rhs) =
      (walk lhs).bind fun lhs => (walk rhs).map fun rhs => .binaryExpr op lhs rhs)
    (hunary : ∀ op expr, walk (.unaryExpr op expr) = (walk expr).map (.unaryExpr op))
    (hparen : ∀ expr, walk (.parenExpr expr) = (walk expr).map .parenExpr) :
    walk (c.plug e) = (walk e).map c.plug := by
  induction c with
  | hole =>
    show walk e = _
    cases walk e <;> rfl
  | call func args ih =>
    rw [plug, hcall, ih]
    cases walk e <;> rfl
  | first arg rest value hrest ih =>
    rw [plug, hargument, ih, hlit rest value hrest]
    cases walk e <;> rfl
  | after lit value hlit' args ih =>
    rw [plug, hargument, ih, hlit lit value hlit']
    cases walk e <;> rfl
  | binaryLeft op lhs k ih =>
    rw [plug, hbinary, ih, hlit _ _ (.numberLiteral k)]
    cases walk e <;> rfl
  | binaryRight op k rhs ih =>
    rw [plug, hbinary, ih, hlit _ _ (.numberLiteral k)]
    cases walk e <;> rfl
  | unary op expr ih =>
    rw [plug, hunary, ih]
    cases walk e <;> rfl
  | paren expr ih =>
    rw [plug, hparen, ih]
    cases walk e <;> rfl

theorem reparse_plug [Regexp] (c : SeriesContext D) (e : Expr D) :
    (c.plug e).reparse = e.reparse.map c.plug :=
  c.map_plug e (fun _ _ h => h.reparse) (fun _ _ => rfl) (fun _ _ => rfl) (fun _ _ _ => rfl)
    (fun _ _ => rfl) fun _ => rfl

theorem filterMatcherVisitor_plug [Regexp] (ls : LabelSet) (c : SeriesContext D) (e : Expr D) :
    filterMatcherVisitor ls (c.plug e) = (filterMatcherVisitor ls e).map c.plug :=
  c.map_plug e (fun _ _ h => filterMatcherVisitor_literal h ls) (fun _ _ => rfl) (fun _ _ => rfl)
    (fun _ _ _ => rfl) (fun _ _ => rfl) fun _ => rfl

/-- The value of an expression, by the value of what it is around. -/
def apply [Libraries] (t : Int) : SeriesContext D → Value ℚ → Option (Value ℚ)
  | hole, x => some x
  | call func args, x => (args.apply t x).bind fun args => Engine.call func args t
  | first arg _ value _, x => (arg.apply t x).map fun arg => .values arg value
  | after _ value _ args, x => (args.apply t x).map fun args => .values value args
  | binaryLeft op lhs k, x => (lhs.apply t x).bind fun lhs => Engine.binary op lhs (.scalar k)
  | binaryRight op k rhs, x => (rhs.apply t x).bind fun rhs => Engine.binary op (.scalar k) rhs
  | unary op expr, x => (expr.apply t x).bind (Engine.unary op)
  | paren expr, x => expr.apply t x

theorem eval_plug [Libraries] (src : Source D ℚ) (c : SeriesContext D) (e : Expr D) (t : Int) :
    eval src (c.plug e) t = (eval src e t).bind (c.apply t) := by
  induction c with
  | hole => exact (Option.bind_fun_some _).symm
  | call func args ih =>
    rw [plug, eval, ih, Option.bind_assoc]
    rfl
  | first arg rest value hrest ih =>
    rw [plug, eval, ih, hrest.eval, Option.bind_assoc]
    refine Option.bind_congr fun x _ => ?_
    rw [apply, Option.map_eq_bind]
    rfl
  | after lit value hlit args ih =>
    rw [plug, eval, ih, hlit.eval, Option.bind_some, Option.map_bind]
    rfl
  | binaryLeft op lhs k ih =>
    rw [plug, eval, ih, Option.bind_assoc]
    rfl
  | binaryRight op k rhs ih =>
    rw [plug, eval, eval, ih, Option.bind_some, Option.bind_assoc]
    rfl
  | unary op expr ih =>
    rw [plug, eval, ih, Option.bind_assoc]
    rfl
  | paren expr ih =>
    rw [plug, eval, ih]
    rfl

end

/-! ## What is found in them -/

section

variable [Libraries] {D : Type}

/-- The functions that are sent to the servers, but those of histograms, those that depend on the time,
and those that sort. -/
structure SentFunc (func : String) : Prop where
  perSeries : perSeriesFuncs.contains func = true
  floats : histogramOnlyFuncs.contains func = false
  safe : Engine.atModifierUnsafe ℚ func = false
  unsorted : func ≠ "sort" ∧ func ≠ "sort_desc"

def Sent : SeriesContext D → Prop
  | hole => True
  | call func args => SentFunc func ∧ args.Sent
  | first arg _ _ _ => arg.Sent
  | after _ _ _ args => args.Sent
  | binaryLeft _ lhs _ => lhs.Sent
  | binaryRight _ _ rhs => rhs.Sent
  | unary _ expr => expr.Sent
  | paren expr => expr.Sent

theorem apply_safe {c : SeriesContext D} (h : c.Sent) (t t' : Int) : c.apply t = c.apply t' := by
  induction c with
  | hole => rfl
  | call func args ih =>
    funext x
    rw [apply, apply, ih h.2]
    exact Option.bind_congr fun args _ => Engine.call_safe func h.1.safe args t t'
  | first arg rest value hrest ih => simp only [apply, ih h]
  | after lit value hlit args ih => simp only [apply, ih h]
  | binaryLeft op lhs k ih => simp only [apply, ih h]
  | binaryRight op k rhs ih => simp only [apply, ih h]
  | unary op expr ih => simp only [apply, ih h]
  | paren expr ih => simp only [apply, ih h]

end

section

variable [Libraries] {c : SeriesContext (Response ℚ)} {e : Expr (Response ℚ)}

/-- Nothing is found around the operand that is not found in literals and in what is sent. -/
theorem booleanFinder_plug (h : c.Sent) {f : Expr (Response ℚ) → Bool}
    (hcall : ∀ func args, SentFunc func → f (.call func args) = false)
    (hnumber : ∀ val, f (.numberLiteral val) = false)
    (hstring : ∀ val, f (.stringLiteral val) = false)
    (hbinary : ∀ op lhs rhs, f (.binaryExpr op lhs rhs) = false)
    (hunary : ∀ op expr, f (.unaryExpr op expr) = false)
    (hparen : ∀ expr, f (.parenExpr expr) = false) :
    booleanFinder f (c.plug e) = booleanFinder f e := by
  have hlit (lit : Expr (Response ℚ)) (value : Value ℚ) (hlit : Literal lit value) :
      (lit.nodes.filter f).length = 0 := booleanFinder_literal hlit hnumber hstring
  induction c with
  | hole => rfl
  | call func args ih =>
    rw [← ih h.2, booleanFinder, plug, Expr.nodes, List.filter_cons, hcall func _ h.1]
    rfl
  | first arg rest value hrest ih =>
    rw [← ih h, booleanFinder, plug, Expr.nodes, List.filter_append, List.length_append,
      hlit rest value hrest]
    rfl
  | after lit value hlit' args ih =>
    rw [← ih h, booleanFinder, plug, Expr.nodes, List.filter_append, List.length_append,
      hlit lit value hlit', Nat.zero_add]
    rfl
  | binaryLeft op lhs k ih =>
    rw [← ih h, booleanFinder, plug, Expr.nodes, List.filter_cons, hbinary, List.filter_append,
      if_neg Bool.false_ne_true, List.length_append, hlit _ _ (.numberLiteral k)]
    rfl
  | binaryRight op k rhs ih =>
    rw [← ih h, booleanFinder, plug, Expr.nodes, List.filter_cons, hbinary, List.filter_append,
      if_neg Bool.false_ne_true, List.length_append, hlit _ _ (.numberLiteral k), Nat.zero_add]
    rfl
  | unary op expr ih =>
    rw [← ih h, booleanFinder, plug, Expr.nodes, List.filter_cons, hunary]
    rfl
  | paren expr ih =>
    rw [← ih h, booleanFinder, plug, Expr.nodes, List.filter_cons, hparen]
    rfl

omit [Libraries] in
/-- The offset that is found is the operand's. -/
theorem visit_plug {offset : Int}
    (h : ∀ nodes, OffsetFinder.visit ⟨false, 0, false⟩ (e.nodes ++ nodes) =
      OffsetFinder.visit ⟨true, offset, false⟩ nodes) (c : SeriesContext (Response ℚ))
    (nodes : List (Expr (Response ℚ))) :
    OffsetFinder.visit ⟨false, 0, false⟩ ((c.plug e).nodes ++ nodes) =
      OffsetFinder.visit ⟨true, offset, false⟩ nodes := by
  induction c generalizing nodes with
  | hole => exact h nodes
  | call func args ih => exact ih nodes
  | first arg rest value hrest ih =>
    rw [plug, Expr.nodes, List.append_assoc, ih, visit_literal hrest rfl]
  | after lit value hlit args ih =>
    rw [plug, Expr.nodes, List.append_assoc, visit_literal hlit rfl, ih]
  | binaryLeft op lhs k ih =>
    have hnodes : ((binaryLeft op lhs k).plug e).nodes ++ nodes =
        (binaryLeft op lhs k).plug e :: ((lhs.plug e).nodes ++
          ((.numberLiteral k : Expr (Response ℚ)).nodes ++ nodes)) := by
      rw [← List.append_assoc]
      rfl
    rw [hnodes, ← visit_literal (.numberLiteral k) rfl nodes, ← ih]
    rfl
  | binaryRight op k rhs ih => exact ih nodes
  | unary op expr ih => exact ih nodes
  | paren expr ih => exact ih nodes

omit [Libraries] in
theorem offsetRemover_of_literal {lit : Expr (Response ℚ)} {value : Value ℚ} (h : Literal lit value) :
    offsetRemover lit = lit := by
  induction h with
  | argument hhead htail ih ih' => rw [offsetRemover, ih, ih']
  | _ => rfl

omit [Libraries] in
theorem offsetRemover_plug (c : SeriesContext (Response ℚ)) (e : Expr (Response ℚ)) :
    offsetRemover (c.plug e) = c.plug (offsetRemover e) := by
  induction c with
  | hole => rfl
  | call func args ih => rw [plug, offsetRemover, ih]; rfl
  | first arg rest value hrest ih =>
    rw [plug, offsetRemover, ih, offsetRemover_of_literal hrest]
    rfl
  | after lit value hlit args ih =>
    rw [plug, offsetRemover, ih, offsetRemover_of_literal hlit]
    rfl
  | binaryLeft op lhs k ih => rw [plug, offsetRemover, ih]; rfl
  | binaryRight op k rhs ih => rw [plug, offsetRemover, ih]; rfl
  | unary op expr ih => rw [plug, offsetRemover, ih]; rfl
  | paren expr ih => rw [plug, offsetRemover, ih]; rfl

end

end SeriesContext

/-! ## Values over several groups -/

/-- A value over the labelled series of the groups, by the values over the series of each. -/
inductive Split (groups : List ServerGroup) : Value ℚ → (ServerGroup → Value ℚ) → Prop where
  | vector {v : InstantVector ℚ} {parts : ServerGroup → InstantVector ℚ}
      (hperm : v.Perm (labelledParts groups (fun g => g.labels) parts))
      (hnodup : ∀ g ∈ groups, ((parts g).map VectorSample.metric).Nodup)
      (hlacks : ∀ g ∈ groups, Lacks g.labels (parts g)) :
      Split groups (.vector v) fun g => .vector (parts g)
  | matrix (stop range : Int) (times : List Int) {steps : ServerGroup → Int → InstantVector ℚ}
      (hnodup : ∀ g ∈ groups, ∀ t ∈ times, ((steps g t).map VectorSample.metric).Nodup)
      (hlacks : ∀ g ∈ groups, ∀ t ∈ times, Lacks g.labels (steps g t)) :
      Split groups
        (.matrix stop range (times.map fun t =>
          (t, labelledParts groups (fun g => g.labels) fun g => steps g t)))
        fun g => .matrix stop range (times.map fun t => (t, steps g t))
  | scalar (k : ℚ) : Split groups (.scalar k) fun _ => .scalar k
  | string (s : String) : Split groups (.string s) fun _ => .string s
  | noValue : Split groups .noValue fun _ => .noValue
  | values {head tail : Value ℚ} {heads tails : ServerGroup → Value ℚ}
      (hhead : Split groups head heads) (htail : Split groups tail tails) :
      Split groups (.values head tail) fun g => .values (heads g) (tails g)

/-- A value over no series. -/
inductive NoSeries : Value ℚ → Prop where
  | vector : NoSeries (.vector [])
  | matrix {stop range : Int} {steps : List (Int × InstantVector ℚ)} (h : ∀ p ∈ steps, p.2 = []) :
      NoSeries (.matrix stop range steps)
  | first {head tail : Value ℚ} (h : NoSeries head) : NoSeries (.values head tail)
  | after {head tail : Value ℚ} (h : NoSeries tail) : NoSeries (.values head tail)

theorem NoSeries.nil {v : InstantVector ℚ} (h : NoSeries (.vector v)) : v = [] := by
  cases h
  rfl

/-- The results of the groups make up the result, which fails if one of them does. -/
def SplitAnswer (groups : List ServerGroup) (answer : Option (Value ℚ))
    (answers : ServerGroup → Option (Value ℚ)) : Prop :=
  (∃ x parts, answer = some x ∧ Split groups x parts ∧ ∀ g ∈ groups, answers g = some (parts g)) ∨
    (answer = none ∧ ∃ g ∈ groups, answers g = none)

/-- The types of values, and of lists of arguments. -/
inductive Shape where
  | scalar
  | string
  | vector
  | matrix
  | noValue
  | values (head tail : Shape)
deriving DecidableEq, Repr

def shape : Value ℚ → Shape
  | .scalar _ => .scalar
  | .string _ => .string
  | .vector _ => .vector
  | .matrix _ _ _ => .matrix
  | .noValue => .noValue
  | .values head tail => .values (shape head) (shape tail)

theorem shape_split {groups : List ServerGroup} {x : Value ℚ} {parts : ServerGroup → Value ℚ}
    (h : Split groups x parts) (g : ServerGroup) : shape (parts g) = shape x := by
  induction h with
  | values hhead htail ih ih' => rw [shape, shape, ih, ih']
  | _ => rfl

/-- A part of the engine from values of one type to those of another that works on each series by
itself, and makes nothing of no series. -/
structure BySeries (groups : List ServerGroup) (σ τ : Shape) (f : Value ℚ → Option (Value ℚ)) :
    Prop where
  shape : ∀ x y, shape x = σ → f x = some y → shape y = τ
  split : ∀ x parts, Proxystorage.shape x = σ → Split groups x parts →
    SplitAnswer groups (f x) fun g => f (parts g)
  noSeries : ∀ x, Proxystorage.shape x = σ → NoSeries x → ∃ y, f x = some y ∧ NoSeries y

section

variable {groups : List ServerGroup} {σ τ υ : Shape} {f f' : Value ℚ → Option (Value ℚ)}

theorem SplitAnswer.congr {answer : Option (Value ℚ)} {answers answers' : ServerGroup → Option (Value ℚ)}
    (h : SplitAnswer groups answer answers) (heq : ∀ g ∈ groups, answers g = answers' g) :
    SplitAnswer groups answer answers' := by
  rcases h with ⟨x, parts, hx, hsplit, hparts⟩ | ⟨hnone, g, hg, hfails⟩
  · exact Or.inl ⟨x, parts, hx, hsplit, fun g hg => (heq g hg).symm.trans (hparts g hg)⟩
  · exact Or.inr ⟨hnone, g, hg, (heq g hg).symm.trans hfails⟩

namespace BySeries

theorem pure : BySeries groups σ σ some where
  shape _ _ hx hy := Option.some.inj hy ▸ hx
  split x parts _ h := Or.inl ⟨x, parts, rfl, h, fun _ _ => rfl⟩
  noSeries x _ h := ⟨x, rfl, h⟩

theorem bind (h : BySeries groups σ τ f) (h' : BySeries groups τ υ f') :
    BySeries groups σ υ fun x => (f x).bind f' where
  shape x y hx hy := by
    obtain ⟨z, hz, hy⟩ := Option.bind_eq_some_iff.mp hy
    exact h'.shape z y (h.shape x z hx hz) hy
  split x parts hx hsplit := by
    rcases h.split x parts hx hsplit with ⟨y, parts', hy, hsplit', hparts⟩ | ⟨hnone, g, hg, hfails⟩
    · rw [hy]
      refine (h'.split y parts' (h.shape x y hx hy) hsplit').congr fun g hg => ?_
      have hpart : f (parts g) = some (parts' g) := hparts g hg
      rw [hpart, Option.bind_some]
    · have hfails : f (parts g) = none := hfails
      refine Or.inr ⟨by rw [hnone, Option.bind_none], g, hg, ?_⟩
      show (f (parts g)).bind f' = none
      rw [hfails, Option.bind_none]
  noSeries x hx hnone := by
    obtain ⟨y, hy, hnone⟩ := h.noSeries x hx hnone
    rw [hy]
    exact h'.noSeries y (h.shape x y hx hy) hnone

/-- The arguments of a call, one of which is of series. -/
theorem map (h : BySeries groups σ τ f) {g : Value ℚ → Value ℚ}
    (hshape : ∀ x, Proxystorage.shape x = τ → Proxystorage.shape (g x) = υ)
    (hsplit : ∀ x parts, Split groups x parts → Split groups (g x) fun i => g (parts i))
    (hnone : ∀ x, NoSeries x → NoSeries (g x)) : BySeries groups σ υ fun x => (f x).map g := by
  have hg : BySeries groups τ υ fun x => some (g x) :=
    ⟨fun x y hx hy => Option.some.inj hy ▸ hshape x hx,
      fun x parts _ hx => Or.inl ⟨_, _, rfl, hsplit x parts hx, fun _ _ => rfl⟩,
      fun x _ hx => ⟨_, rfl, hnone x hx⟩⟩
  have hmap : (fun x => (f x).map g) = fun x => (f x).bind fun x => some (g x) :=
    funext fun x => Option.map_eq_bind
  rw [hmap]
  exact h.bind hg

end BySeries

theorem split_literal {D : Type} {lit : Expr D} {value : Value ℚ} (h : Literal lit value) :
    Split groups value fun _ => value := by
  induction h with
  | noExpr => exact .noValue
  | numberLiteral val => exact .scalar val
  | stringLiteral val => exact .string val
  | argument hhead htail ih ih' => exact .values ih ih'

/-! ## Functions of values -/

def withoutName (f : ℚ → ℚ) (s : VectorSample ℚ) : VectorSample ℚ :=
  ⟨s.metric.del [metricNameLabel], f s.value⟩

/-- A function that is applied to the value of each series, which loses its metric name. -/
def valueFunction (f : ℚ → ℚ) : Value ℚ → Option (Value ℚ)
  | .values (.vector v) .noValue =>
    (relabelVector (fun l => l.del [metricNameLabel])
      (v.map fun s => ⟨s.metric, f s.value⟩)).map .vector
  | _ => none

theorem valueFunction_vector (f : ℚ → ℚ) (v : InstantVector ℚ) :
    valueFunction f (.values (.vector v) .noValue) =
      if ((v.map (withoutName f)).map VectorSample.metric).Nodup then
        some (.vector (v.map (withoutName f)))
      else none := by
  rw [valueFunction, LabelCall.relabelVector_eq, apply_ite (Option.map Value.vector), List.map_map,
    List.map_map, List.map_map]
  rfl

theorem withoutName_addLabels (f : ℚ → ℚ) {ls : LabelSet} (hname : metricNameLabel ∉ ls.names)
    (s : VectorSample ℚ) : withoutName f (addLabels ls s) = addLabels ls (withoutName f s) := by
  refine VectorSample.ext (Labels.ext_get fun name => ?_) rfl
  show ((s.metric.setAll ls.pairs).del _).get name = ((s.metric.del _).setAll ls.pairs).get name
  rw [Labels.get_del, Labels.get_setAll, Labels.get_setAll, Labels.get_del]
  by_cases hmem : name ∈ [metricNameLabel]
  · rw [if_pos hmem, if_pos hmem, List.mem_singleton.mp hmem, LabelSet.lookup_eq_none.mpr hname,
      Option.getD_none]
  · rw [if_neg hmem, if_neg hmem]

theorem lacks_withoutName (f : ℚ → ℚ) {ls : LabelSet} {v : InstantVector ℚ} (h : Lacks ls v) :
    Lacks ls (v.map (withoutName f)) := by
  intro s hs name hname
  obtain ⟨s, hmem, rfl⟩ := List.mem_map.mp hs
  rw [withoutName, Labels.get_del, h s hmem name hname, ite_self]

theorem map_withoutName_labelledParts (f : ℚ → ℚ)
    (hname : ∀ g ∈ groups, metricNameLabel ∉ g.labels.names) (parts : ServerGroup → InstantVector ℚ) :
    (labelledParts groups (fun g => g.labels) parts).map (withoutName f) =
      labelledParts groups (fun g => g.labels) fun g => (parts g).map (withoutName f) := by
  rw [labelledParts, labelledParts, List.map_flatMap]
  refine List.flatMap_congr fun g hg => ?_
  rw [List.map_map, List.map_map]
  exact List.map_congr_left fun s _ => withoutName_addLabels f (hname g hg) s

theorem exists_of_shape {x : Value ℚ} (h : shape x = .values .vector .noValue) :
    ∃ v, x = .values (.vector v) .noValue := by
  cases x with
  | values head tail =>
    cases head with
    | vector v =>
      cases tail with
      | noValue => exact ⟨v, rfl⟩
      | _ => cases h
    | _ => cases h
  | _ => cases h

theorem bySeries_valueFunction
    (hdist : groups.Pairwise fun g h => Distinguished g.labels h.labels)
    (hname : ∀ g ∈ groups, metricNameLabel ∉ g.labels.names) (f : ℚ → ℚ) :
    BySeries groups (.values .vector .noValue) .vector (valueFunction f) where
  shape x y hx hy := by
    obtain ⟨v, rfl⟩ := exists_of_shape hx
    obtain ⟨v, -, rfl⟩ := Option.map_eq_some_iff.mp hy
    rfl
  split x parts hx hsplit := by
    obtain ⟨v, rfl⟩ := exists_of_shape hx
    cases hsplit with
    | values hhead htail =>
      cases htail with
      | noValue =>
        cases hhead with
        | vector hperm hnodup hlacks =>
          rename_i parts
          have hmapped := hperm.map (withoutName f)
          rw [map_withoutName_labelledParts f hname] at hmapped
          have hmetrics := hmapped.map VectorSample.metric
          simp only [SplitAnswer, valueFunction_vector]
          -- the labels of the groups keep the series apart that lose their names
          by_cases hall : ∀ g ∈ groups, (((parts g).map (withoutName f)).map VectorSample.metric).Nodup
          · have hlacks := fun g hg => lacks_withoutName f (hlacks g hg)
            have hunion := hmetrics.nodup_iff.mpr (nodup_labelledParts hdist hall hlacks)
            exact Or.inl ⟨_, _, if_pos hunion, .vector hmapped hall hlacks,
              fun g hg => if_pos (hall g hg)⟩
          · obtain ⟨g, hnot⟩ := not_forall.mp hall
            obtain ⟨hg, hnot⟩ := Classical.not_imp.mp hnot
            refine Or.inr ⟨if_neg fun hunion => hnot ?_, g, hg, if_neg hnot⟩
            have hunion := hmetrics.nodup_iff.mp hunion
            rw [labelledParts, List.map_flatMap, List.nodup_flatMap] at hunion
            have hpart := hunion.1 g hg
            have hadded : (((parts g).map (withoutName f)).map (addLabels g.labels)).map
                VectorSample.metric = (((parts g).map (withoutName f)).map VectorSample.metric).map
                  fun l => l.setAll g.labels.pairs := by
              simp only [List.map_map]
              rfl
            rw [hadded] at hpart
            exact hpart.of_map
  noSeries x hx hnone := by
    obtain ⟨v, rfl⟩ := exists_of_shape hx
    cases hnone with
    | first hhead =>
      cases hhead with
      | vector => exact ⟨.vector [], rfl, .vector⟩
    | after htail => cases htail

theorem valueFunction_same (f : ℚ → ℚ) {x x' : Value ℚ} (h : Value.Same x x') :
    SameAnswer (valueFunction f x) (valueFunction f x') := by
  cases h with
  | values hhead htail =>
    cases hhead with
    | vector h =>
      cases htail with
      | noValue =>
        exact SameAnswer.vector (relabelVector_perm _ (h.map _))
      | _ => exact .none
    | _ => exact .none
  | _ => exact .none

end

namespace SeriesContext

section

variable [Libraries] {D : Type}

/-- Every part of the engine that the expression uses works on each series by itself. -/
inductive Lawful (groups : List ServerGroup) (t : Int) : SeriesContext D → Shape → Shape → Prop where
  | hole (σ : Shape) : Lawful groups t .hole σ σ
  | call {func : String} {args : SeriesContext D} {σ τ υ : Shape}
      (hfunc : BySeries groups τ υ fun x => Engine.call func x t) (hargs : Lawful groups t args σ τ) :
      Lawful groups t (.call func args) σ υ
  | first {arg : SeriesContext D} {rest : Expr D} {value : Value ℚ} (hrest : Literal rest value)
      {σ τ : Shape} (harg : Lawful groups t arg σ τ) :
      Lawful groups t (.first arg rest value hrest) σ (.values τ (shape value))
  | after {lit : Expr D} {value : Value ℚ} (hlit : Literal lit value) {args : SeriesContext D}
      {σ τ : Shape} (hargs : Lawful groups t args σ τ) :
      Lawful groups t (.after lit value hlit args) σ (.values (shape value) τ)
  | binaryLeft {op : String} {k : ℚ} {lhs : SeriesContext D} {σ τ υ : Shape}
      (hop : BySeries groups τ υ fun x => Engine.binary op x (.scalar k))
      (hlhs : Lawful groups t lhs σ τ) : Lawful groups t (.binaryLeft op lhs k) σ υ
  | binaryRight {op : String} {k : ℚ} {rhs : SeriesContext D} {σ τ υ : Shape}
      (hop : BySeries groups τ υ (Engine.binary op (.scalar k)))
      (hrhs : Lawful groups t rhs σ τ) : Lawful groups t (.binaryRight op k rhs) σ υ
  | unary {op : String} {expr : SeriesContext D} {σ τ υ : Shape}
      (hop : BySeries groups τ υ (Engine.unary op)) (hexpr : Lawful groups t expr σ τ) :
      Lawful groups t (.unary op expr) σ υ
  | paren {expr : SeriesContext D} {σ τ : Shape} (hexpr : Lawful groups t expr σ τ) :
      Lawful groups t (.paren expr) σ τ

theorem bySeries_apply {groups : List ServerGroup} {t : Int} {c : SeriesContext D} {σ τ : Shape}
    (h : c.Lawful groups t σ τ) : BySeries groups σ τ (c.apply t) := by
  induction h with
  | hole σ => exact .pure
  | call hfunc hargs ih => exact ih.bind hfunc
  | first hrest harg ih =>
    exact ih.map (fun x hx => by rw [shape, hx]) (fun _ _ hx => .values hx (split_literal hrest))
      fun _ => .first
  | after hlit hargs ih =>
    exact ih.map (fun x hx => by rw [shape, hx]) (fun _ _ hx => .values (split_literal hlit) hx)
      fun _ => .after
  | binaryLeft hop hlhs ih => exact ih.bind hop
  | binaryRight hop hrhs ih => exact ih.bind hop
  | unary hop hexpr ih => exact ih.bind hop
  | paren hexpr ih => exact ih

end

end SeriesContext

/-! ## The selectors -/

section

variable [Libraries] {d : Downstream} {vs : VectorSelector (Response ℚ)} {t time range : Int}

/-- What the server has for a selector. It is not asked if the added labels refuse it. -/
structure Answered (d : Downstream) (leaf : Expr (Response ℚ)) (t : Int) (asked : Bool)
    (x : Value ℚ) : Prop where
  refused : asked = false → filterMatcherVisitor d.labels leaf = none ∧ NoSeries x
  taken : asked = true → ∃ e e', filterMatcherVisitor d.labels leaf = some e ∧ e.reparse = some e' ∧
    eval d.source e' t = some x

theorem answered_vectorSelector (h : d.Forwards vs time) {originalOffset : Int}
    (htime : lookupTime vs.timestamp originalOffset t = time) :
    Answered d (.vectorSelector { vs with originalOffset }) t (filterSelector d.labels vs).isSome
      (.vector (d.selected vs time)) := by
  have hanswer := Downstream.answer_vectorSelector h htime
  have hfilter : filterSelector d.labels { vs with originalOffset } =
      (filterSelector d.labels vs).map fun vs' => { vs' with originalOffset } := by
    rw [filterSelector, filterSelector, Option.map_map]
    rfl
  rw [Downstream.answer, filterMatcherVisitor, hfilter, Option.map_map] at hanswer
  cases hf : filterSelector d.labels vs with
  | none =>
    rw [hf] at hanswer
    refine ⟨fun _ => ⟨?_, ?_⟩, fun h => absurd h Bool.false_ne_true⟩
    · rw [filterMatcherVisitor, hfilter, hf]
      rfl
    · rw [← Option.some.inj hanswer]
      exact .vector
  | some vs' =>
    rw [hf] at hanswer
    refine ⟨fun h => absurd h.symm Bool.false_ne_true, fun _ => ?_⟩
    obtain ⟨e', he', heval⟩ := Option.bind_eq_some_iff.mp hanswer
    refine ⟨_, e', ?_, he', eval_of_toVector heval⟩
    rw [filterMatcherVisitor, hfilter, hf]
    rfl

/-- The server takes what is left of the selector of a range, and the selected series have the metric
names that are asked for. -/
structure ForwardsRange (d : Downstream) (vs : VectorSelector (Response ℚ)) (range time : Int) :
    Prop where
  check : (filterSelector d.labels vs).all fun vs' => vs'.text.check
  notName : metricNameLabel ∉ d.labels.names
  named : (∀ m ∈ vs.labelMatchers, m.name ∈ d.labels.names) →
    ∀ p ∈ d.source.window (time - range) time, ∀ s ∈ p.2,
      selects vs.labelMatchers (addLabels d.labels s).metric → s.metric.get metricNameLabel ≠ ""
  outside : ∀ p ∈ d.source.window (time - range) time, ∀ s ∈ p.2,
    selects vs.labelMatchers (addLabels d.labels s).metric →
      vs.name = "" ∨ s.metric.get metricNameLabel = vs.name

/-- The samples of the server that the selector selects when they have been labelled. -/
def selectedWindow (d : Downstream) (vs : VectorSelector (Response ℚ)) (range time : Int) : Value ℚ :=
  .matrix time range ((d.source.window (time - range) time).map fun p =>
    (p.1, p.2.filter fun s => selects vs.labelMatchers (addLabels d.labels s).metric))

omit [Libraries] in
/-- What is left of a selector is left when it is filtered once more. -/
theorem filterSelector_again [Regexp] {ls : LabelSet} (hname : metricNameLabel ∉ ls.names)
    {vs' : VectorSelector (Response ℚ)} (h : filterSelector ls vs = some vs') :
    filterSelector ls vs' = some vs' := by
  have hloop (left : List Matcher) (hleft : ∀ m ∈ left, m.name ∉ ls.names) :
      filterMatchersLoop ls left = some left := by
    induction left with
    | nil => rfl
    | cons m left ih =>
      rw [filterMatchersLoop, LabelSet.lookup_eq_none.mpr (hleft m List.mem_cons_self)]
      show (filterMatchersLoop ls left).map _ = _
      rw [ih fun m hm => hleft m (List.mem_cons_of_mem _ hm)]
      rfl
  obtain ⟨filtered, hfiltered, rfl⟩ := Option.map_eq_some_iff.mp h
  obtain ⟨left, hleft, rfl⟩ := Option.map_eq_some_iff.mp hfiltered
  have hnames : ∀ m ∈ left, m.name ∉ ls.names := fun m hm =>
    ((mem_of_filterMatchersLoop hleft m).mp hm).2
  rw [filterSelector, filterMatchers]
  cases left with
  | nil =>
    show ((filterMatchersLoop ls [anyMetricName]).map _).map _ = _
    rw [hloop [anyMetricName] fun m hm => by rwa [List.mem_singleton.mp hm]]
    rfl
  | cons m left =>
    show ((filterMatchersLoop ls (m :: left)).map _).map _ = _
    rw [hloop _ hnames]
    rfl

theorem answered_matrixSelector (h : ForwardsRange d vs range time) {originalOffset : Int}
    (htime : lookupTime vs.timestamp originalOffset t = time) :
    Answered d (.matrixSelector { vs with originalOffset } range) t (filterSelector d.labels vs).isSome
      (selectedWindow d vs range time) := by
  have hfilter : filterSelector d.labels { vs with originalOffset } =
      (filterSelector d.labels vs).map fun vs' => { vs' with originalOffset } := by
    rw [filterSelector, filterSelector, Option.map_map]
    rfl
  have hsel : ∀ p ∈ d.source.window (time - range) time, ∀ s ∈ p.2,
      ((filterSelector d.labels vs).any fun vs' => selects vs'.text.parseMetricSelector s.metric) =
        selects vs.labelMatchers (addLabels d.labels s).metric := by
    intro p hp s hs
    cases hselected : selects vs.labelMatchers (addLabels d.labels s).metric with
    | true =>
      have hname := h.outside p hp s hs hselected
      rw [selects_filterSelector d.labels vs fun hall => h.named hall p hp s hs hselected]
      have hselected : selects vs.labelMatchers (s.metric.setAll d.labels.pairs) = true := hselected
      simp only [hselected, Bool.true_and, Bool.or_eq_true, decide_eq_true_eq]
      exact hname
    | false => exact filterSelector_refuses vs hselected
  rw [selectedWindow]
  cases hf : filterSelector d.labels vs with
  | none =>
    refine ⟨fun _ => ⟨?_, ?_⟩, fun h => absurd h Bool.false_ne_true⟩
    · rw [filterMatcherVisitor, hfilter, hf]
      rfl
    · refine .matrix fun p hp => ?_
      obtain ⟨p, hmem, rfl⟩ := List.mem_map.mp hp
      refine List.filter_eq_nil_iff.mpr fun s hs => ?_
      have hs := hsel p hmem s hs
      rw [hf] at hs
      rw [← hs]
      exact Bool.false_ne_true
  | some vs' =>
    refine ⟨fun h => absurd h.symm Bool.false_ne_true, fun _ => ?_⟩
    have hcheck : vs'.text.check = true := by
      have hcheck := h.check
      rwa [hf, Option.all_some] at hcheck
    have htimestamp : vs'.timestamp = vs.timestamp := by
      obtain ⟨filtered, -, rfl⟩ := Option.map_eq_some_iff.mp hf
      rfl
    have hmoved : filterSelector d.labels { vs with originalOffset } =
        some { vs' with originalOffset } := by
      rw [hfilter, hf]
      rfl
    have hvisitor : filterMatcherVisitor d.labels (.matrixSelector { vs with originalOffset } range) =
        some (.matrixSelector { vs' with originalOffset } range) := by
      rw [filterMatcherVisitor, hmoved, Option.bind_some, filterSelector_again h.notName hmoved]
      rfl
    have hparsed : ({ vs' with originalOffset } : VectorSelector (Response ℚ)).reparse =
        some ⟨vs'.text.name, vs'.text.parseMetricSelector, originalOffset, vs'.timestamp, 0, none⟩ := by
      show (SelectorText.parseExpr vs'.text).map _ = _
      rw [SelectorText.parseExpr, if_pos hcheck]
      rfl
    refine ⟨_, _, hvisitor, by rw [Expr.reparse, hparsed]; rfl, ?_⟩
    rw [eval, evalMatrixSelector]
    simp only [htimestamp, htime]
    refine congrArg (fun steps => some (Value.matrix time range steps)) ?_
    refine List.map_congr_left fun p hp => ?_
    refine congrArg (Prod.mk p.1) (List.filter_congr fun s hs => ?_)
    have hs := hsel p hp s hs
    rwa [hf] at hs

end

/-! ## Over all groups -/

/-- The samples of the engine's data are the labelled samples of the groups. -/
def SeesWindows (src : Source (Response ℚ) ℚ) (groups : List ServerGroup) : Prop :=
  ∀ start stop, ∃ (times : List Int) (steps : ServerGroup → Int → InstantVector ℚ),
    src.window start stop =
      times.map (fun t => (t, labelledParts groups (fun g => g.labels) fun g => steps g t)) ∧
    ∀ g ∈ groups, g.source.window start stop = times.map (fun t => (t, steps g t)) ∧
      ∀ t ∈ times, ((steps g t).map VectorSample.metric).Nodup ∧ Lacks g.labels (steps g t)

/-- A selector that is sent to the servers of the groups. -/
inductive SentSelector [Libraries] (groups : List ServerGroup) (ts : Int) : Expr (Response ℚ) → Prop where
  | vector (vs : VectorSelector (Response ℚ)) (hparsed : vs.reparse = some vs)
      (hforwards : ∀ g ∈ groups, g.Forwards vs (lookupTime vs.timestamp vs.originalOffset ts)) :
      SentSelector groups ts (.vectorSelector vs)
  | matrix (vs : VectorSelector (Response ℚ)) (range : Int) (hparsed : vs.reparse = some vs)
      (hforwards : ∀ g ∈ groups,
        ForwardsRange g.toDownstream vs range (lookupTime vs.timestamp vs.originalOffset ts)) :
      SentSelector groups ts (.matrixSelector vs range)

/-- The type of what is selected. -/
def selectedShape : Expr (Response ℚ) → Shape
  | .matrixSelector _ _ => .matrix
  | _ => .vector

/-- What the engine and the servers have for a selector, with its offset or moved by it. -/
structure SelectorAnswers [Libraries] (groups : List ServerGroup) (src : Source (Response ℚ) ℚ)
    (ts : Int) (leaf : Expr (Response ℚ)) (x : Value ℚ) (parts : ServerGroup → Value ℚ)
    (asked : ServerGroup → Bool) : Prop where
  eval : eval src leaf ts = some x
  shape : shape x = selectedShape leaf
  split : Split groups x parts
  kept : ∀ g ∈ groups, Answered g.toDownstream leaf ts (asked g) (parts g)
  moved : ∃ offset,
    (∀ nodes, OffsetFinder.visit ⟨false, 0, false⟩ (leaf.nodes ++ nodes) =
      OffsetFinder.visit ⟨true, offset, false⟩ nodes) ∧
    (booleanFinder hasTimestamp leaf = 0 → ∀ g ∈ groups,
      Answered g.toDownstream (offsetRemover leaf) (ts - offset) (asked g) (parts g))

section

variable [Libraries] {groups : List ServerGroup} {src : Source (Response ℚ) ℚ} {ts : Int}
  {leaf : Expr (Response ℚ)}

omit [Libraries] in
theorem filter_parts (labels : ServerGroup → LabelSet) (parts : ServerGroup → InstantVector ℚ)
    (p : VectorSample ℚ → Bool) :
    (labelledParts groups labels parts).filter p =
      labelledParts groups labels fun g => (parts g).filter fun s => p (addLabels (labels g) s) := by
  rw [labelledParts, labelledParts, List.filter_flatMap]
  exact List.flatMap_congr fun g _ => List.filter_map

omit [Libraries] in
theorem lookupTime_moved {vs : VectorSelector (Response ℚ)} {leaf : Expr (Response ℚ)}
    (hmem : .vectorSelector vs ∈ leaf.nodes) (hnone : booleanFinder hasTimestamp leaf = 0) :
    lookupTime vs.timestamp 0 (ts - vs.originalOffset) =
      lookupTime vs.timestamp vs.originalOffset ts := by
  have htimestamp : vs.timestamp = none := by
    by_contra hsome
    have hpos : 0 < booleanFinder hasTimestamp leaf :=
      List.length_pos_of_mem (List.mem_filter.mpr ⟨hmem, Option.isSome_iff_ne_none.mpr hsome⟩)
    omega
  rw [htimestamp, lookupTime, lookupTime, Option.getD_none, Option.getD_none, Int.sub_zero]

theorem SentSelector.answers (h : SentSelector groups ts leaf) (hsees : Sees src groups)
    (hwindows : SeesWindows src groups) :
    ∃ x parts asked, SelectorAnswers groups src ts leaf x parts asked := by
  cases h with
  | vector vs hparsed hforwards =>
    have hsplit : Split groups
        (.vector (labelledParts groups (fun g => g.labels) fun g =>
          g.selected vs (lookupTime vs.timestamp vs.originalOffset ts)))
        fun g => .vector (g.selected vs (lookupTime vs.timestamp vs.originalOffset ts)) :=
      .vector (.refl _) (fun g _ => g.nodup_selected) fun g _ => g.lacks_selected
    refine ⟨_, _, fun g => (filterSelector g.labels vs).isSome, ?_, rfl, hsplit, ?_, ?_⟩
    · have hreparse : (Expr.vectorSelector vs).reparse = some (.vectorSelector vs) := by
        rw [Expr.reparse, hparsed, Option.map_some]
      rw [eval, evalVectorSelector, fresh_vectorSelector.mp (fresh_of_reparse hreparse), hsees.instant,
        filter_labelledParts]
      rfl
    · exact fun g hg => answered_vectorSelector (hforwards g hg) rfl
    · exact ⟨vs.originalOffset, fun _ => rfl, fun hnone g hg =>
        answered_vectorSelector (hforwards g hg) (lookupTime_moved (List.mem_singleton_self _) hnone)⟩
  | matrix vs range hparsed hforwards =>
    obtain ⟨times, steps, hwindow, hgroups⟩ := hwindows
      (lookupTime vs.timestamp vs.originalOffset ts - range)
      (lookupTime vs.timestamp vs.originalOffset ts)
    have hparts : ∀ g ∈ groups,
        selectedWindow g.toDownstream vs range (lookupTime vs.timestamp vs.originalOffset ts) =
          .matrix (lookupTime vs.timestamp vs.originalOffset ts) range (times.map fun t =>
            (t, (steps g t).filter fun s => selects vs.labelMatchers (addLabels g.labels s).metric)) := by
      intro g hg
      rw [selectedWindow, (hgroups g hg).1, List.map_map]
      rfl
    have hsplit : Split groups
        (.matrix (lookupTime vs.timestamp vs.originalOffset ts) range (times.map fun t =>
          (t, labelledParts groups (fun g => g.labels) fun g => (steps g t).filter fun s =>
            selects vs.labelMatchers (addLabels g.labels s).metric)))
        fun g => .matrix (lookupTime vs.timestamp vs.originalOffset ts) range (times.map fun t =>
          (t, (steps g t).filter fun s => selects vs.labelMatchers (addLabels g.labels s).metric)) := by
      refine .matrix _ range times (fun g hg t ht => ?_) fun g hg t ht => ?_
      · exact ((hgroups g hg).2 t ht).1.sublist (List.filter_sublist.map _)
      · exact ((hgroups g hg).2 t ht).2.mono fun _ hs => (List.mem_filter.mp hs).1
    refine ⟨_, _, fun g => (filterSelector g.labels vs).isSome, ?_, rfl, hsplit, ?_, ?_⟩
    · rw [eval, evalMatrixSelector, hwindow, List.map_map]
      refine congrArg (fun steps => some (Value.matrix _ range steps)) (List.map_congr_left fun t _ => ?_)
      exact congrArg (Prod.mk t) (filter_parts _ _ _)
    · intro g hg
      rw [← hparts g hg]
      exact answered_matrixSelector (hforwards g hg) rfl
    · refine ⟨vs.originalOffset, fun _ => rfl, fun hnone g hg => ?_⟩
      rw [← hparts g hg]
      exact answered_matrixSelector (hforwards g hg)
        (lookupTime_moved (List.mem_cons_of_mem _ (List.mem_singleton_self _)) hnone)

theorem answer_plug {d : Downstream} {t : Int} {asked : Bool} {x : Value ℚ}
    (h : Answered d leaf t asked x) (c : SeriesContext (Response ℚ)) :
    d.answer (c.plug leaf) t = if asked then (c.apply t x).bind Value.toVector else some [] := by
  rw [Downstream.answer, SeriesContext.filterMatcherVisitor_plug]
  cases asked with
  | false =>
    rw [(h.refused rfl).1]
    rfl
  | true =>
    obtain ⟨e, e', hvisitor, hreparse, heval⟩ := h.taken rfl
    rw [hvisitor]
    show ((c.plug e).reparse.bind fun e => (eval d.source e t).bind Value.toVector) = _
    rw [SeriesContext.reparse_plug, hreparse, Option.map_some, Option.bind_some,
      SeriesContext.eval_plug, heval, Option.bind_some, if_pos rfl]

/-- The labelled answers of the groups are the value, which is not there if one of them fails. -/
inductive Pools (groups : List ServerGroup) :
    Option (Value ℚ) → (ServerGroup → Option (InstantVector ℚ)) → Prop where
  | answered {v : InstantVector ℚ} {parts : ServerGroup → InstantVector ℚ}
      {answers : ServerGroup → Option (InstantVector ℚ)}
      (hperm : v.Perm (labelledParts groups (fun g => g.labels) parts))
      (hnodup : ∀ g ∈ groups, ((parts g).map VectorSample.metric).Nodup)
      (hlacks : ∀ g ∈ groups, Lacks g.labels (parts g))
      (hanswers : ∀ g ∈ groups, answers g = some (parts g)) : Pools groups (some (.vector v)) answers
  | failed {answers : ServerGroup → Option (InstantVector ℚ)} {g : ServerGroup} (hg : g ∈ groups)
      (hnone : answers g = none) : Pools groups none answers

theorem pools_plug {x : Value ℚ} {parts : ServerGroup → Value ℚ} {asked : ServerGroup → Bool}
    (h : SelectorAnswers groups src ts leaf x parts asked) {c : SeriesContext (Response ℚ)}
    (hlawful : c.Lawful groups ts (selectedShape leaf) .vector) :
    Pools groups (eval src (c.plug leaf) ts) fun g => g.answer (c.plug leaf) ts := by
  have hvalue : eval src (c.plug leaf) ts = c.apply ts x := by
    rw [SeriesContext.eval_plug, h.eval, Option.bind_some]
  have hanswer (g : ServerGroup) (hg : g ∈ groups) := answer_plug (h.kept g hg) c
  have hlaw := SeriesContext.bySeries_apply hlawful
  rw [hvalue]
  rcases hlaw.split x parts h.shape h.split with ⟨y, parts', hy, hsplit, hparts⟩ | ⟨hnone, g, hg, hfails⟩
  · have hvector := hlaw.shape x y h.shape hy
    rw [hy]
    cases hsplit with
    | vector hperm hnodup hlacks =>
      refine .answered hperm hnodup hlacks fun g hg => ?_
      rw [hanswer g hg]
      have hpart := hparts g hg
      dsimp only at hpart
      cases hasked : asked g with
      | true =>
        rw [if_pos rfl, hpart]
        rfl
      | false =>
        obtain ⟨y, hy, hnone⟩ := hlaw.noSeries _ ((shape_split h.split g).trans h.shape)
          ((h.kept g hg).refused hasked).2
        rw [hpart] at hy
        cases hy
        rw [hnone.nil]
        rfl
    | _ => cases hvector
  · rw [hnone]
    refine .failed hg ?_
    have hfails : c.apply ts (parts g) = none := hfails
    rw [hanswer g hg]
    cases hasked : asked g with
    | true => rw [if_pos rfl, hfails, Option.bind_none]
    | false =>
      obtain ⟨y, hy, -⟩ := hlaw.noSeries _ ((shape_split h.split g).trans h.shape) ((h.kept g hg).refused hasked).2
      rw [hfails] at hy
      cases hy

/-- No function of histograms is called. -/
theorem floats_plug (hleaf : SentSelector groups ts leaf) {c : SeriesContext (Response ℚ)}
    (hsent : c.Sent) : (c.plug leaf).nodes.any isHistogramOnlyCall = false := by
  have hzero : booleanFinder isHistogramOnlyCall (c.plug leaf) = 0 := by
    rw [SeriesContext.booleanFinder_plug hsent (fun _ _ h => h.floats) (fun _ => rfl) (fun _ => rfl)
      (fun _ _ _ => rfl) (fun _ _ => rfl) fun _ => rfl]
    cases hleaf with
    | _ => rfl
  exact List.any_eq_false.mpr (List.filter_eq_nil_iff.mp (List.length_eq_zero_iff.mp hzero))

/-- The expression as an operand that is sent to the groups. -/
theorem sentOperand_plug (hleaf : SentSelector groups ts leaf) {x : Value ℚ}
    {parts : ServerGroup → Value ℚ} {asked : ServerGroup → Bool}
    (h : SelectorAnswers groups src ts leaf x parts asked) {c : SeriesContext (Response ℚ)}
    (hsent : c.Sent) :
    SentOperand groups ServerGroup.toDownstream ts (c.plug leaf) fun g => g.answer (c.plug leaf) ts where
  reparse := by
    rw [SeriesContext.reparse_plug]
    cases hleaf with
    | vector vs hparsed => rw [Expr.reparse, hparsed]; rfl
    | matrix vs range hparsed => rw [Expr.reparse, hparsed]; rfl
  noData := by
    cases hleaf with
    | vector vs hparsed hforwards =>
      cases c with
      | hole => exact (sentOperand_selector hparsed hforwards).noData
      | _ => rfl
    | matrix vs range =>
      cases c with
      | _ => rfl
  floats := floats_plug hleaf hsent
  noAggregates := by
    rw [SeriesContext.booleanFinder_plug hsent (fun _ _ _ => rfl) (fun _ => rfl) (fun _ => rfl)
      (fun _ _ _ => rfl) (fun _ _ => rfl) fun _ => rfl]
    cases hleaf with
    | _ => rfl
  oneSelector := by
    rw [SeriesContext.booleanFinder_plug hsent (fun _ _ _ => rfl) (fun _ => rfl) (fun _ => rfl)
      (fun _ _ _ => rfl) (fun _ _ => rfl) fun _ => rfl]
    cases hleaf with
    | _ => rfl
  perSeries := by
    have hcall : ∀ func (args : Expr (Response ℚ)), SeriesContext.SentFunc func →
        isCrossSeriesCall (.call func args) = false := fun func args hfunc => by
      rw [isCrossSeriesCall, hfunc.perSeries, Bool.true_or, Bool.not_true]
    rw [SeriesContext.booleanFinder_plug hsent hcall (fun _ => rfl) (fun _ => rfl)
      (fun _ _ _ => rfl) (fun _ _ => rfl) fun _ => rfl]
    cases hleaf with
    | _ => rfl
  kept _ _ := rfl
  moved := by
    obtain ⟨offset, hvisit, hmoved⟩ := h.moved
    refine ⟨offset, SeriesContext.visit_plug hvisit c, fun hnone g hg => ?_⟩
    rw [SeriesContext.booleanFinder_plug hsent (fun _ _ _ => rfl) (fun _ => rfl) (fun _ => rfl)
      (fun _ _ _ => rfl) (fun _ _ => rfl) fun _ => rfl] at hnone
    rw [SeriesContext.offsetRemover_plug, answer_plug (hmoved hnone g hg), answer_plug (h.kept g hg),
      SeriesContext.apply_safe hsent (ts - offset) ts]

end

end Proxystorage
end Proxeus
