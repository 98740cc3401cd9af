import Mathlib.Data.List.Forall2

/-!
# Lib.Machine

Objects that are called and answer: a step takes a state and a call to an answer and the next state.
`outputs` are the answers to a list of calls, `final` is the state they leave. Two objects behave
alike if no list of calls tells them apart (`Alike`), which a simulation shows (`Simulates.alike`).
`sessionStep` runs any number of such objects at once, opened and reopened in place, and sessions over
objects that are opened alike are alike (`session_alike`).
-/

namespace Proxeus
namespace Lib

section

variable {σ τ ι ο : Type*}

/-! ## Runs -/

/-- The answers to the calls, in order. -/
def outputs (step : σ → ι → ο × σ) : σ → List ι → List ο
  | _, [] => []
  | s, i :: is => (step s i).1 :: outputs step (step s i).2 is

/-- The state after the calls. -/
def final (step : σ → ι → ο × σ) : σ → List ι → σ
  | s, [] => s
  | s, i :: is => final step (step s i).2 is

/-- Every call of the run is made in a state in which it meets `P`. -/
def Meets (step : σ → ι → ο × σ) (P : σ → ι → Prop) : σ → List ι → Prop
  | _, [] => True
  | s, i :: is => P s i ∧ Meets step P (step s i).2 is

variable {step : σ → ι → ο × σ} {step' : τ → ι → ο × τ}

theorem final_append (s : σ) (is js : List ι) :
    final step s (is ++ js) = final step (final step s is) js := by
  induction is generalizing s with
  | nil => rfl
  | cons i is ih => exact ih (step s i).2

/-- An invariant that the calls that meet `P` preserve holds after every run of such calls. -/
theorem final_of_meets {P : σ → ι → Prop} {Inv : σ → Prop}
    (hstep : ∀ s i, Inv s → P s i → Inv (step s i).2) {s : σ} (hs : Inv s) {is : List ι}
    (hmeets : Meets step P s is) : Inv (final step s is) := by
  induction is generalizing s with
  | nil => exact hs
  | cons i is ih =>
    obtain ⟨hi, his⟩ := hmeets
    exact ih (hstep s i hs hi) his

theorem Meets.of_append {P : σ → ι → Prop} {s : σ} {is js : List ι}
    (h : Meets step P s (is ++ js)) : Meets step P s is := by
  induction is generalizing s with
  | nil => trivial
  | cons i is ih => exact ⟨h.1, ih h.2⟩

/-! ## Objects that behave alike -/

/-- No calls tell the two objects apart. -/
def Alike (step : σ → ι → ο × σ) (step' : τ → ι → ο × τ) (s : σ) (t : τ) : Prop :=
  ∀ is, outputs step s is = outputs step' t is

/-- Related states answer a call alike and go on to related states. -/
def Simulates (step : σ → ι → ο × σ) (step' : τ → ι → ο × τ) (R : σ → τ → Prop) : Prop :=
  ∀ s t i, R s t → (step s i).1 = (step' t i).1 ∧ R (step s i).2 (step' t i).2

theorem Simulates.alike {R : σ → τ → Prop} (h : Simulates step step' R) {s : σ} {t : τ}
    (hR : R s t) : Alike step step' s t := by
  intro is
  induction is generalizing s t with
  | nil => rfl
  | cons i is ih =>
    obtain ⟨hout, hnext⟩ := h s t i hR
    rw [outputs, outputs, hout, ih hnext]

theorem Simulates.final {R : σ → τ → Prop} (h : Simulates step step' R) {s : σ} {t : τ}
    (hR : R s t) (is : List ι) : R (final step s is) (final step' t is) := by
  induction is generalizing s t with
  | nil => exact hR
  | cons i is ih => exact ih (h s t i hR).2

/-- To behave alike is itself a simulation, the greatest one. -/
theorem simulates_alike : Simulates step step' (Alike step step') := by
  intro s t i h
  have hhead := h [i]
  simp only [outputs, List.cons.injEq, and_true] at hhead
  refine ⟨hhead, fun is => ?_⟩
  have hrun := h (i :: is)
  simp only [outputs, List.cons.injEq] at hrun
  exact hrun.2

theorem Alike.trans {υ : Type*} {step'' : υ → ι → ο × υ} {s : σ} {t : τ} {u : υ}
    (h : Alike step step' s t) (h' : Alike step' step'' t u) : Alike step step'' s u := by
  intro is
  rw [h is, h' is]

/-! ## Wrapped objects -/

/-- The object whose calls are passed on, translated, and whose answers are translated back. -/
def wrapStep {ι' ο' : Type*} (call : ι' → ι) (answer : ο → ο') (step : σ → ι → ο × σ) :
    σ → ι' → ο' × σ :=
  fun s i => (answer (step s (call i)).1, (step s (call i)).2)

theorem outputs_wrapStep {ι' ο' : Type*} (call : ι' → ι) (answer : ο → ο') (s : σ)
    (is : List ι') :
    outputs (wrapStep call answer step) s is =
      (outputs step s (is.map call)).map answer := by
  induction is generalizing s with
  | nil => rfl
  | cons i is ih =>
    rw [outputs, List.map_cons, outputs, List.map_cons, ← ih]
    rfl

/-- Objects that behave alike still do when they are wrapped alike. -/
theorem Alike.wrap {ι' ο' : Type*} {call : ι' → ι} {answer : ο → ο'} {s : σ} {t : τ}
    (h : Alike step step' s t) :
    Alike (wrapStep call answer step) (wrapStep call answer step') s t := by
  intro is
  rw [outputs_wrapStep, outputs_wrapStep, h]

end

/-! ## Sessions -/

section

variable {κ ι ο σ τ : Type*}

/-- A client's calls on objects that it holds by their handles: to open one, in the place of an object
that it hands back or in a new one, and to call one. -/
inductive SessionCall (κ ι : Type*) where
  | open (k : κ) (reuse : Option Nat)
  | call (handle : Nat) (i : ι)

inductive SessionAnswer (ο : Type*) where
  | handle (h : Nat)
  | answer (o : ο)
  | noObject

/-- The objects are the entries of the list, their handles the places. -/
def sessionStep (opened : κ → Option σ → σ) (step : σ → ι → ο × σ) (objects : List σ) :
    SessionCall κ ι → SessionAnswer ο × List σ
  | .open k reuse =>
    match reuse with
    | none => (.handle objects.length, objects ++ [opened k none])
    | some h =>
      match objects[h]? with
      | none => (.noObject, objects)
      | some it => (.handle h, objects.set h (opened k (some it)))
  | .call h i =>
    match objects[h]? with
    | none => (.noObject, objects)
    | some it => (.answer (step it i).1, objects.set h (step it i).2)

variable {step : σ → ι → ο × σ} {step' : τ → ι → ο × τ}

theorem rel_getElem? {R : σ → τ → Prop} {xs : List σ} {ys : List τ} (h : List.Forall₂ R xs ys)
    (i : Nat) : Option.Rel R xs[i]? ys[i]? := by
  induction h generalizing i with
  | nil => exact .none
  | cons hxy _ ih =>
    cases i with
    | zero => exact .some hxy
    | succ i => exact ih i

theorem rel_set {R : σ → τ → Prop} {xs : List σ} {ys : List τ} (h : List.Forall₂ R xs ys)
    {x : σ} {y : τ} (hxy : R x y) (i : Nat) : List.Forall₂ R (xs.set i x) (ys.set i y) := by
  induction h generalizing i with
  | nil => exact .nil
  | cons h0 hs ih =>
    cases i with
    | zero => exact .cons hxy hs
    | succ i => exact .cons h0 (ih i)

/-- If each object that is opened behaves like its counterpart, whatever was handed back for it, so
do the sessions. -/
theorem session_alike {opened : κ → Option σ → σ} {opened' : κ → Option τ → τ}
    (h : ∀ k it it', Alike step step' (opened k it) (opened' k it')) :
    Alike (sessionStep opened step) (sessionStep opened' step') [] [] := by
  have hsim : Simulates (sessionStep opened step) (sessionStep opened' step')
      (List.Forall₂ (Alike step step')) := by
    intro objects objects' c hR
    have hlen := hR.length_eq
    cases c with
    | «open» k reuse =>
      cases reuse with
      | none =>
        refine ⟨by simp [sessionStep, hlen], ?_⟩
        exact List.rel_append hR (.cons (h k none none) .nil)
      | some i =>
        have hi := rel_getElem? hR i
        simp only [sessionStep]
        revert hi
        generalize objects[i]? = it
        generalize objects'[i]? = it'
        rintro (- | -)
        · exact ⟨rfl, rel_set hR (h k _ _) i⟩
        · exact ⟨rfl, hR⟩
    | call i c =>
      have hi := rel_getElem? hR i
      simp only [sessionStep]
      revert hi
      generalize objects[i]? = it
      generalize objects'[i]? = it'
      rintro (hit | -)
      · obtain ⟨hout, hnext⟩ := simulates_alike _ _ c hit
        exact ⟨congrArg SessionAnswer.answer hout, rel_set hR hnext i⟩
      · exact ⟨rfl, hR⟩
  exact hsim.alike .nil

end

end Lib
end Proxeus
