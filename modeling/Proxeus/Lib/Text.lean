import Mathlib.Data.List.Basic
import Mathlib.Data.List.Forall2

/-!
# Lib.Text

Texts that can be read back from the front: what goes on up to the first element of another kind,
what is written code by code up to a terminator, and lines.
-/

namespace Proxeus
namespace Lib

section

variable {α β : Type*}

/-! ## Up to a stop -/

/-- What consists of elements of one kind is told from what follows, if that begins with another. -/
theorem append_inj_of_stop {p : α → Bool} {a a' r r' : List α} (ha : ∀ x ∈ a, p x = true)
    (ha' : ∀ x ∈ a', p x = true) (hr : ∀ x ∈ r.head?, p x = false)
    (hr' : ∀ x ∈ r'.head?, p x = false) (h : a ++ r = a' ++ r') : a = a' ∧ r = r' := by
  have htake : ∀ {b s : List α}, (∀ x ∈ b, p x = true) → (∀ x ∈ s.head?, p x = false) →
      (b ++ s).takeWhile p = b := by
    intro b s hb hs
    rw [List.takeWhile_append_of_pos hb]
    cases s with
    | nil => rw [List.takeWhile_nil, List.append_nil]
    | cons y s =>
      rw [List.takeWhile_cons, hs y rfl]
      exact List.append_nil b
  have heq : a = a' := by rw [← htake ha hr, h, htake ha' hr']
  exact ⟨heq, List.append_cancel_left (heq ▸ h)⟩

/-! ## Codes -/

/-- What `code` writes for an element ends by itself, and nothing it writes begins like `stop`. -/
structure IsCode (code : α → List β) (stop : β) : Prop where
  inj : ∀ x y r r', code x ++ r = code y ++ r' → x = y ∧ r = r'
  ne_stop : ∀ x r r', code x ++ r ≠ stop :: r'

theorem IsCode.flatMap_inj {code : α → List β} {stop : β} (h : IsCode code stop) {l l' : List α}
    {r r' : List β} (heq : l.flatMap code ++ stop :: r = l'.flatMap code ++ stop :: r') :
    l = l' ∧ r = r' := by
  induction l generalizing l' with
  | nil =>
    cases l' with
    | nil => exact ⟨rfl, (List.cons.inj heq).2⟩
    | cons y l' =>
      rw [List.flatMap_cons, List.append_assoc] at heq
      exact absurd heq.symm (h.ne_stop y _ _)
  | cons x l ih =>
    cases l' with
    | nil =>
      rw [List.flatMap_cons, List.append_assoc] at heq
      exact absurd heq (h.ne_stop x _ _)
    | cons y l' =>
      rw [List.flatMap_cons, List.flatMap_cons, List.append_assoc, List.append_assoc] at heq
      obtain ⟨rfl, hrest⟩ := h.inj x y _ _ heq
      obtain ⟨rfl, rfl⟩ := ih hrest
      exact ⟨rfl, rfl⟩

/-! ## Lines -/

theorem line_inj {newline : β} {a a' r r' : List β} (ha : newline ∉ a) (ha' : newline ∉ a')
    (h : a ++ newline :: r = a' ++ newline :: r') : a = a' ∧ r = r' := by
  classical
  have hp : ∀ {b : List β}, newline ∉ b → ∀ x ∈ b, decide (x ≠ newline) = true :=
    fun hb x hx => decide_eq_true fun hxn => hb (hxn ▸ hx)
  have hstop : ∀ {s : List β}, ∀ x ∈ (newline :: s).head?, decide (x ≠ newline) = false := by
    rintro s x hx
    cases hx
    simp
  obtain ⟨rfl, hrest⟩ := append_inj_of_stop (hp ha) (hp ha') hstop hstop h
  exact ⟨rfl, (List.cons.inj hrest).2⟩

/-- A line, with or without a header above it. -/
@[ext] structure Block (β : Type*) where
  header : Option (List β)
  line : List β

namespace Block

def text (newline : β) (b : Block β) : List β :=
  (match b.header with
    | none => []
    | some h => h ++ [newline]) ++ b.line ++ [newline]

/-- Neither part has another line in it, and the header is told from the line by how it begins. -/
structure Legible (newline : β) (isMark : β → Bool) (b : Block β) : Prop where
  header : ∀ h ∈ b.header, newline ∉ h ∧ ∃ x ∈ h.head?, isMark x = true
  line : newline ∉ b.line ∧ ∃ x ∈ b.line.head?, isMark x = false

variable {newline : β} {isMark : β → Bool}

theorem text_inj {b b' : Block β} (hb : b.Legible newline isMark) (hb' : b'.Legible newline isMark)
    {r r' : List β} (h : b.text newline ++ r = b'.text newline ++ r') : b = b' ∧ r = r' := by
  obtain ⟨header, line⟩ := b
  obtain ⟨header', line'⟩ := b'
  have hhead : ∀ {a a' s s' : List β}, (∃ x ∈ a.head?, isMark x = true) →
      (∃ x ∈ a'.head?, isMark x = false) → a ++ s ≠ a' ++ s' := by
    rintro (_ | ⟨x, a⟩) (_ | ⟨x', a'⟩) s s' ⟨y, hy, hmark⟩ ⟨y', hy', hmark'⟩ heq
    · cases hy
    · cases hy
    · cases hy'
    · cases hy
      cases hy'
      rw [(List.cons.inj heq).1, hmark'] at hmark
      cases hmark
  cases header with
  | none =>
    cases header' with
    | none =>
      simp only [text, List.nil_append, List.append_assoc, List.singleton_append] at h
      obtain ⟨rfl, rfl⟩ := line_inj hb.line.1 hb'.line.1 h
      exact ⟨rfl, rfl⟩
    | some header' =>
      simp only [text, List.nil_append, List.append_assoc, List.singleton_append] at h
      exact absurd h.symm (hhead (hb'.header _ rfl).2 hb.line.2)
  | some header =>
    cases header' with
    | none =>
      simp only [text, List.nil_append, List.append_assoc, List.singleton_append] at h
      exact absurd h (hhead (hb.header _ rfl).2 hb'.line.2)
    | some header' =>
      simp only [text, List.append_assoc, List.singleton_append] at h
      obtain ⟨rfl, hrest⟩ := line_inj (hb.header _ rfl).1 (hb'.header _ rfl).1 h
      obtain ⟨rfl, rfl⟩ := line_inj hb.line.1 hb'.line.1 hrest
      exact ⟨rfl, rfl⟩

/-- Blocks can be read back from their text. -/
theorem flatMap_text_inj {bs bs' : List (Block β)} (hbs : ∀ b ∈ bs, b.Legible newline isMark)
    (hbs' : ∀ b ∈ bs', b.Legible newline isMark)
    (h : bs.flatMap (text newline) = bs'.flatMap (text newline)) : bs = bs' := by
  have hne : ∀ (b : Block β) (r : List β), b.text newline ++ r ≠ [] := by
    intro b r hnil
    rw [text, List.append_assoc, List.append_assoc] at hnil
    exact absurd (List.append_eq_nil_iff.mp (List.append_eq_nil_iff.mp hnil).2).2 (by simp)
  induction bs generalizing bs' with
  | nil =>
    cases bs' with
    | nil => rfl
    | cons b' bs' => exact absurd h.symm (hne b' _)
  | cons b bs ih =>
    cases bs' with
    | nil => exact absurd h (hne b _)
    | cons b' bs' =>
      rw [List.forall_mem_cons] at hbs hbs'
      rw [List.flatMap_cons, List.flatMap_cons] at h
      obtain ⟨rfl, hrest⟩ := text_inj hbs.1 hbs'.1 h
      rw [ih hbs.2 hbs'.2 hrest]

end Block

end

end Lib
end Proxeus
