import Mathlib.Data.List.Basic
import Mathlib.Tactic.Ring

/-!
# Promapi.JsonReader

The streaming JSON reader that the decoders pull values from, over a JSON tree. A read looks at the
next token only, so it can be asked for at any place: `readObject` also answers in the middle of an
object, and ends it at a field without a name. What is left of the text is a list of items, which are
opened when a read enters them. `readFields` and `readItems` are the two loops of the decoders; no read
gives back more than it was given, so the loops end (`readFields_total`, `readItems_total`).
-/

namespace Proxeus
namespace Promapi

/-! ## Trees -/

/-- A JSON value. A number is its literal. -/
inductive Json where
  | null
  | bool (b : Bool)
  | num (literal : String)
  | str (s : String)
  | arr (items : List Json)
  | obj (fields : List (String × Json))

namespace Json

mutual

/-- The number of tokens, counting each name and each separator. -/
def weight : Json → Nat
  | .arr items => 1 + itemsWeight items
  | .obj fields => 1 + fieldsWeight fields
  | _ => 1

def itemsWeight : List Json → Nat
  | [] => 0
  | v :: items => 1 + weight v + itemsWeight items

def fieldsWeight : List (String × Json) → Nat
  | [] => 0
  | f :: fields => 2 + fieldWeight f + fieldsWeight fields

def fieldWeight : String × Json → Nat
  | (_, v) => weight v

end

mutual

/-- How deep arrays and objects are nested. -/
def depth : Json → Nat
  | .arr items => 1 + itemsDepth items
  | .obj fields => 1 + fieldsDepth fields
  | _ => 0

def itemsDepth : List Json → Nat
  | [] => 0
  | v :: items => max (depth v) (itemsDepth items)

def fieldsDepth : List (String × Json) → Nat
  | [] => 0
  | f :: fields => max (fieldDepth f) (fieldsDepth fields)

def fieldDepth : String × Json → Nat
  | (_, v) => depth v

end

/-- The values of a tree, itself among them. -/
inductive Sub : Json → Json → Prop where
  | refl (v : Json) : Sub v v
  | item {v w : Json} {items : List Json} (h : Sub v w) (hw : w ∈ items) : Sub v (.arr items)
  | field {v w : Json} {k : String} {fields : List (String × Json)} (h : Sub v w)
    (hw : (k, w) ∈ fields) : Sub v (.obj fields)

theorem Sub.trans {u v w : Json} (h : Sub u v) (h' : Sub v w) : Sub u w := by
  induction h' with
  | refl => exact h
  | item _ hw ih => exact .item ih hw
  | field _ hw ih => exact .field ih hw

end Json

/-! ## The reader -/

/-- What is left of the text: values, fields and closing brackets, of which `nextItem` and `nextField`
stand after a comma. -/
inductive Item where
  | value (v : Json)
  | field (k : String) (v : Json)
  | nextItem (v : Json)
  | nextField (k : String) (v : Json)
  | closeBracket
  | closeBrace

abbrev Reader := List Item

/-- Why a read fails: the reader reports an error, or a loop of the model is out of turns. -/
inductive ReadError where
  | reported
  | outOfTurns
deriving DecidableEq, Repr

namespace Item

/-- The tree that an item is part of. -/
def tree : Item → Option Json
  | .value v | .field _ v | .nextItem v | .nextField _ v => some v
  | .closeBracket | .closeBrace => none

/-- Whether the item is yet to be reached by a comma or a closing bracket. -/
def pending : Item → Bool
  | .value _ | .field _ _ => false
  | .nextItem _ | .nextField _ _ | .closeBracket | .closeBrace => true

def weight : Item → Nat
  | .value v => v.weight
  | .field _ v | .nextItem v => 1 + v.weight
  | .nextField _ v => 2 + v.weight
  | .closeBracket | .closeBrace => 1

end Item

/-- The items of an array after the first. -/
def arrayRest (items : List Json) : Reader := items.map Item.nextItem ++ [.closeBracket]

def objectRest (fields : List (String × Json)) : Reader :=
  fields.map (fun f => Item.nextField f.1 f.2) ++ [.closeBrace]

/-- `Iterator.ReadObject`: the name of the next field, or `""`. -/
def readObject : Reader → Except ReadError (String × Reader)
  | .value .null :: r => .ok ("", r)
  | .value (.obj []) :: r => .ok ("", r)
  | .value (.obj ((k, v) :: fields)) :: r => .ok (k, .value v :: (objectRest fields ++ r))
  | .nextField k v :: r => .ok (k, .value v :: r)
  | .closeBrace :: r => .ok ("", r)
  | _ => .error .reported

/-- `Iterator.ReadArray`: whether there is a next item. -/
def readArray : Reader → Except ReadError (Bool × Reader)
  | .value .null :: r => .ok (false, r)
  | .value (.arr []) :: r => .ok (false, r)
  | .value (.arr (v :: items)) :: r => .ok (true, .value v :: (arrayRest items ++ r))
  | .nextItem v :: r => .ok (true, .value v :: r)
  | .nextField k v :: r => .ok (true, .field k v :: r)
  | .closeBracket :: r => .ok (false, r)
  | _ => .error .reported

/-- The string that a value is read as. -/
def Json.asString : Json → Option String
  | .str s => some s
  | .null => some ""
  | _ => none

/-- `Iterator.ReadString` -/
def readString : Reader → Except ReadError (String × Reader)
  | .value v :: r =>
    match v.asString with
    | some s => .ok (s, r)
    | none => .error .reported
  | _ => .error .reported

/-- The literal that a read of a number finds. -/
def readNumber : Reader → Except ReadError (String × Reader)
  | .value (.num literal) :: r => .ok (literal, r)
  | _ => .error .reported

/-- `maxDepth` -/
def maxDepth : Nat := 10000

/-- `Iterator.SkipAndReturnBytes`, and `Iterator.Skip` -/
def skip : Reader → Except ReadError (Json × Reader)
  | .value v :: r => if v.depth ≤ maxDepth then .ok (v, r) else .error .reported
  | _ => .error .reported

/-- `Iterator.ReportError`, where the program has failed to use what it read. -/
def orReport {α : Type} (a : Option α) (r : Reader) : Except ReadError (α × Reader) :=
  match a with
  | some a => .ok (a, r)
  | none => .error .reported

/-! ## The loops -/

section

variable {α : Type}

/-- `for k := iter.ReadObject(); k != ""; k = iter.ReadObject()`, with turns to spare. -/
def readFieldsLoop (field : String → α → Reader → Except ReadError (α × Reader)) :
    Nat → α → Reader → Except ReadError (α × Reader)
  | 0, _, _ => .error .outOfTurns
  | n + 1, acc, r => do
    let (k, r) ← readObject r
    if k = "" then .ok (acc, r)
    else
      let (acc, r) ← field k acc r
      readFieldsLoop field n acc r

/-- `for iter.ReadArray()`, with turns to spare. -/
def readItemsLoop (item : α → Reader → Except ReadError (α × Reader)) :
    Nat → α → Reader → Except ReadError (α × Reader)
  | 0, _, _ => .error .outOfTurns
  | n + 1, acc, r => do
    let (more, r) ← readArray r
    if more = false then .ok (acc, r)
    else
      let (acc, r) ← item acc r
      readItemsLoop item n acc r

def Reader.weight (r : Reader) : Nat := (r.map Item.weight).sum

def readFields (field : String → α → Reader → Except ReadError (α × Reader)) (acc : α) (r : Reader) :
    Except ReadError (α × Reader) :=
  readFieldsLoop field (Reader.weight r + 1) acc r

def readItems (item : α → Reader → Except ReadError (α × Reader)) (acc : α) (r : Reader) :
    Except ReadError (α × Reader) :=
  readItemsLoop item (Reader.weight r + 1) acc r

/-! ## Reads go forward -/

namespace Reader

@[simp] theorem weight_nil : weight [] = 0 := rfl

@[simp] theorem weight_cons (i : Item) (r : Reader) : weight (i :: r) = i.weight + weight r := rfl

@[simp] theorem weight_append (r r' : Reader) : weight (r ++ r') = weight r + weight r' := by
  simp [weight, List.map_append, List.sum_append]

end Reader

@[simp] theorem weight_arrayRest (items : List Json) :
    Reader.weight (arrayRest items) = Json.itemsWeight items + 1 := by
  induction items with
  | nil => rfl
  | cons v items ih =>
    have hcons : arrayRest (v :: items) = .nextItem v :: arrayRest items := rfl
    rw [hcons, Reader.weight_cons, ih, Json.itemsWeight, Item.weight]
    omega

@[simp] theorem weight_objectRest (fields : List (String × Json)) :
    Reader.weight (objectRest fields) = Json.fieldsWeight fields + 1 := by
  induction fields with
  | nil => rfl
  | cons f fields ih =>
    obtain ⟨k, v⟩ := f
    have hcons : objectRest ((k, v) :: fields) = .nextField k v :: objectRest fields := rfl
    rw [hcons, Reader.weight_cons, ih, Json.fieldsWeight, Json.fieldWeight, Item.weight]
    omega

theorem weight_of_readObject {r r' : Reader} {k : String} (h : readObject r = .ok (k, r')) :
    Reader.weight r' < Reader.weight r := by
  unfold readObject at h
  split at h
  all_goals cases h
  all_goals simp [Item.weight, Json.weight, Json.fieldsWeight, Json.fieldWeight]
  all_goals omega

theorem weight_of_readArray {r r' : Reader} {more : Bool} (h : readArray r = .ok (more, r')) :
    Reader.weight r' < Reader.weight r := by
  unfold readArray at h
  split at h
  all_goals cases h
  all_goals simp [Item.weight, Json.weight, Json.itemsWeight]
  all_goals omega

/-- A read of `r` leaves no more than `r`, and is not out of turns. -/
def Advances {α : Type} (r : Reader) (x : Except ReadError (α × Reader)) : Prop :=
  x ≠ .error .outOfTurns ∧ ∀ a r', x = .ok (a, r') → Reader.weight r' ≤ Reader.weight r

section

variable {α β : Type}

theorem advances_reported (r : Reader) : Advances r (.error .reported : Except _ (α × Reader)) := by
  constructor
  · intro h
    cases h
  · intro a r' h
    cases h

theorem advances_ok {r r' : Reader} {a : α} (h : Reader.weight r' ≤ Reader.weight r) :
    Advances r (.ok (a, r')) := by
  constructor
  · intro h
    cases h
  · rintro a r' ⟨⟩
    exact h

theorem Advances.bind {r : Reader} {x : Except ReadError (α × Reader)}
    {f : α × Reader → Except ReadError (β × Reader)} (hx : Advances r x)
    (hf : ∀ a r', x = .ok (a, r') → Advances r' (f (a, r'))) : Advances r (x >>= f) := by
  obtain ⟨hne, hle⟩ := hx
  cases x with
  | error err =>
    constructor
    · intro h
      cases h
      exact hne rfl
    · intro a r' h
      cases h
  | ok p =>
    obtain ⟨a, r'⟩ := p
    obtain ⟨hne', hle'⟩ := hf a r' rfl
    exact ⟨hne', fun b r'' h => (hle' b r'' h).trans (hle a r' rfl)⟩

theorem advances_readObject (r : Reader) : Advances r (readObject r) := by
  refine ⟨?_, fun k r' h => (weight_of_readObject h).le⟩
  unfold readObject
  split <;> simp

theorem advances_readArray (r : Reader) : Advances r (readArray r) := by
  refine ⟨?_, fun more r' h => (weight_of_readArray h).le⟩
  unfold readArray
  split <;> simp

theorem advances_readString (r : Reader) : Advances r (readString r) := by
  unfold readString
  split
  · split
    · exact advances_ok (by simp)
    · exact advances_reported _
  · exact advances_reported _

theorem advances_readNumber (r : Reader) : Advances r (readNumber r) := by
  unfold readNumber
  split
  · exact advances_ok (by simp)
  · exact advances_reported _

theorem advances_skip (r : Reader) : Advances r (skip r) := by
  unfold skip
  split
  · split
    · exact advances_ok (by simp)
    · exact advances_reported _
  · exact advances_reported _

theorem advances_orReport (a : Option α) (r : Reader) : Advances r (orReport a r) := by
  cases a with
  | none => exact advances_reported r
  | some a => exact advances_ok le_rfl

theorem Advances.mono {r r' : Reader} {x : Except ReadError (α × Reader)} (h : Advances r' x)
    (hle : Reader.weight r' ≤ Reader.weight r) : Advances r x :=
  ⟨h.1, fun a r'' heq => (h.2 a r'' heq).trans hle⟩

/-- The turns of the loop suffice: every turn reads a token. -/
theorem readFields_advances {field : String → α → Reader → Except ReadError (α × Reader)}
    (h : ∀ k acc r, Advances r (field k acc r)) (acc : α) (r : Reader) :
    Advances r (readFields field acc r) := by
  have hloop : ∀ n acc r, Reader.weight r < n → Advances r (readFieldsLoop field n acc r) := by
    intro n
    induction n with
    | zero =>
      intro acc r hlt
      omega
    | succ n ih =>
      intro acc r hlt
      refine (advances_readObject r).bind fun k r' hread => ?_
      have hlt' := weight_of_readObject hread
      simp only
      split
      · exact advances_ok le_rfl
      · refine (h k acc r').bind fun acc' r'' hfield => ?_
        have hle := (h k acc r').2 acc' r'' hfield
        exact ih acc' r'' (by omega)
  exact hloop _ acc r (Nat.lt_succ_self _)

theorem readItems_advances {item : α → Reader → Except ReadError (α × Reader)}
    (h : ∀ acc r, Advances r (item acc r)) (acc : α) (r : Reader) :
    Advances r (readItems item acc r) := by
  have hloop : ∀ n acc r, Reader.weight r < n → Advances r (readItemsLoop item n acc r) := by
    intro n
    induction n with
    | zero =>
      intro acc r hlt
      omega
    | succ n ih =>
      intro acc r hlt
      refine (advances_readArray r).bind fun more r' hread => ?_
      have hlt' := weight_of_readArray hread
      simp only
      split
      · exact advances_ok le_rfl
      · refine (h acc r').bind fun acc' r'' hitem => ?_
        have hle := (h acc r').2 acc' r'' hitem
        exact ih acc' r'' (by omega)
  exact hloop _ acc r (Nat.lt_succ_self _)

/-! ## What the loops preserve -/

theorem exists_of_bind_eq_ok {x : Except ReadError (α × Reader)}
    {f : α × Reader → Except ReadError (β × Reader)} {b : β} {r' : Reader}
    (h : x >>= f = .ok (b, r')) : ∃ a r, x = .ok (a, r) ∧ f (a, r) = .ok (b, r') := by
  cases x with
  | error err => cases h
  | ok p => exact ⟨p.1, p.2, rfl, h⟩

/-- A field is read at its value. -/
theorem readObject_at_value {r r' : Reader} {k : String} (h : readObject r = .ok (k, r'))
    (hk : k ≠ "") : ∃ v rest, r' = .value v :: rest := by
  unfold readObject at h
  split at h
  all_goals cases h
  all_goals first | exact absurd rfl hk | exact ⟨_, _, rfl⟩

/-- An item is read at its value, or at a field whose comma was taken for one of an array. -/
theorem readArray_at_item {r r' : Reader} (h : readArray r = .ok (true, r')) :
    ∃ v rest, r' = .value v :: rest ∨ ∃ k, r' = .field k v :: rest := by
  unfold readArray at h
  split at h
  all_goals cases h
  · exact ⟨_, _, .inl rfl⟩
  · exact ⟨_, _, .inl rfl⟩
  · exact ⟨_, _, .inr ⟨_, rfl⟩⟩

/-- What holds before the loop, and is preserved by the reads, holds after it. -/
theorem readFields_induct {P : α → Reader → Prop}
    {field : String → α → Reader → Except ReadError (α × Reader)}
    (hread : ∀ acc r k r', P acc r → readObject r = .ok (k, r') → P acc r')
    (hfield : ∀ k acc v rest acc' r', P acc (.value v :: rest) →
      field k acc (.value v :: rest) = .ok (acc', r') → P acc' r')
    {acc acc' : α} {r r' : Reader} (h : P acc r) (hok : readFields field acc r = .ok (acc', r')) :
    P acc' r' := by
  unfold readFields at hok
  generalize Reader.weight r + 1 = n at hok
  induction n generalizing acc r with
  | zero => cases hok
  | succ n ih =>
    obtain ⟨k, r₁, hobj, hok⟩ := exists_of_bind_eq_ok hok
    have h₁ := hread acc r k r₁ h hobj
    simp only at hok
    split at hok
    · cases hok
      exact h₁
    · rename_i hk
      obtain ⟨acc₁, r₂, hf, hnext⟩ := exists_of_bind_eq_ok hok
      obtain ⟨v, rest, rfl⟩ := readObject_at_value hobj hk
      exact ih (hfield k acc v rest acc₁ r₂ h₁ hf) hnext

theorem readItems_induct {P : α → Reader → Prop}
    {item : α → Reader → Except ReadError (α × Reader)}
    (hread : ∀ acc r more r', P acc r → readArray r = .ok (more, r') → P acc r')
    (hitem : ∀ acc v rest acc' r', P acc (.value v :: rest) →
      item acc (.value v :: rest) = .ok (acc', r') → P acc' r')
    (hfield : ∀ acc k v rest p, item acc (.field k v :: rest) ≠ .ok p)
    {acc acc' : α} {r r' : Reader} (h : P acc r) (hok : readItems item acc r = .ok (acc', r')) :
    P acc' r' := by
  unfold readItems at hok
  generalize Reader.weight r + 1 = n at hok
  induction n generalizing acc r with
  | zero => cases hok
  | succ n ih =>
    obtain ⟨more, r₁, harr, hok⟩ := exists_of_bind_eq_ok hok
    have h₁ := hread acc r more r₁ h harr
    simp only at hok
    split at hok
    · cases hok
      exact h₁
    · rename_i hmore
      rw [Bool.not_eq_false] at hmore
      rw [hmore] at harr
      obtain ⟨acc₁, r₂, hi, hnext⟩ := exists_of_bind_eq_ok hok
      obtain ⟨v, rest, rfl | ⟨k, rfl⟩⟩ := readArray_at_item harr
      · exact ih (hitem acc v rest acc₁ r₂ h₁ hi) hnext
      · exact absurd hi (hfield acc k v rest (acc₁, r₂))

/-! ## Reads that differ in what they gather -/

/-- Both reads fail in the same way, or both leave the same and what they have gathered is related. -/
inductive SameRead (R : α → β → Prop) :
    Except ReadError (α × Reader) → Except ReadError (β × Reader) → Prop where
  | ok {a : α} {b : β} (h : R a b) (r : Reader) : SameRead R (.ok (a, r)) (.ok (b, r))
  | error (err : ReadError) : SameRead R (.error err) (.error err)

theorem SameRead.bind {γ δ : Type} {R : α → β → Prop} {S : γ → δ → Prop}
    {x : Except ReadError (α × Reader)} {y : Except ReadError (β × Reader)}
    {f : α × Reader → Except ReadError (γ × Reader)} {g : β × Reader → Except ReadError (δ × Reader)}
    (h : SameRead R x y) (hfg : ∀ a b r, R a b → SameRead S (f (a, r)) (g (b, r))) :
    SameRead S (x >>= f) (y >>= g) := by
  cases h with
  | ok hab r => exact hfg _ _ r hab
  | error err => exact .error err

theorem sameRead_refl (x : Except ReadError (α × Reader)) : SameRead (· = ·) x x := by
  cases x with
  | error err => exact .error err
  | ok p => exact .ok rfl p.2

theorem readFields_same {R : α → β → Prop}
    {field : String → α → Reader → Except ReadError (α × Reader)}
    {field' : String → β → Reader → Except ReadError (β × Reader)}
    (hfield : ∀ k a b r, R a b → SameRead R (field k a r) (field' k b r)) {a : α} {b : β}
    (h : R a b) (r : Reader) : SameRead R (readFields field a r) (readFields field' b r) := by
  unfold readFields
  generalize Reader.weight r + 1 = n
  induction n generalizing a b r with
  | zero => exact .error _
  | succ n ih =>
    refine (sameRead_refl (readObject r)).bind ?_
    rintro k k' r₁ rfl
    simp only
    split
    · exact .ok h r₁
    · exact (hfield k a b r₁ h).bind fun a' b' r₂ hab => ih hab r₂

theorem readItems_same {R : α → β → Prop}
    {item : α → Reader → Except ReadError (α × Reader)}
    {item' : β → Reader → Except ReadError (β × Reader)}
    (hitem : ∀ a b r, R a b → SameRead R (item a r) (item' b r)) {a : α} {b : β}
    (h : R a b) (r : Reader) : SameRead R (readItems item a r) (readItems item' b r) := by
  unfold readItems
  generalize Reader.weight r + 1 = n
  induction n generalizing a b r with
  | zero => exact .error _
  | succ n ih =>
    refine (sameRead_refl (readArray r)).bind ?_
    rintro more more' r₁ rfl
    simp only
    split
    · exact .ok h r₁
    · exact (hitem a b r₁ h).bind fun a' b' r₂ hab => ih hab r₂

end

/-! ## What is left is part of the body -/

namespace Reader

/-- Items that are yet to be reached, whose trees are values of `body`. -/
def Pending (body : Json) (r : Reader) : Prop :=
  ∀ i ∈ r, i.pending = true ∧ ∀ v ∈ i.tree, Json.Sub v body

/-- A reader of `body`: nothing but its first item has been reached. -/
def Within (body : Json) : Reader → Prop
  | [] => True
  | i :: r => (∀ v ∈ i.tree, Json.Sub v body) ∧ Pending body r

variable {body : Json}

theorem Pending.within {r : Reader} (h : Pending body r) : Within body r := by
  cases r with
  | nil => trivial
  | cons i r =>
    exact ⟨(h i List.mem_cons_self).2, fun j hj => h j (List.mem_cons_of_mem i hj)⟩

theorem Pending.append {r r' : Reader} (h : Pending body r) (h' : Pending body r') :
    Pending body (r ++ r') := by
  intro i hi
  rcases List.mem_append.mp hi with hi | hi
  · exact h i hi
  · exact h' i hi

theorem pending_arrayRest {items : List Json} (h : ∀ v ∈ items, Json.Sub v body) :
    Pending body (arrayRest items) := by
  intro i hi
  rw [arrayRest, List.mem_append, List.mem_map, List.mem_singleton] at hi
  rcases hi with ⟨w, hw, rfl⟩ | rfl
  · refine ⟨rfl, fun v hv => ?_⟩
    rw [← Option.some.inj hv]
    exact h w hw
  · refine ⟨rfl, fun v hv => ?_⟩
    cases hv

theorem pending_objectRest {fields : List (String × Json)} (h : ∀ f ∈ fields, Json.Sub f.2 body) :
    Pending body (objectRest fields) := by
  intro i hi
  rw [objectRest, List.mem_append, List.mem_map, List.mem_singleton] at hi
  rcases hi with ⟨f, hf, rfl⟩ | rfl
  · refine ⟨rfl, fun v hv => ?_⟩
    rw [← Option.some.inj hv]
    exact h f hf
  · refine ⟨rfl, fun v hv => ?_⟩
    cases hv

/-- A container's parts are values of the body if it is. -/
theorem sub_items {items : List Json} (h : Json.Sub (.arr items) body) :
    ∀ v ∈ items, Json.Sub v body :=
  fun v hv => (Json.Sub.item (.refl v) hv).trans h

theorem sub_fields {fields : List (String × Json)} (h : Json.Sub (.obj fields) body) :
    ∀ f ∈ fields, Json.Sub f.2 body :=
  fun f hf => (Json.Sub.field (.refl f.2) hf).trans h

theorem Within.head {v : Json} {r : Reader} (h : Within body (.value v :: r)) : Json.Sub v body :=
  h.1 v rfl

theorem Within.tail {i : Item} {r : Reader} (h : Within body (i :: r)) : Within body r :=
  h.2.within

/-- Entering an array. -/
theorem Within.items {v : Json} {items : List Json} {r : Reader}
    (h : Within body (.value (.arr (v :: items)) :: r)) :
    Within body (.value v :: (arrayRest items ++ r)) := by
  have hparts := sub_items h.head
  refine ⟨?_, (pending_arrayRest fun w hw => hparts w (List.mem_cons_of_mem _ hw)).append h.2⟩
  rintro w ⟨⟩
  exact hparts _ List.mem_cons_self

/-- Entering an object. -/
theorem Within.fields {k : String} {v : Json} {fields : List (String × Json)} {r : Reader}
    (h : Within body (.value (.obj ((k, v) :: fields)) :: r)) :
    Within body (.value v :: (objectRest fields ++ r)) := by
  have hparts := sub_fields h.head
  refine ⟨?_, (pending_objectRest fun f hf => hparts f (List.mem_cons_of_mem _ hf)).append h.2⟩
  rintro w ⟨⟩
  exact hparts _ List.mem_cons_self

theorem Within.readObject {r r' : Reader} {k : String} (h : Within body r)
    (hok : readObject r = .ok (k, r')) : Within body r' := by
  unfold Promapi.readObject at hok
  split at hok
  · cases hok
    exact h.tail
  · cases hok
    exact h.tail
  · cases hok
    exact h.fields
  · cases hok
    exact ⟨h.1, h.2⟩
  · cases hok
    exact h.tail
  · cases hok

theorem Within.readArray {r r' : Reader} {more : Bool} (h : Within body r)
    (hok : readArray r = .ok (more, r')) : Within body r' := by
  unfold Promapi.readArray at hok
  split at hok
  · cases hok
    exact h.tail
  · cases hok
    exact h.tail
  · cases hok
    exact h.items
  · cases hok
    exact ⟨h.1, h.2⟩
  · cases hok
    exact ⟨h.1, h.2⟩
  · cases hok
    exact h.tail
  · cases hok

theorem Within.readString {r r' : Reader} {s : String} (h : Within body r)
    (hok : readString r = .ok (s, r')) : Within body r' := by
  unfold Promapi.readString at hok
  split at hok
  · split at hok
    · cases hok
      exact h.tail
    · cases hok
  · cases hok

theorem Within.skip {r r' : Reader} {v : Json} (h : Within body r)
    (hok : skip r = .ok (v, r')) : Within body r' := by
  unfold Promapi.skip at hok
  split at hok
  · split at hok
    · cases hok
      exact h.tail
    · cases hok
  · cases hok

end Reader

/-! ## What was read -/

theorem exists_of_readNumber {r r' : Reader} {literal : String}
    (h : readNumber r = .ok (literal, r')) : r = .value (.num literal) :: r' := by
  unfold readNumber at h
  split at h
  · cases h
    rfl
  · cases h

theorem exists_of_orReport {a : Option α} {b : α} {r r' : Reader}
    (h : orReport a r = .ok (b, r')) : a = some b ∧ r' = r := by
  cases a with
  | none => cases h
  | some a =>
    cases h
    exact ⟨rfl, rfl⟩

theorem exists_of_readString {r r' : Reader} {s : String} (h : readString r = .ok (s, r')) :
    ∃ w, r = .value w :: r' ∧ w.asString = some s := by
  unfold readString at h
  split at h
  · rename_i v r
    split at h
    · rename_i s' hs
      cases h
      exact ⟨v, rfl, hs⟩
    · cases h
  · cases h

theorem exists_of_skip {r r' : Reader} {v : Json} (h : skip r = .ok (v, r')) :
    r = .value v :: r' := by
  unfold skip at h
  split at h
  · split at h
    · cases h
      rfl
    · cases h
  · cases h

theorem not_pending_value {v : Json} {r : Reader} :
    ¬ Reader.Pending body (.value v :: r) := by
  intro h
  have := (h _ List.mem_cons_self).1
  cases this

/-- The reads of a pair: what they find is an array whose second item is reached last. -/
theorem pair_of_reads {v w : Json} {rest r₁ r₂ r₃ : Reader} {m m' : Bool} {literal : String}
    (h : Reader.Within body (.value v :: rest)) (harr : readArray (.value v :: rest) = .ok (m, r₁))
    (hnum : readNumber r₁ = .ok (literal, r₂)) (hnext : readArray r₂ = .ok (m', .value w :: r₃)) :
    ∃ items, v = .arr (.num literal :: w :: items) := by
  have hr₁ := exists_of_readNumber hnum
  cases v with
  | null =>
    cases harr
    rw [hr₁] at h
    exact absurd h.2 not_pending_value
  | arr items =>
    cases items with
    | nil =>
      cases harr
      rw [hr₁] at h
      exact absurd h.2 not_pending_value
    | cons e items =>
      cases harr
      obtain ⟨he, hr₂⟩ := List.cons.inj hr₁
      cases he
      cases items with
      | nil =>
        rw [← hr₂] at hnext
        cases hnext
        exact absurd h.2 not_pending_value
      | cons w' items =>
        rw [← hr₂] at hnext
        cases hnext
        exact ⟨items, rfl⟩
  | bool b => cases harr
  | num literal => cases harr
  | str s => cases harr
  | obj fields => cases harr

end

end Promapi
end Proxeus
