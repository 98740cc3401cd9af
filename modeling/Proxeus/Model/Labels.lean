import Proxeus.Lib.Ascending

/-!
# Model.Labels

`labels.Labels` and `model.LabelSet`. Both are finite maps from label names to values, kept here
as lists ascending by name. A `Labels` holds no empty value: Prometheus reads an empty value as a
missing label, and `labels.Builder.Set` deletes the label when it is given one. So `Labels.get`,
which answers `""` for a missing name, determines the label set (`Labels.ext_get`), and every
operation is described by what `get` returns after it.
-/

namespace Proxeus

open Lib

structure Label where
  name : String
  value : String
deriving DecidableEq, Repr

/-- `model.LabelSet` -/
structure LabelSet where
  pairs : List Label
  ascending : Ascending Label.name pairs
deriving DecidableEq

/-- `labels.Labels` -/
structure Labels extends LabelSet where
  nonempty : ∀ p ∈ pairs, p.value ≠ ""
deriving DecidableEq

/-- `model.MetricNameLabel` -/
def metricNameLabel : String := "__name__"

namespace Labels

def empty : Labels := ⟨⟨[], ascending_nil⟩, by simp⟩

/-- `labels.Labels.Get` -/
def get (l : Labels) (name : String) : String :=
  match l.pairs.find? fun p => p.name = name with
  | some p => p.value
  | none => ""

theorem ext_pairs {l l' : Labels} (h : l.pairs = l'.pairs) : l = l' := by
  obtain ⟨⟨_, _⟩, _⟩ := l
  obtain ⟨⟨_, _⟩, _⟩ := l'
  cases h
  rfl

theorem mem_pairs_iff (l : Labels) (p : Label) :
    p ∈ l.pairs ↔ l.get p.name = p.value ∧ p.value ≠ "" := by
  constructor
  · intro hp
    refine ⟨?_, l.nonempty p hp⟩
    unfold get
    cases hf : l.pairs.find? fun q => q.name = p.name with
    | none => simpa using List.find?_eq_none.mp hf p hp
    | some q =>
      have hq : q = p :=
        l.ascending.eq_of_key_eq (List.mem_of_find?_eq_some hf) hp (by simpa using List.find?_some hf)
      rw [hq]
  · rintro ⟨hg, hne⟩
    unfold get at hg
    split at hg
    · rename_i q hf
      have hn : q.name = p.name := by simpa using List.find?_some hf
      have hq : q = p := by
        obtain ⟨_, _⟩ := q
        obtain ⟨_, _⟩ := p
        simp_all
      exact hq ▸ List.mem_of_find?_eq_some hf
    · exact absurd hg.symm hne

/-- The values determine the label set. -/
theorem ext_get {l l' : Labels} (h : ∀ name, l.get name = l'.get name) : l = l' :=
  ext_pairs (l.ascending.ext l'.ascending fun p => by rw [mem_pairs_iff, mem_pairs_iff, h])

theorem get_eq_iff (l : Labels) (name value : String) (hv : value ≠ "") :
    l.get name = value ↔ ⟨name, value⟩ ∈ l.pairs := by
  rw [mem_pairs_iff]
  exact ⟨fun h => ⟨h, hv⟩, fun h => h.1⟩

/-- A label set whose members are described by `v` has the values `v`. -/
theorem get_of_mem {l : Labels} {name v : String}
    (h : ∀ value, value ≠ "" → (⟨name, value⟩ ∈ l.pairs ↔ v = value)) : l.get name = v := by
  by_cases hv : v = ""
  · by_contra hne
    have hg : l.get name ≠ "" := fun h' => hne (h'.trans hv.symm)
    have hm := (l.get_eq_iff name _ hg).mp rfl
    exact hne ((h _ hg).mp hm).symm
  · exact (l.get_eq_iff name v hv).mpr ((h v hv).mpr rfl)

/-! ## Restricting to and removing names -/

/-- The labels whose name satisfies `p`. -/
def restrict (l : Labels) (p : String → Bool) : Labels :=
  ⟨⟨l.pairs.filter fun q => p q.name, l.ascending.filter _⟩,
    fun q hq => l.nonempty q (List.mem_filter.mp hq).1⟩

@[simp] theorem get_restrict (l : Labels) (p : String → Bool) (name : String) :
    (l.restrict p).get name = if p name then l.get name else "" := by
  apply get_of_mem
  intro value hv
  simp only [restrict, List.mem_filter, mem_pairs_iff]
  split
  · simp [*]
  · simp [*, Ne.symm hv]

/-- `labels.Builder.Keep` -/
def keep (l : Labels) (names : List String) : Labels := l.restrict fun n => names.contains n

/-- `labels.Builder.Del` -/
def del (l : Labels) (names : List String) : Labels := l.restrict fun n => !names.contains n

@[simp] theorem get_keep (l : Labels) (names : List String) (name : String) :
    (l.keep names).get name = if name ∈ names then l.get name else "" := by
  simp [keep]

@[simp] theorem get_del (l : Labels) (names : List String) (name : String) :
    (l.del names).get name = if name ∈ names then "" else l.get name := by
  by_cases h : name ∈ names <;> simp [del, h]

/-! ## Setting -/

/-- `labels.Builder.Set` followed by `Labels`: an empty value deletes the label. -/
def set (l : Labels) (name value : String) : Labels :=
  if h : value = "" then l.del [name]
  else
    ⟨⟨sortBy Label.name (⟨name, value⟩ :: (l.del [name]).pairs), by
        rw [ascending_sortBy_iff, List.map_cons, List.nodup_cons]
        refine ⟨?_, (l.del [name]).ascending.nodup_keys⟩
        simp [del, restrict]⟩,
      by
        intro p hp
        rw [mem_sortBy, List.mem_cons] at hp
        rcases hp with rfl | hp
        · exact h
        · exact (l.del [name]).nonempty p hp⟩

@[simp] theorem get_set (l : Labels) (name value name' : String) :
    (l.set name value).get name' = if name' = name then value else l.get name' := by
  unfold set
  split
  · rename_i h
    simp [h]
  · rename_i h
    apply get_of_mem
    intro v hv
    simp only [mem_sortBy, List.mem_cons, mem_pairs_iff, get_del, List.not_mem_nil, or_false,
      Label.mk.injEq]
    by_cases hn : name' = name
    · simp [hn, Ne.symm hv, eq_comm]
    · simp [hn, hv]

/-- Setting every pair of a label set, in turn. -/
def setAll (l : Labels) : List Label → Labels
  | [] => l
  | p :: ps => (l.set p.name p.value).setAll ps

theorem get_setAll_of_notMem {ps : List Label} {name : String} (l : Labels)
    (h : ∀ p ∈ ps, p.name ≠ name) : (l.setAll ps).get name = l.get name := by
  induction ps generalizing l with
  | nil => rfl
  | cons p ps ih =>
    rw [setAll, ih _ fun q hq => h q (List.mem_cons_of_mem p hq), get_set,
      if_neg (Ne.symm (h p List.mem_cons_self))]

theorem get_setAll_of_mem {ps : List Label} (l : Labels) (hn : (ps.map Label.name).Nodup)
    {p : Label} (hp : p ∈ ps) : (l.setAll ps).get p.name = p.value := by
  induction ps generalizing l with
  | nil => cases hp
  | cons q ps ih =>
    rw [List.map_cons, List.nodup_cons] at hn
    rcases List.mem_cons.mp hp with rfl | hp
    · rw [setAll, get_setAll_of_notMem, get_set, if_pos rfl]
      intro r hr hname
      exact hn.1 (hname ▸ List.mem_map_of_mem hr)
    · exact ih _ hn.2 hp

end Labels

namespace LabelSet

/-- Whether the label set names `name`. -/
def names (ls : LabelSet) : List String := ls.pairs.map Label.name

/-- The value a map lookup finds. -/
def lookup (ls : LabelSet) (name : String) : Option String :=
  (ls.pairs.find? fun p => p.name = name).map Label.value

end LabelSet

end Proxeus
