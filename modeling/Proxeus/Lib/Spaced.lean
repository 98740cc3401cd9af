import Proxeus.Lib.Ascending

/-!
# Lib.Spaced

The union of two time series of which the first has precedence: `spacedUnion` adds to it the
elements of the second that are more than a buffer away from every element of the first. `weave`
is the same list in the order a single pass over the first series produces it, and
`weaveAll_eq_spacedUnion` identifies the two. Series that sample one grid with little skew form a
union with one element for each point of the grid that has any (`spacedUnion_grid`).
-/

namespace Proxeus
namespace Lib

section

variable {α : Type*} {time : α → Int} {B : Int} {a b l : List α}

/-- More than `B` away from every element of `l`. -/
def far (time : α → Int) (B : Int) (l : List α) (x : α) : Bool :=
  l.all fun u => B < |time x - time u|

theorem far_iff {x : α} :
    far time B l x = true ↔ ∀ u ∈ l, time x + B < time u ∨ time u + B < time x := by
  simp only [far, List.all_eq_true, decide_eq_true_eq, lt_abs]
  constructor
  · intro h u hu
    have := h u hu
    omega
  · intro h u hu
    have := h u hu
    omega

/-- The time-sorted union of `a` and the elements of `b` that are far from `a`. -/
def spacedUnion (time : α → Int) (B : Int) (a b : List α) : List α :=
  sortBy time (a ++ b.filter (far time B a))

@[simp] theorem mem_spacedUnion {x : α} :
    x ∈ spacedUnion time B a b ↔ x ∈ a ∨ (x ∈ b ∧ far time B a x = true) := by
  rw [spacedUnion, mem_sortBy, List.mem_append, List.mem_filter]

theorem spacedUnion_ascending (hB : 0 ≤ B) (ha : Ascending time a) (hb : Ascending time b) :
    Ascending time (spacedUnion time B a b) := by
  rw [spacedUnion, ascending_sortBy_iff, List.map_append, List.nodup_append]
  refine ⟨ha.nodup_keys, (hb.filter _).nodup_keys, ?_⟩
  intro t ht t' ht' heq
  obtain ⟨u, hu, rfl⟩ := List.mem_map.mp ht
  obtain ⟨x, hx, rfl⟩ := List.mem_map.mp ht'
  have := far_iff.mp (List.mem_filter.mp hx).2 u hu
  omega

@[simp] theorem spacedUnion_nil_left (hb : Ascending time b) : spacedUnion time B [] b = b := by
  have hall : b.filter (far time B []) = b := List.filter_eq_self.mpr fun _ _ => rfl
  rw [spacedUnion, hall, List.nil_append, hb.sortBy_eq]

@[simp] theorem spacedUnion_nil_right (ha : Ascending time a) : spacedUnion time B a [] = a := by
  rw [spacedUnion, List.filter_nil, List.append_nil, ha.sortBy_eq]

/-- An element is never far from itself. -/
theorem spacedUnion_self (hB : 0 ≤ B) (ha : Ascending time a) : spacedUnion time B a a = a := by
  have hnil : a.filter (far time B a) = [] := by
    rw [List.filter_eq_nil_iff]
    intro x hx hf
    have := far_iff.mp hf x hx
    omega
  rw [spacedUnion, hnil, List.append_nil, ha.sortBy_eq]

/-- The union of two series has the union of their times. -/
theorem map_spacedUnion (hB : 0 ≤ B) (ha : Ascending time a) (hb : Ascending time b) :
    (spacedUnion time B a b).map time = spacedUnion id B (a.map time) (b.map time) := by
  have hid : ∀ {m : List α}, Ascending time m → Ascending id (m.map time) :=
    fun h => ascending_map.mpr h
  refine (hid (spacedUnion_ascending hB ha hb)).ext
    (spacedUnion_ascending hB (hid ha) (hid hb)) fun t => ?_
  have hfar : ∀ x, far id B (a.map time) (time x) = far time B a x := by
    intro x
    simp [far, List.all_map, Function.comp_def]
  simp only [List.mem_map, mem_spacedUnion]
  constructor
  · rintro ⟨x, hx | ⟨hx, hf⟩, rfl⟩
    · exact .inl ⟨x, hx, rfl⟩
    · exact .inr ⟨⟨x, hx, rfl⟩, by rw [hfar]; exact hf⟩
  · rintro (⟨x, hx, rfl⟩ | ⟨⟨x, hx, rfl⟩, hf⟩)
    · exact ⟨x, .inl hx, rfl⟩
    · exact ⟨x, .inr ⟨hx, by rwa [hfar] at hf⟩, rfl⟩

/-! ## The order of a single pass -/

/-- The elements of `b` strictly between `lo + B` and `hi - B`. -/
def between (time : α → Int) (B lo hi : Int) (b : List α) : List α :=
  b.filter fun x => lo + B < time x && time x < hi - B

/-- After an element of time `prev`: the rest `a` of the first series, with the elements of `b`
that fit into its holes. -/
def weave (time : α → Int) (B : Int) (b : List α) : Int → List α → List α
  | prev, [] => b.filter fun x => prev + B < time x
  | prev, y :: a => between time B prev (time y) b ++ y :: weave time B b (time y) a

/-- The whole pass: `b` up to the first element of `a`, then `a` and its holes. -/
def weaveAll (time : α → Int) (B : Int) (b : List α) : List α → List α
  | [] => b
  | y :: a => (b.filter fun x => time x < time y - B) ++ y :: weave time B b (time y) a

theorem mem_weave {prev : Int} (ha : Ascending time a)
    (hprev : ∀ y ∈ a, prev < time y) {x : α} :
    x ∈ weave time B b prev a ↔
      x ∈ a ∨ (x ∈ b ∧ prev + B < time x ∧ far time B a x = true) := by
  induction a generalizing prev with
  | nil => simp [weave, far]
  | cons y a ih =>
    rw [ascending_cons] at ha
    have hy := hprev y List.mem_cons_self
    rw [weave, List.mem_append, List.mem_cons, ih ha.2 ha.1, between, List.mem_filter,
      List.mem_cons, Bool.and_eq_true, decide_eq_true_eq, decide_eq_true_eq, far_iff, far_iff]
    simp only [List.forall_mem_cons]
    constructor
    · rintro (⟨hx, h1, h2⟩ | rfl | hx | ⟨hx, h1, h2⟩)
      · refine .inr ⟨hx, h1, .inl (by omega), fun u hu => ?_⟩
        have := ha.1 u hu
        exact .inl (by omega)
      · exact .inl (.inl rfl)
      · exact .inl (.inr hx)
      · exact .inr ⟨hx, by omega, .inr h1, h2⟩
    · rintro ((rfl | hx) | ⟨hx, h1, h2 | h2, h3⟩)
      · exact .inr (.inl rfl)
      · exact .inr (.inr (.inl hx))
      · exact .inl ⟨hx, h1, by omega⟩
      · exact .inr (.inr (.inr ⟨hx, h2, h3⟩))

theorem weave_ascending (hB : 0 ≤ B) (hb : Ascending time b) {prev : Int}
    (ha : Ascending time a) (hprev : ∀ y ∈ a, prev < time y) :
    Ascending time (weave time B b prev a) ∧ ∀ x ∈ weave time B b prev a, prev < time x := by
  induction a generalizing prev with
  | nil =>
    refine ⟨hb.filter _, fun x hx => ?_⟩
    have := of_decide_eq_true (List.mem_filter.mp hx).2
    omega
  | cons y a ih =>
    rw [ascending_cons] at ha
    obtain ⟨hasc, hlt⟩ := ih ha.2 ha.1
    have hy := hprev y List.mem_cons_self
    have hmid : ∀ x ∈ between time B prev (time y) b, prev + B < time x ∧ time x < time y - B := by
      intro x hx
      simpa [between] using (List.mem_filter.mp hx).2
    rw [weave]
    constructor
    · rw [ascending_append, ascending_cons]
      refine ⟨hb.filter _, ⟨hlt, hasc⟩, fun x hx z hz => ?_⟩
      have := hmid x hx
      rcases List.mem_cons.mp hz with rfl | hz
      · omega
      · have := hlt z hz
        omega
    · intro x hx
      rcases List.mem_append.mp hx with hx | hx
      · have := hmid x hx
        omega
      · rcases List.mem_cons.mp hx with rfl | hx
        · exact hy
        · exact hy.trans (hlt x hx)

theorem weaveAll_ascending (hB : 0 ≤ B) (ha : Ascending time a) (hb : Ascending time b) :
    Ascending time (weaveAll time B b a) := by
  cases a with
  | nil => exact hb
  | cons y a =>
    rw [ascending_cons] at ha
    obtain ⟨hasc, hlt⟩ := weave_ascending hB hb ha.2 ha.1
    rw [weaveAll, ascending_append, ascending_cons]
    refine ⟨hb.filter _, ⟨hlt, hasc⟩, fun x hx z hz => ?_⟩
    have := of_decide_eq_true (List.mem_filter.mp hx).2
    rcases List.mem_cons.mp hz with rfl | hz
    · omega
    · have := hlt z hz
      omega

theorem weaveAll_eq_spacedUnion (hB : 0 ≤ B) (ha : Ascending time a) (hb : Ascending time b) :
    weaveAll time B b a = spacedUnion time B a b := by
  refine (weaveAll_ascending hB ha hb).ext (spacedUnion_ascending hB ha hb) fun x => ?_
  rw [mem_spacedUnion]
  cases a with
  | nil => simp [weaveAll, far]
  | cons y a =>
    rw [ascending_cons] at ha
    rw [weaveAll, List.mem_append, List.mem_cons, mem_weave ha.2 ha.1, List.mem_filter,
      List.mem_cons, decide_eq_true_eq, far_iff, far_iff]
    simp only [List.forall_mem_cons]
    constructor
    · rintro (⟨hx, h1⟩ | rfl | hx | ⟨hx, h1, h2⟩)
      · refine .inr ⟨hx, .inl (by omega), fun u hu => ?_⟩
        have := ha.1 u hu
        exact .inl (by omega)
      · exact .inl (.inl rfl)
      · exact .inl (.inr hx)
      · exact .inr ⟨hx, .inr h1, h2⟩
    · rintro ((rfl | hx) | ⟨hx, h1 | h1, h2⟩)
      · exact .inr (.inl rfl)
      · exact .inr (.inr (.inl hx))
      · exact .inl ⟨hx, by omega⟩
      · exact .inr (.inr (.inr ⟨hx, h1, h2⟩))

/-! ## A pass through a map -/

theorem map_weave {β : Type*} {time' : β → Int} (f : β → α) (h : ∀ x, time (f x) = time' x)
    (b a : List β) (prev : Int) :
    weave time B (b.map f) prev (a.map f) = (weave time' B b prev a).map f := by
  induction a generalizing prev with
  | nil => simp only [weave, List.map_nil, List.filter_map, Function.comp_def, h]
  | cons y a ih =>
    simp only [List.map_cons, weave, List.map_append, between, List.filter_map,
      Function.comp_def, h, ih]

theorem map_weaveAll {β : Type*} {time' : β → Int} (f : β → α) (h : ∀ x, time (f x) = time' x)
    (b a : List β) :
    weaveAll time B (b.map f) (a.map f) = (weaveAll time' B b a).map f := by
  cases a with
  | nil => rfl
  | cons y a =>
    simp only [List.map_cons, weaveAll, List.map_append, List.filter_map, Function.comp_def, h,
      map_weave f h]

/-! ## Series on a grid -/

/-- `f` samples the grid: what it takes for a point is at most half the buffer away from it. -/
def Samples (time : α → Int) (B : Int) (grid : List Int) (f : Int → Option α) : Prop :=
  ∀ n ∈ grid, ∀ x, f n = some x → 2 * |time x - n| ≤ B

/-- Consecutive points of the grid are more than two buffers apart. -/
def Sparse (B : Int) (grid : List Int) : Prop := grid.IsChain fun n n' => n + 2 * B < n'

variable {grid : List Int} {f g : Int → Option α}

theorem Sparse.pairwise (hB : 0 ≤ B) (h : Sparse B grid) :
    grid.Pairwise fun n n' => n + 2 * B < n' :=
  haveI : IsTrans Int fun n n' => n + 2 * B < n' := ⟨fun _ _ _ h h' => by omega⟩
  List.isChain_iff_pairwise.mp h

theorem Sparse.apart (hB : 0 ≤ B) (h : Sparse B grid) {n n' : Int} (hn : n ∈ grid)
    (hn' : n' ∈ grid) (hne : n ≠ n') : n + 2 * B < n' ∨ n' + 2 * B < n :=
  haveI : Std.Symm fun n n' : Int => n + 2 * B < n' ∨ n' + 2 * B < n := ⟨fun _ _ => Or.symm⟩
  have hpair : grid.Pairwise fun n n' => n + 2 * B < n' ∨ n' + 2 * B < n :=
    (h.pairwise hB).imp Or.inl
  hpair.forall hn hn' hne

theorem Samples.bounds (hf : Samples time B grid f) {n : Int} (hn : n ∈ grid) {x : α}
    (hx : f n = some x) : 2 * time x ≤ 2 * n + B ∧ 2 * n ≤ 2 * time x + B := by
  have h : |2 * (time x - n)| ≤ B := by
    rw [abs_mul]
    exact hf n hn x hx
  have := abs_le.mp h
  omega

theorem Samples.ascending (hB : 0 ≤ B) (hgrid : Sparse B grid) (hf : Samples time B grid f) :
    Ascending time (grid.filterMap f) := by
  rw [Ascending, List.pairwise_filterMap]
  refine (hgrid.pairwise hB).imp_of_mem fun {n n'} hn hn' hlt x hx y hy => ?_
  have := hf.bounds hn hx
  have := hf.bounds hn' hy
  omega

theorem Samples.or (hf : Samples time B grid f) (hg : Samples time B grid g) :
    Samples time B grid fun n => (f n).or (g n) := by
  intro n hn x hx
  rcases Option.or_eq_some_iff.mp hx with hx | ⟨-, hx⟩
  · exact hf n hn x hx
  · exact hg n hn x hx

/-- A sample of `g` is far from all of `f` exactly where `f` has no sample for its point. -/
theorem Samples.far_iff (hB : 0 ≤ B) (hgrid : Sparse B grid) (hf : Samples time B grid f)
    (hg : Samples time B grid g) {n : Int} (hn : n ∈ grid) {x : α} (hx : g n = some x) :
    far time B (grid.filterMap f) x = true ↔ f n = none := by
  have hxn := hg.bounds hn hx
  rw [Lib.far_iff]
  constructor
  · intro hfar
    by_contra hsome
    obtain ⟨u, hu⟩ := Option.ne_none_iff_exists'.mp hsome
    have hun := hf.bounds hn hu
    have := hfar u (List.mem_filterMap.mpr ⟨n, hn, hu⟩)
    omega
  · intro hnone u hu
    obtain ⟨n', hn', hu⟩ := List.mem_filterMap.mp hu
    have hne : n ≠ n' := by
      rintro rfl
      rw [hnone] at hu
      cases hu
    have hun := hf.bounds hn' hu
    have := hgrid.apart hB hn hn' hne
    omega

/-- The union of two series on one grid takes one sample for each point that has any. -/
theorem spacedUnion_grid (hB : 0 ≤ B) (hgrid : Sparse B grid) (hf : Samples time B grid f)
    (hg : Samples time B grid g) :
    spacedUnion time B (grid.filterMap f) (grid.filterMap g) =
      grid.filterMap fun n => (f n).or (g n) := by
  refine (spacedUnion_ascending hB (hf.ascending hB hgrid) (hg.ascending hB hgrid)).ext
    ((hf.or hg).ascending hB hgrid) fun x => ?_
  simp only [mem_spacedUnion, List.mem_filterMap, Option.or_eq_some_iff]
  constructor
  · rintro (⟨n, hn, hx⟩ | ⟨⟨n, hn, hx⟩, hfar⟩)
    · exact ⟨n, hn, .inl hx⟩
    · exact ⟨n, hn, .inr ⟨(hf.far_iff hB hgrid hg hn hx).mp hfar, hx⟩⟩
  · rintro ⟨n, hn, hx | ⟨hnone, hx⟩⟩
    · exact .inl ⟨n, hn, hx⟩
    · exact .inr ⟨⟨n, hn, hx⟩, (hf.far_iff hB hgrid hg hn hx).mpr hnone⟩

end

end Lib
end Proxeus
