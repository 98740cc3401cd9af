import Proxeus.Federate.Federate

/-!
# Federate.FederateSpec

How often `/federate` writes a series. The handler removes duplicates by merging what the selectors
have selected, and the merge sees a series of two sets as one only where both have come to it with
the same series left above it (`serves_once_iff`). In sorted sets that is everywhere; but what is
selected through the dedup of the server groups is not sorted.
-/

namespace Proxeus
namespace Federate

open Lib Promclient

/-! ## Chained series -/

theorem isChained_perm {group group' : List Series} (h : group.Perm group') {s : Series}
    (hs : IsChained group s) : IsChained group' s := by
  rcases hs with rfl | ⟨hlen, ⟨x, hx, hlabels⟩, hasc, hfrom, hto⟩
  · exact .inl (List.perm_singleton.mp h.symm)
  · refine .inr ⟨h.length_eq ▸ hlen, ⟨x, h.mem_iff.mp hx, hlabels⟩, hasc, fun y hy => ?_,
      fun x hx => hto x (h.mem_iff.mpr hx)⟩
    obtain ⟨x, hx, hin⟩ := hfrom y hy
    exact ⟨x, h.mem_iff.mp hx, hin⟩

/-- There is one sample for each time. -/
theorem exists_ascending (samples : List Sample) :
    ∃ merged, Ascending Sample.t merged ∧ (∀ y ∈ merged, y ∈ samples) ∧
      ∀ y ∈ samples, ∃ y' ∈ merged, y'.t = y.t := by
  induction samples with
  | nil => exact ⟨[], ascending_nil, by simp, by simp⟩
  | cons x samples ih =>
    obtain ⟨merged, hasc, hfrom, hto⟩ := ih
    by_cases hx : ∃ y' ∈ merged, y'.t = x.t
    · refine ⟨merged, hasc, fun y hy => List.mem_cons_of_mem x (hfrom y hy), fun y hy => ?_⟩
      rcases List.mem_cons.mp hy with rfl | hy
      · exact hx
      · exact hto y hy
    · have hnew : ((x :: merged).map Sample.t).Nodup := by
        rw [List.map_cons, List.nodup_cons]
        refine ⟨fun hin => hx ?_, hasc.nodup_keys⟩
        obtain ⟨y', hy', heq⟩ := List.mem_map.mp hin
        exact ⟨y', hy', heq⟩
      refine ⟨sortBy Sample.t (x :: merged), ascending_sortBy_iff.mpr hnew, fun y hy => ?_,
        fun y hy => ?_⟩
      · rcases List.mem_cons.mp (mem_sortBy.mp hy) with rfl | hy
        · exact List.mem_cons_self
        · exact List.mem_cons_of_mem x (hfrom y hy)
      · rcases List.mem_cons.mp hy with rfl | hy
        · exact ⟨_, mem_sortBy.mpr List.mem_cons_self, rfl⟩
        · obtain ⟨y', hy', heq⟩ := hto y hy
          exact ⟨y', mem_sortBy.mpr (List.mem_cons_of_mem x hy'), heq⟩

theorem exists_isChained {group : List Series} (hne : group ≠ []) : ∃ s, IsChained group s := by
  match group, hne with
  | [s], _ => exact ⟨s, .inl rfl⟩
  | s :: s' :: group, _ =>
    obtain ⟨merged, hasc, hfrom, hto⟩ :=
      exists_ascending ((s :: s' :: group).flatMap Series.samples)
    refine ⟨⟨s.labels, merged⟩, .inr ⟨?_, ⟨s, List.mem_cons_self, rfl⟩, hasc, fun y hy => ?_,
      fun x hx y hy => hto y (List.mem_flatMap.mpr ⟨x, hx, hy⟩)⟩⟩
    · simp
    · exact List.mem_flatMap.mp (hfrom y hy)

/-- Series that are alone in their groups. -/
theorem chained_of_alone {κ : Type*} {groups : List (κ × List Series)}
    (h : ∀ g ∈ groups, g.2.length = 1) :
    List.Forall₂ (fun g s => IsChained g.2 s) groups (groups.flatMap Prod.snd) := by
  induction groups with
  | nil => exact .nil
  | cons g groups ih =>
    rw [List.forall_mem_cons] at h
    obtain ⟨s, hs⟩ := List.length_eq_one_iff.mp h.1
    rw [List.flatMap_cons, hs]
    exact .cons (.inl hs) (ih h.2)

theorem exists_labels_of_isChained {group : List Series} {s : Series} (h : IsChained group s) :
    ∃ x ∈ group, x.labels = s.labels := by
  rcases h with rfl | ⟨-, hlabels, -⟩
  · exact ⟨s, List.mem_cons_self, rfl⟩
  · exact hlabels

/-! ## What may be written -/

section

variable (delta maxt : Int)

/-- The series left with the stack `p` may be merged into one whose newest sample is written. -/
def MayBeWritten (sets : List (List Series)) (p : List (List (String ×ₗ String))) : Prop :=
  ∃ s, IsChained (classOf seriesKey sets p) s ∧ (newestFloat delta maxt s).isSome

theorem metric_newestFloat {s : Series} {x : FloatSample} (h : newestFloat delta maxt s = some x) :
    x.metric = s.labels := by
  rw [newestFloat] at h
  split at h
  · split at h
    · cases h
    · cases h
      rfl
  · cases h

/-! ## Runs -/

/-- Two relations with the elements of one list. -/
theorem forall₂_of_common {α β γ : Type*} {R : α → β → Prop} {S : α → γ → Prop} {T : β → γ → Prop}
    (h : ∀ x y z, R x y → S x z → T y z) {l : List α} {l' : List β} {l'' : List γ}
    (hR : List.Forall₂ R l l') (hS : List.Forall₂ S l l'') : List.Forall₂ T l' l'' := by
  induction hR generalizing l'' with
  | nil =>
    cases hS
    exact .nil
  | cons hxy _ ih =>
    cases hS with
    | cons hxz hS => exact .cons (h _ _ _ hxy hxz) (ih hS)

theorem pairwise_of_forall₂ {α β : Type*} {R : α → α → Prop} {S : β → β → Prop} {T : α → β → Prop}
    (h : ∀ x x' y y', T x y → T x' y' → R x x' → S y y') {l : List α} {l' : List β}
    (hT : List.Forall₂ T l l') (hR : l.Pairwise R) : l'.Pairwise S := by
  induction hT with
  | nil => exact List.Pairwise.nil
  | @cons x y l l' hxy hT ih =>
    rw [List.pairwise_cons] at hR ⊢
    refine ⟨fun y' hy' => ?_, ih hR.2⟩
    obtain ⟨i, hi, rfl⟩ := List.mem_iff_getElem.mp hy'
    have hi' : i < l.length := hT.length_eq ▸ hi
    exact h _ _ _ _ hxy (hT.get hi' hi) (hR.1 _ (List.getElem_mem hi'))

theorem exists_of_forall₂ {α β : Type*} {T : α → β → Prop} {l : List α} {l' : List β}
    (hT : List.Forall₂ T l l') {x : α} (hx : x ∈ l) : ∃ y ∈ l', T x y := by
  obtain ⟨i, hi, rfl⟩ := List.mem_iff_getElem.mp hx
  have hi' : i < l'.length := hT.length_eq ▸ hi
  exact ⟨_, List.getElem_mem hi', hT.get hi hi'⟩

/-- What is collected, by the stacks of a run: the series of each are merged into one. -/
theorem collects_iff {sets : List (List Series)} {vec : List FloatSample} :
    Collects delta maxt sets vec ↔
      ∃ groups merged, MergeRun seriesKey sets groups ∧
        List.Forall₂ (fun p s => IsChained (classOf seriesKey sets p) s)
          (leaders [] (groups.map Prod.fst)) merged ∧
        vec = merged.filterMap (newestFloat delta maxt) := by
  refine exists_congr fun groups => exists_congr fun merged => and_congr_right fun hrun =>
    and_congr_left fun _ => ?_
  have hgroups : List.Forall₂ (fun (g : List (String ×ₗ String) × List Series) p =>
      g.2.Perm (classOf seriesKey sets p)) groups (leaders [] (groups.map Prod.fst)) :=
    hrun.groups_marked.2
  have hflip : List.Forall₂ (fun p (g : List (String ×ₗ String) × List Series) =>
      g.2.Perm (classOf seriesKey sets p)) (leaders [] (groups.map Prod.fst)) groups :=
    List.Forall₂.flip hgroups
  have hto : ∀ (g : List (String ×ₗ String) × List Series) p s,
      g.2.Perm (classOf seriesKey sets p) → IsChained g.2 s →
        IsChained (classOf seriesKey sets p) s := fun g p s hperm hs => isChained_perm hperm hs
  have hfrom : ∀ p (g : List (String ×ₗ String) × List Series) s,
      g.2.Perm (classOf seriesKey sets p) → IsChained (classOf seriesKey sets p) s →
        IsChained g.2 s := fun p g s hperm hs => isChained_perm hperm.symm hs
  exact ⟨forall₂_of_common hto hgroups, forall₂_of_common hfrom hflip⟩

/-- The stack of a merged series has its labels on top. -/
theorem head_of_isChained {sets : List (List Series)} {p : List (List (String ×ₗ String))}
    {s : Series} (h : IsChained (classOf seriesKey sets p) s) :
    (∃ x, (x, p) ∈ marked seriesKey sets ∧ x.labels = s.labels) ∧ p.head? = some (seriesKey s) := by
  obtain ⟨x, hx, hlabels⟩ := exists_labels_of_isChained h
  have hmem := mem_classOf.mp hx
  refine ⟨⟨x, hmem, hlabels⟩, ?_⟩
  rw [head_of_mem_marked hmem, seriesKey, seriesKey, hlabels]

theorem nodup_collected_iff {merged : List Series} :
    ((merged.filterMap (newestFloat delta maxt)).map FloatSample.metric).Nodup ↔
      merged.Pairwise fun s s' => (newestFloat delta maxt s).isSome →
        (newestFloat delta maxt s').isSome → s.labels ≠ s'.labels := by
  rw [List.Nodup, List.pairwise_map, List.pairwise_filterMap]
  refine List.Pairwise.iff fun s s' => ?_
  constructor
  · intro h hs hs'
    obtain ⟨x, hx⟩ := Option.isSome_iff_exists.mp hs
    obtain ⟨x', hx'⟩ := Option.isSome_iff_exists.mp hs'
    have hne := h x hx x' hx'
    rwa [metric_newestFloat delta maxt hx, metric_newestFloat delta maxt hx'] at hne
  · intro h x hx x' hx'
    rw [metric_newestFloat delta maxt hx, metric_newestFloat delta maxt hx']
    exact h (Option.isSome_iff_exists.mpr ⟨x, hx⟩) (Option.isSome_iff_exists.mpr ⟨x', hx'⟩)

/-- No label set has two stacks whose series may be written. -/
def Once (sets : List (List Series)) : Prop :=
  ∀ e ∈ marked seriesKey sets, ∀ e' ∈ marked seriesKey sets, e.1.labels = e'.1.labels →
    MayBeWritten delta maxt sets e.2 → MayBeWritten delta maxt sets e'.2 → e.2 = e'.2

theorem nodup_of_once {sets : List (List Series)} (h : Once delta maxt sets)
    {vec : List FloatSample} (hvec : Collects delta maxt sets vec) :
    (vec.map FloatSample.metric).Nodup := by
  obtain ⟨groups, merged, -, hchained, rfl⟩ := (collects_iff delta maxt).mp hvec
  rw [nodup_collected_iff]
  refine pairwise_of_forall₂ (fun p p' s s' hp hp' hne hs hs' hlabels => hne ?_) hchained
    (nodup_leaders _ _)
  obtain ⟨⟨x, hx, hxl⟩, -⟩ := head_of_isChained hp
  obtain ⟨⟨x', hx', hxl'⟩, -⟩ := head_of_isChained hp'
  exact h _ hx _ hx' (hxl.trans (hlabels.trans hxl'.symm)) ⟨s, hp, hs⟩ ⟨s', hp', hs'⟩

/-- Every way of merging the series of each stack is a run. -/
theorem exists_collects {sets : List (List Series)}
    (choice : List (List (String ×ₗ String)) → Series)
    (hchoice : ∀ e ∈ marked seriesKey sets, IsChained (classOf seriesKey sets e.2) (choice e.2)) :
    ∃ stackList : List (List (List (String ×ₗ String))), stackList.Nodup ∧
      (∀ e ∈ marked seriesKey sets, e.2 ∈ stackList) ∧
      Collects delta maxt sets ((stackList.map choice).filterMap (newestFloat delta maxt)) := by
  have hrun := @mergeRun_kWayMerge _ _ _ seriesKey sets
  refine ⟨_, nodup_leaders [] _, hrun.groups_marked.1, (collects_iff delta maxt).mpr
    ⟨_, _, hrun, ?_, rfl⟩⟩
  rw [List.forall₂_map_right_iff, List.forall₂_same]
  intro p hp
  obtain ⟨x, hx⟩ := hrun.exists_marked hp
  exact hchoice _ hx

theorem once_of_nodup {sets : List (List Series)}
    (h : ∀ vec, Collects delta maxt sets vec → (vec.map FloatSample.metric).Nodup) :
    Once delta maxt sets := by
  classical
  intro e he e' he' hlabels hw hw'
  -- of each stack, a series that may be written, if there is one
  have hex : ∀ p, ∃ s, (∃ x, (x, p) ∈ marked seriesKey sets) →
      IsChained (classOf seriesKey sets p) s ∧
        (MayBeWritten delta maxt sets p → (newestFloat delta maxt s).isSome) := by
    intro p
    by_cases hmay : MayBeWritten delta maxt sets p
    · obtain ⟨s, hs, hsome⟩ := hmay
      exact ⟨s, fun _ => ⟨hs, fun _ => hsome⟩⟩
    · by_cases hp : ∃ x, (x, p) ∈ marked seriesKey sets
      · obtain ⟨x, hx⟩ := hp
        obtain ⟨s, hs⟩ := exists_isChained (List.ne_nil_of_mem (mem_classOf.mpr hx))
        exact ⟨s, fun _ => ⟨hs, fun h => absurd h hmay⟩⟩
      · exact ⟨⟨Labels.empty, []⟩, fun h => absurd h hp⟩
  choose choice hchoice using hex
  obtain ⟨stackList, hnodup, hmem, hcollects⟩ := exists_collects delta maxt choice
    fun e he => (hchoice e.2 ⟨e.1, he⟩).1
  have hpair := (nodup_collected_iff delta maxt).mp (h _ hcollects)
  rw [List.pairwise_map] at hpair
  by_contra hne
  have hwritten : ∀ e ∈ marked seriesKey sets, MayBeWritten delta maxt sets e.2 →
      (newestFloat delta maxt (choice e.2)).isSome ∧ (choice e.2).labels = e.1.labels := by
    intro e he hmay
    obtain ⟨hchained, hsome⟩ := hchoice e.2 ⟨e.1, he⟩
    refine ⟨hsome hmay, Labels.key_injective ?_⟩
    have hhead := (head_of_isChained hchained).2
    rw [head_of_mem_marked he, Option.some.injEq] at hhead
    exact hhead.symm
  obtain ⟨hs, hl⟩ := hwritten e he hw
  obtain ⟨hs', hl'⟩ := hwritten e' he' hw'
  have hsymm : Std.Symm fun p p' => (newestFloat delta maxt (choice p)).isSome →
      (newestFloat delta maxt (choice p')).isSome → (choice p).labels ≠ (choice p').labels :=
    ⟨fun p p' h hs hs' hl => h hs' hs hl.symm⟩
  exact hpair.forall (hmem e he) (hmem e' he') hne hs hs' (hl.trans (hlabels.trans hl'.symm))

/-! ## Fresh series -/

/-- The samples are in order, and the newest of them, at `t`, is a float but no stale marker. -/
structure Newest (t : Int) (samples : List Sample) : Prop where
  ordered : samples.Pairwise fun x y => x.t ≤ y.t
  last : ∀ x ∈ samples, x.t ≤ t
  fresh : ∀ x ∈ samples, x.t = t → ∃ f, x = .float t f ∧ f.isStaleNaN = false

/-- The newest sample of the series, in all sets that list it, is a float in the lookback window and
not the stale marker. -/
structure Fresh (sets : List (List Series)) (l : Labels) (t : Int) : Prop where
  inWindow : maxt - delta ≤ t ∧ t ≤ maxt
  listed : ∃ set ∈ sets, ∃ s ∈ set, s.labels = l ∧ ∃ x ∈ s.samples, x.t = t
  newest : ∀ set ∈ sets, ∀ s ∈ set, s.labels = l → Newest t s.samples

theorem isSome_newestFloat {t : Int} {s : Series} (hwindow : maxt - delta ≤ t ∧ t ≤ maxt)
    (hnewest : Newest t s.samples) (hex : ∃ x ∈ s.samples, x.t = t) :
    (newestFloat delta maxt s).isSome := by
  obtain ⟨x, hx, rfl⟩ := hex
  have hdrop : (s.samples.dropWhile fun x => x.t < maxt - delta) =
      s.samples.filter fun x => !decide (x.t < maxt - delta) :=
    dropWhile_eq_filter (hnewest.ordered.imp fun {y z} hle hz =>
      decide_eq_true (lt_of_le_of_lt hle (of_decide_eq_true hz)))
  have hmem : ∀ y, y ∈ (s.samples.dropWhile fun x => x.t < maxt - delta) →
      y ∈ s.samples := fun y hy => (List.dropWhile_sublist _).subset hy
  have hin : x ∈ s.samples.dropWhile fun x => x.t < maxt - delta := by
    rw [hdrop, List.mem_filter]
    exact ⟨hx, by simpa using hwindow.1⟩
  have hfloat : ∀ y ∈ s.samples, x.t ≤ y.t →
      seekOrPeekBack delta maxt s.samples = some y → (newestFloat delta maxt s).isSome := by
    intro y hy hle hseek
    obtain ⟨f, hf, hstale⟩ := hnewest.fresh y hy (le_antisymm (hnewest.last y hy) hle)
    simp only [newestFloat, hseek, hf, hstale]
    rfl
  rw [seekOrPeekBack] at hfloat
  cases hfind : (s.samples.dropWhile fun x => x.t < maxt - delta).find? fun x => maxt ≤ x.t with
  | some y =>
    have hy := hmem y (List.mem_of_find?_eq_some hfind)
    have hle : maxt ≤ y.t := by simpa using List.find?_some hfind
    exact hfloat y hy (hwindow.2.trans hle) (by simp only [hfind])
  | none =>
    obtain ⟨y, hlast⟩ := Option.isSome_iff_exists.mp
      (List.getLast?_isSome.mpr (List.ne_nil_of_mem hin))
    refine hfloat y (hmem y (List.mem_of_getLast? hlast)) ?_ (by simp only [hfind, hlast])
    obtain ⟨init, hinit⟩ := List.getLast?_eq_some_iff.mp hlast
    have hord := hnewest.ordered.sublist (List.dropWhile_sublist fun x => x.t < maxt - delta)
    rw [hinit] at hord hin
    rcases List.mem_append.mp hin with hin | hin
    · exact (List.pairwise_append.mp hord).2.2 x hin y List.mem_cons_self
    · rw [List.mem_singleton.mp hin]

theorem newest_of_isChained {t : Int} {group : List Series} {s : Series} (h : IsChained group s)
    (hnewest : ∀ x ∈ group, Newest t x.samples) : Newest t s.samples := by
  rcases h with rfl | ⟨-, -, hasc, hfrom, -⟩
  · exact hnewest s List.mem_cons_self
  · refine ⟨hasc.imp le_of_lt, fun y hy => ?_, fun y hy => ?_⟩
    · obtain ⟨x, hx, hin⟩ := hfrom y hy
      exact (hnewest x hx).last y hin
    · obtain ⟨x, hx, hin⟩ := hfrom y hy
      exact (hnewest x hx).fresh y hin

theorem exists_time_of_isChained {group : List Series} {s x : Series} (h : IsChained group s)
    (hx : x ∈ group) {y : Sample} (hy : y ∈ x.samples) : ∃ y' ∈ s.samples, y'.t = y.t := by
  rcases h with rfl | ⟨-, -, -, -, hto⟩
  · rw [List.mem_singleton.mp hx] at hy
    exact ⟨y, hy, rfl⟩
  · exact hto x hx y hy

theorem mem_marked_of_mem {sets : List (List Series)} {set : List Series} (hset : set ∈ sets)
    {s : Series} (hs : s ∈ set) : ∃ p, (s, p) ∈ marked seriesKey sets := by
  rw [← @map_fst_trace _ _ _ seriesKey [] set] at hs
  obtain ⟨e, he, rfl⟩ := List.mem_map.mp hs
  exact ⟨e.2, List.mem_flatMap.mpr ⟨set, hset, he⟩⟩

theorem mem_of_mem_marked {sets : List (List Series)} {s : Series}
    {p : List (List (String ×ₗ String))} (h : (s, p) ∈ marked seriesKey sets) :
    ∃ set ∈ sets, s ∈ set := by
  obtain ⟨set, hset, hin⟩ := List.mem_flatMap.mp h
  refine ⟨set, hset, ?_⟩
  rw [← @map_fst_trace _ _ _ seriesKey [] set]
  exact List.mem_map_of_mem hin

/-- What is fresh is written. -/
theorem mem_collected_of_fresh {sets : List (List Series)} {l : Labels} {t : Int}
    (hfresh : Fresh delta maxt sets l t) {vec : List FloatSample}
    (hvec : Collects delta maxt sets vec) : l ∈ vec.map FloatSample.metric := by
  obtain ⟨groups, merged, hrun, hchained, rfl⟩ := (collects_iff delta maxt).mp hvec
  obtain ⟨set, hset, s, hs, rfl, y, hy, rfl⟩ := hfresh.listed
  obtain ⟨p, hp⟩ := mem_marked_of_mem hset hs
  obtain ⟨m, hm, hchain⟩ := exists_of_forall₂ hchained (hrun.groups_marked.1 _ hp)
  have hlabels : ∀ x ∈ classOf seriesKey sets p, x.labels = s.labels := by
    intro x hx
    have hhead := head_of_mem_marked (mem_classOf.mp hx)
    rw [head_of_mem_marked hp, Option.some.injEq] at hhead
    exact Labels.key_injective hhead.symm
  have hnewest := newest_of_isChained hchain fun x hx => by
    obtain ⟨set', hset', hin⟩ := mem_of_mem_marked (mem_classOf.mp hx)
    exact hfresh.newest set' hset' x hin (hlabels x hx)
  obtain ⟨x, hx⟩ := Option.isSome_iff_exists.mp (isSome_newestFloat delta maxt hfresh.inWindow
    hnewest (exists_time_of_isChained hchain (mem_classOf.mpr hp) hy))
  obtain ⟨x', hx', hxl⟩ := exists_labels_of_isChained hchain
  refine List.mem_map.mpr ⟨x, List.mem_filterMap.mpr ⟨m, hm, hx⟩, ?_⟩
  rw [metric_newestFloat delta maxt hx, ← hxl, hlabels x' hx']

/-! ## The handler -/

/-- Whatever is collected can be written. -/
theorem exists_serves {sets : List (List Series)} {vec : List FloatSample}
    (hvec : Collects delta maxt sets vec) : ∃ written, Serves delta maxt sets written ∧
      written.Perm vec :=
  ⟨sortBy (fun s => s.metric.get metricNameLabel) vec,
    ⟨vec, hvec, sortBy_perm _ _, sortBy_pairwise _ _⟩, sortBy_perm _ _⟩

/-- Every series is written at most once, and what is fresh is written. -/
def WritesOnce (sets : List (List Series)) (written : List FloatSample) : Prop :=
  (written.map FloatSample.metric).Nodup ∧
    ∀ l t, Fresh delta maxt sets l t → l ∈ written.map FloatSample.metric

theorem serves_once_iff (sets : List (List Series)) :
    (∀ written, Serves delta maxt sets written → WritesOnce delta maxt sets written) ↔
      Once delta maxt sets := by
  constructor
  · intro h
    refine once_of_nodup delta maxt fun vec hvec => ?_
    obtain ⟨written, hserves, hperm⟩ := exists_serves delta maxt hvec
    exact (hperm.map FloatSample.metric).nodup_iff.mp (h written hserves).1
  · rintro h written ⟨vec, hvec, hperm, -⟩
    have hmetrics := hperm.map FloatSample.metric
    exact ⟨hmetrics.nodup_iff.mpr (nodup_of_once delta maxt h hvec),
      fun l t hfresh => hmetrics.mem_iff.mpr (mem_collected_of_fresh delta maxt hfresh hvec)⟩

/-- Sets that list every series once and in order are merged series by series. -/
theorem once_of_ascending {sets : List (List Series)}
    (h : ∀ set ∈ sets, Ascending seriesKey set) : Once delta maxt sets := by
  have hstack : ∀ e ∈ marked seriesKey sets, e.2 = [seriesKey e.1] := by
    intro e he
    obtain ⟨set, hset, hin⟩ := List.mem_flatMap.mp he
    exact trace_of_ascending (h set hset) (fun k hk => absurd hk List.not_mem_nil) e hin
  intro e he e' he' hlabels _ _
  rw [hstack e he, hstack e' he', seriesKey, seriesKey, hlabels]

end

/-! ## Through the querier -/

section

open Promql

/-- Through the dedup of the server groups, each with what it answers for some matchers, every
series is written at most once, and what is fresh is written, exactly if no series is left by the
selectors with two stacks that may both be written. -/
theorem federate_once_iff [Prometheus] {Key : Type*} [DecidableEq Key]
    (sortSlice : List DedupBucketMember → List DedupBucketMember)
    (bytesWithoutLabels : Labels → List String → Key) (ignoreNames : List String)
    (opts : DedupGapOpts) (backends : List (List Matcher → List Series))
    (matcherSets : List (List Matcher)) (delta maxt : Int) :
    let sets := matcherSets.map
      (Proxyquerier.select sortSlice bytesWithoutLabels ignoreNames opts backends)
    (∀ written, Serves delta maxt sets written → WritesOnce delta maxt sets written) ↔
      Once delta maxt sets :=
  serves_once_iff delta maxt _

attribute [local instance] literalRegexp prometheusWithoutBuckets

/-- A server group with one series of `up`, as it answers. -/
def upBackend (dc job : String) (matchers : List Matcher) : List Series :=
  [⟨((Labels.empty.set metricNameLabel "up").set "dc" dc).set "job" job, [.float 100 .zero]⟩].filter
    fun s => selects matchers s.labels

/-- Of two server groups the first one has the greater labels, and the second selector selects the
series of the second one only: that series is written twice. -/
theorem federate_up_twice :
    let sets := [[nameMatcher "up"], [nameMatcher "up", newMatcher .matchEqual "job" "a"]].map
      (Proxyquerier.select (sortBy DedupBucketMember.ordinal) (fun l names => (l.del names).pairs)
        ["dc"] ⟨false, 0⟩ [upBackend "us" "b", upBackend "eu" "a"])
    ∃ written, Serves 300 100 sets written ∧ ¬ WritesOnce 300 100 sets written := by
  intro sets
  let groups := kWayMerge seriesKey sets
  let vec := (groups.flatMap Prod.snd).filterMap (newestFloat 300 100)
  have halone : ∀ g ∈ groups, g.2.length = 1 := by decide +kernel
  refine ⟨vec, ⟨vec, ⟨groups, _, mergeRun_kWayMerge sets, chained_of_alone halone, rfl⟩,
    List.Perm.refl _, ?_⟩, ?_⟩
  · decide +kernel
  · rintro ⟨h, -⟩
    have hnot : ¬ (vec.map FloatSample.metric).Nodup := by decide +kernel
    exact hnot h

end

end Federate
end Proxeus
