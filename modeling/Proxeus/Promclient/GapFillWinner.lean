import Proxeus.Promclient.DedupLead
import Proxeus.Promclient.MergeSeriesSetSpec

/-!
# Promclient.GapFillWinner

The two choices of a winner. The loop over the sets lets one series of a bucket lead at a time;
filling sorts the members of the bucket by ordinal and starts from the first one. A member that has
the ordinal of the leader, but other labels, may be sorted before it: the two agree for every sort
exactly if no bucket is `Contested`.
-/

namespace Proxeus

namespace Promhttputil

/-! ## The base of a gap fill -/

theorem filterMap_timelineLoop_float {γ : Type*} {f : TimelineSample → Option γ}
    (hf : ∀ h : SampleHistogramPair, f (SampleHistogramPair.point h) = none) (vs : List SamplePair)
    (hs : List SampleHistogramPair) :
    (timelineLoop vs hs).filterMap f = (vs.map SamplePair.point).filterMap f := by
  induction vs generalizing hs with
  | nil =>
    rw [timelineLoop, List.filterMap_map]
    exact List.filterMap_eq_nil_iff.mpr fun h _ => hf h
  | cons v vs ih =>
    rw [timelineLoop]
    induction hs with
    | nil => rw [timelineStep, List.map_cons, List.filterMap_cons, List.filterMap_cons, ih]
    | cons h hs ihs =>
      rw [timelineStep]
      split
      · rw [List.map_cons, List.filterMap_cons, List.filterMap_cons, ih]
      · rw [List.filterMap_cons_none (hf h), ihs]

theorem filterMap_timelineLoop_histogram {γ : Type*} {f : TimelineSample → Option γ}
    (hf : ∀ v : SamplePair, f (SamplePair.point v) = none) (vs : List SamplePair)
    (hs : List SampleHistogramPair) :
    (timelineLoop vs hs).filterMap f = (hs.map SampleHistogramPair.point).filterMap f := by
  induction vs generalizing hs with
  | nil => rfl
  | cons v vs ih =>
    rw [timelineLoop]
    induction hs with
    | nil => rw [timelineStep, List.filterMap_cons_none (hf v), ih]
    | cons h hs ihs =>
      rw [timelineStep]
      split
      · rw [List.filterMap_cons_none (hf v), ih]
      · rw [List.map_cons, List.filterMap_cons, List.filterMap_cons, ihs]

/-- A stream is what its timeline says. -/
theorem streamOf_timeline (s : SampleStream) : streamOf s.metric (timeline s) = s := by
  have hvalues : (streamOf s.metric (timeline s)).values = s.values := by
    refine (filterMap_timelineLoop_float (fun _ => rfl) s.values s.histograms).trans ?_
    rw [List.filterMap_map]
    exact List.filterMap_some
  have hhistograms : (streamOf s.metric (timeline s)).histograms = s.histograms := by
    refine (filterMap_timelineLoop_histogram (fun _ => rfl) s.values s.histograms).trans ?_
    rw [List.filterMap_map]
    exact List.filterMap_some
  calc streamOf s.metric (timeline s)
      = ⟨s.metric, (streamOf s.metric (timeline s)).values,
          (streamOf s.metric (timeline s)).histograms⟩ := rfl
    _ = s := by rw [hvalues, hhistograms]

section

variable {below : FillBelow} {gap : Int}

/-- The main loop at the base: it ends with the samples, and emits them all. -/
theorem fillLoop_base (seq : List TimelineSample) (v : FillVars) :
    ∃ added, (fillLoop below gap none 0 seq v).out = v.out ++ added ∧ seq.Sublist added := by
  induction seq generalizing v with
  | nil => exact ⟨[], (List.append_nil _).symm, List.Sublist.refl _⟩
  | cons p seq ih =>
    have hdescend : ∃ fillers, (descend below gap (some p.t) v).out = v.out ++ fillers := by
      rw [descend]
      split
      · exact ⟨_, rfl⟩
      · exact ⟨[], (List.append_nil _).symm⟩
    obtain ⟨fillers, hfillers⟩ := hdescend
    have htake : (take 0 p (descend below gap (some p.t) v)).out = v.out ++ fillers ++ [p] := by
      rw [take]
      split
      · simp [hfillers]
      · simp [hfillers]
    obtain ⟨added, hadded, hsub⟩ := ih (take 0 p (descend below gap (some p.t) v))
    refine ⟨fillers ++ p :: added, ?_, ?_⟩
    · show (fillLoop below gap none 0 seq _).out = _
      rw [hadded, htake, List.append_assoc, List.append_assoc, List.singleton_append]
    · exact (hsub.cons_cons p).trans (List.sublist_append_right _ _)

end

/-- Every sample of the base is taken, in its order. -/
theorem timeline_sublist_priorityMerge (base : SampleStream) (fillers : List SampleStream)
    (gap : Int) :
    ∃ out, (priorityMergeSampleStream base fillers gap).1 = streamOf base.metric out ∧
      (timeline base).Sublist out := by
  refine ⟨_, rfl, ?_⟩
  have hskip : ∀ (l : List TimelineSample) (i : Nat), skipLoop none l i = i := by
    intro l i
    cases l <;> rfl
  simp only [fill, marginBounds, Option.map_none, hskip, FillState.cursor, List.length_cons,
    List.replicate_succ, List.getD_cons_zero, List.drop_zero]
  obtain ⟨added, hadded, hsub⟩ := @fillLoop_base
    (fill (effectiveGap gap) (fillers.map timeline) 1) (effectiveGap gap) (timeline base)
    { out := [], i := 0, subLo := none, stale := false, live := false
      st := { filled := List.replicate fillers.length 0
              cursors := 0 :: List.replicate (fillers.map timeline).length 0 } }
  rw [descend]
  split
  · exact (hsub.trans (by rw [hadded]; exact List.Sublist.refl _)).trans
      (List.sublist_append_left _ _)
  · exact hsub.trans (by rw [hadded]; exact List.Sublist.refl _)

end Promhttputil

namespace Promclient

open Lib Promhttputil

/-! ## Contested buckets -/

/-- The one that leads in the end was leading when a series of its ordinal, but not of its labels,
was read. -/
def Contested (items : List Tagged) : Prop :=
  ∃ pre y post v, items = pre ++ y :: post ∧ lead pre = some v ∧ lead items = some v ∧
    y.1 = v.1 ∧ y.2.labels ≠ v.2.labels

/-- A bucket of one more series: the last one contests the lead, or it does not take it and the
bucket was contested before. -/
theorem contested_concat {items : List Tagged} {x v : Tagged} (hv : lead items = some v) :
    Contested (items ++ [x]) ↔
      follow v x = v ∧ (Contested items ∨ x.1 = v.1 ∧ x.2.labels ≠ v.2.labels) := by
  constructor
  · rintro ⟨pre, y, post, w, heq, hpre, hw, hord, hne⟩
    rw [lead_concat, hv] at hw
    simp only [Option.some.injEq] at hw
    have hsplit : ∃ items', items = pre ++ items' := by
      rcases List.eq_nil_or_concat post with rfl | ⟨post', z, rfl⟩
      · exact ⟨[], by rw [List.append_nil]; exact (List.append_inj' heq rfl).1⟩
      · rw [List.concat_eq_append, ← List.cons_append, ← List.append_assoc] at heq
        exact ⟨_, (List.append_inj' heq rfl).1⟩
    obtain ⟨items', hitems⟩ := hsplit
    have hle : v.1 ≤ w.1 := lead_antitone hpre (hitems ▸ hv)
    -- a series that takes over is of a lower ordinal than every leader before it
    have hfollow : follow v x = v := by
      rcases follow_cases v x with ⟨heq, -⟩ | ⟨heq, -, hlt⟩
      · exact heq
      · rw [← hw, heq] at hle
        omega
    rw [hfollow] at hw
    subst hw
    refine ⟨hfollow, ?_⟩
    rcases List.eq_nil_or_concat post with rfl | ⟨post', z, rfl⟩
    · have hlast := (List.append_inj' heq rfl).2
      rw [List.cons.injEq] at hlast
      exact Or.inr (hlast.1 ▸ ⟨hord, hne⟩)
    · rw [List.concat_eq_append, ← List.cons_append, ← List.append_assoc] at heq
      exact Or.inl ⟨pre, y, post', v, (List.append_inj' heq rfl).1, hpre, hv, hord, hne⟩
  · rintro ⟨hfollow, ⟨pre, y, post, w, rfl, hpre, hw, hord, hne⟩ | ⟨hord, hne⟩⟩
    · rw [hv, Option.some.injEq] at hw
      subst hw
      refine ⟨pre, y, post ++ [x], v, by rw [List.append_assoc, List.cons_append], hpre, ?_, hord,
        hne⟩
      rw [lead_concat, hv]
      exact congrArg some hfollow
    · refine ⟨items, x, [], v, rfl, hv, ?_, hord, hne⟩
      rw [lead_concat, hv]
      exact congrArg some hfollow

/-- No series is read under two ordinals. -/
def Apart (items : List Tagged) : Prop :=
  ∀ x ∈ items, ∀ y ∈ items, x.2.labels = y.2.labels → x.1 = y.1

theorem Apart.left {items items' : List Tagged} (h : Apart (items ++ items')) : Apart items :=
  fun x hx y hy => h x (List.mem_append_left _ hx) y (List.mem_append_left _ hy)

theorem Apart.lead_lowest {items : List Tagged} (h : Apart items) {v : Tagged}
    (hv : lead items = some v) : ∀ x ∈ items, v.1 ≤ x.1 := by
  induction items using List.reverseRecOn generalizing v with
  | nil => cases hv
  | append_singleton items x ih =>
    intro y hy
    rcases lead_concat_eq_some hv with ⟨rfl, rfl⟩ | ⟨u, hu, rfl⟩
    · rw [List.mem_singleton.mp hy]
    · rcases List.mem_append.mp hy with hy | hy
      · exact (follow_le u x).trans (ih h.left hu y hy)
      · rw [List.mem_singleton.mp hy]
        rcases follow_cases u x with ⟨heq, hlbls | hle⟩ | ⟨heq, -⟩
        · rw [heq]
          exact (h u (List.mem_append_left _ (lead_mem hu)) x (by simp) hlbls).le
        · rw [heq]
          exact hle
        · rw [heq]

/-- A series of the lowest ordinal that has other labels than the one that leads contests. -/
theorem Apart.contested {items : List Tagged} (h : Apart items) {v : Tagged}
    (hv : lead items = some v) {y : Tagged} (hy : y ∈ items) (hord : y.1 = v.1)
    (hne : y.2.labels ≠ v.2.labels) : Contested items := by
  induction items using List.reverseRecOn generalizing v with
  | nil => cases hv
  | append_singleton items x ih =>
    rcases lead_concat_eq_some hv with ⟨rfl, rfl⟩ | ⟨u, hu, rfl⟩
    · exact absurd (by rw [List.mem_singleton.mp hy]) hne
    · rcases follow_cases u x with ⟨heq, -⟩ | ⟨heq, -, hlt⟩
      · rw [heq] at hord hne
        refine (contested_concat hu).mpr ⟨heq, ?_⟩
        rcases List.mem_append.mp hy with hy | hy
        · exact Or.inl (ih h.left hu hy hord hne)
        · exact Or.inr (List.mem_singleton.mp hy ▸ ⟨hord, hne⟩)
      · -- the series that takes over is below all before it
        rw [heq] at hord hne
        rcases List.mem_append.mp hy with hy | hy
        · have := h.left.lead_lowest hu y hy
          omega
        · exact absurd (by rw [List.mem_singleton.mp hy]) hne

/-- Where no series is read under two ordinals, a bucket is contested if two series of its lowest
ordinal have different labels. -/
theorem Apart.contested_iff {items : List Tagged} (h : Apart items) :
    Contested items ↔ ∃ x ∈ items, ∃ y ∈ items,
      x.1 = y.1 ∧ x.2.labels ≠ y.2.labels ∧ ∀ z ∈ items, x.1 ≤ z.1 := by
  constructor
  · rintro ⟨pre, y, post, v, heq, -, hv, hord, hne⟩
    exact ⟨v, lead_mem hv, y, heq ▸ List.mem_append_right _ List.mem_cons_self, hord.symm,
      Ne.symm hne, h.lead_lowest hv⟩
  · rintro ⟨x, hx, y, hy, hord, hne, hlowest⟩
    obtain ⟨v, hv⟩ : ∃ v, lead items = some v := by
      cases items with
      | nil => cases hx
      | cons z items => exact ⟨_, rfl⟩
    have hvx : x.1 = v.1 := le_antisymm (hlowest v (lead_mem hv)) (h.lead_lowest hv x hx)
    by_cases hlbls : x.2.labels = v.2.labels
    · exact h.contested hv hy (hord.symm.trans hvx) fun heq => hne (hlbls.trans heq.symm)
    · exact h.contested hv hx hvx hlbls

def memberAt (x : Tagged) : DedupBucketMember := ⟨x.1, x.2⟩

/-- The members of a bucket led by `v`: the leader, those of higher ordinals, and, if the bucket is
contested, others of its ordinal. -/
structure MembersSpec (items : List Tagged) (v : Tagged) (members : List DedupBucketMember) :
    Prop where
  leader : memberAt v ∈ members
  lowest : ∀ m ∈ members, v.1 ≤ m.ordinal
  others : ∀ m ∈ members, m = memberAt v ∨ v.1 < m.ordinal ∨ Contested items
  rival : Contested items → ∃ m ∈ members, m.ordinal = v.1 ∧ m.series.labels ≠ v.2.labels

theorem addSlot_members {items : List Tagged} {b : Slot} {v : Tagged} (hv : lead items = some v)
    (hleads : Leads b v) (h : MembersSpec items v b.members) (x : Tagged) :
    MembersSpec (items ++ [x]) (follow v x) (addSlot true b x).members := by
  have hcontested := contested_concat (x := x) hv
  have hmem : ∀ m, m ∈ b.members ++ memberOf true x ↔ m ∈ b.members ∨ m = memberAt x :=
    fun m => List.mem_append.trans (or_congr Iff.rfl List.mem_singleton)
  rw [addSlot, hleads.lbls, hleads.ordinal]
  rw [follow] at hcontested ⊢
  by_cases hlbls : v.2.labels = x.2.labels
  · -- a repetition is not a member
    rw [if_pos hlbls, if_pos (Or.inl hlbls)]
    rw [if_pos (Or.inl hlbls)] at hcontested
    have hiff : Contested (items ++ [x]) ↔ Contested items := by
      rw [hcontested]
      simp [hlbls]
    exact ⟨h.leader, h.lowest, fun m hm => by rw [hiff]; exact h.others m hm,
      fun hc => h.rival (hiff.mp hc)⟩
  · rw [if_neg hlbls]
    by_cases hlt : x.1 < v.1
    · -- `x` takes over, with a lower ordinal than all members
      rw [if_pos hlt, if_neg (not_or.mpr ⟨hlbls, not_le.mpr hlt⟩)]
      rw [if_neg (not_or.mpr ⟨hlbls, not_le.mpr hlt⟩)] at hcontested
      refine ⟨(hmem _).mpr (Or.inr rfl), fun m hm => ?_, fun m hm => ?_, fun hc => ?_⟩
      · rcases (hmem m).mp hm with hm | rfl
        · exact (hlt.trans_le (h.lowest m hm)).le
        · exact le_rfl
      · rcases (hmem m).mp hm with hm | rfl
        · exact Or.inr (Or.inl (hlt.trans_le (h.lowest m hm)))
        · exact Or.inl rfl
      · exact absurd (hcontested.mp hc).1 fun heq => hlbls (by rw [heq])
    · have hle : v.1 ≤ x.1 := not_lt.mp hlt
      rw [if_neg hlt, if_pos (Or.inr hle)]
      rw [if_pos (Or.inr hle)] at hcontested
      refine ⟨(hmem _).mpr (Or.inl h.leader), fun m hm => ?_, fun m hm => ?_, fun hc => ?_⟩
      · rcases (hmem m).mp hm with hm | rfl
        · exact h.lowest m hm
        · exact hle
      · rcases (hmem m).mp hm with hm | rfl
        · rcases h.others m hm with heq | hgt | hc
          · exact Or.inl heq
          · exact Or.inr (Or.inl hgt)
          · exact Or.inr (Or.inr (hcontested.mpr ⟨rfl, Or.inl hc⟩))
        · rcases hle.lt_or_eq with hgt | heq
          · exact Or.inr (Or.inl hgt)
          · exact Or.inr (Or.inr (hcontested.mpr ⟨rfl, Or.inr ⟨heq.symm, Ne.symm hlbls⟩⟩))
      · rcases (hcontested.mp hc).2 with hc | ⟨hord, hne⟩
        · obtain ⟨m, hm, hm'⟩ := h.rival hc
          exact ⟨m, (hmem m).mpr (Or.inl hm), hm'⟩
        · exact ⟨memberAt x, (hmem _).mpr (Or.inr rfl), hord, hne⟩

theorem not_contested_singleton (x : Tagged) : ¬Contested [x] := by
  rintro ⟨pre, y, post, v, heq, hpre, -⟩
  cases pre with
  | nil => cases hpre
  | cons z pre => simp at heq

theorem foldSlot_members {items : List Tagged} {b : Slot} {v : Tagged}
    (h : foldSlot (newSlot true) (addSlot true) items = some b) (hv : lead items = some v) :
    MembersSpec items v b.members := by
  induction items using List.reverseRecOn generalizing b v with
  | nil => cases h
  | append_singleton items x ih =>
    rw [foldSlot_concat, Option.some.injEq] at h
    rw [lead_concat] at hv
    cases hprev : foldSlot (newSlot true) (addSlot true) items with
    | none =>
      have hnil : items = [] := by
        cases items with
        | nil => rfl
        | cons y items => cases hprev
      subst hnil
      rw [hprev] at h
      cases hv
      subst h
      have hmem : ∀ m, m ∈ (newSlot true x).members ↔ m = memberAt x := fun m =>
        List.mem_singleton
      refine ⟨(hmem _).mpr rfl, fun m hm => ?_, fun m hm => Or.inl ((hmem m).mp hm),
        fun hc => absurd hc (not_contested_singleton x)⟩
      rw [(hmem m).mp hm]
      exact le_rfl
    | some b' =>
      rw [hprev] at h
      obtain ⟨u, hu, hleads⟩ := foldSlot_leads true hprev
      rw [hu, Option.some.injEq] at hv
      exact hv ▸ h ▸ addSlot_members hu hleads (ih hprev hu) x

/-! ## Sorting the members -/

/-- `sort.Slice` by the ordinal. -/
def SortsByOrdinal (sortSlice : List DedupBucketMember → List DedupBucketMember) : Prop :=
  ∀ members, (sortSlice members).Perm members ∧
    (sortSlice members).Pairwise fun m m' => m.ordinal ≤ m'.ordinal

/-- Any member of the lowest ordinal may come first. -/
theorem exists_sortsByOrdinal {members : List DedupBucketMember} {m : DedupBucketMember}
    (hm : m ∈ members) (hle : ∀ m' ∈ members, m.ordinal ≤ m'.ordinal) :
    ∃ sortSlice rest, SortsByOrdinal sortSlice ∧ sortSlice members = m :: rest := by
  let rest := sortBy DedupBucketMember.ordinal (members.erase m)
  refine ⟨fun l => if l = members then m :: rest else sortBy DedupBucketMember.ordinal l, rest,
    fun l => ?_, if_pos rfl⟩
  by_cases hl : l = members
  · simp only [hl]
    refine ⟨((sortBy_perm _ _).cons m).trans (List.perm_cons_erase hm).symm,
      List.pairwise_cons.mpr ⟨fun m' hm' => ?_, sortBy_pairwise _ _⟩⟩
    exact hle m' (List.mem_of_mem_erase (mem_sortBy.mp hm'))
  · simp only [if_neg hl]
    exact ⟨sortBy_perm _ _, sortBy_pairwise _ _⟩

section

variable [Prometheus]

/-- `f` is the series `s` with samples added. -/
structure Fills (s f : Series) : Prop where
  labels : f.labels = s.labels
  samples : s.samples.Subperm f.samples

theorem sampleStreamToSeries_fills (s : Series) {out : List TimelineSample} (metric : Labels)
    (h : (timeline (seriesToSampleStream s)).Sublist out) :
    Fills s (sampleStreamToSeries (streamOf metric out) s.labels) := by
  refine ⟨rfl, ?_⟩
  have hstream := streamOf_timeline (seriesToSampleStream s)
  have hvalues : (s.samples.filterMap floatPair).Sublist (streamOf metric out).values := by
    have hbase := congrArg SampleStream.values hstream
    simp only [seriesToSampleStream] at hbase h
    rw [← hbase]
    exact h.filterMap _
  have hhistograms : (s.samples.filterMap histogramPair).Sublist
      (streamOf metric out).histograms := by
    have hbase := congrArg SampleStream.histograms hstream
    simp only [seriesToSampleStream] at hbase h
    rw [← hbase]
    exact h.filterMap _
  have hperm : s.samples.Perm ((s.samples.filterMap floatPair).map floatSample ++
      (s.samples.filterMap histogramPair).map histogramSample) := by
    rw [map_floatSample, map_histogramSample]
    exact (List.filter_append_perm _ _).symm
  have hsub := (hvalues.map floatSample).append (hhistograms.map histogramSample)
  exact hperm.subperm.trans (hsub.subperm.trans (sortBy_perm _ _).symm.subperm)

/-- The members sorted, the first one is filled. -/
theorem fillBucketGapsBy_fills {sortSlice : List DedupBucketMember → List DedupBucketMember}
    {members rest : List DedupBucketMember} {m : DedupBucketMember}
    (h : sortSlice members = m :: rest) (gap : Int) :
    Fills m.series (fillBucketGapsBy sortSlice members gap) := by
  rw [fillBucketGapsBy, h]
  obtain ⟨out, hout, hsub⟩ := timeline_sublist_priorityMerge (seriesToSampleStream m.series)
    (rest.map fun m => seriesToSampleStream m.series)
    (gapThreshold gap (seriesToSampleStream m.series)
      (rest.map fun m => seriesToSampleStream m.series).head?)
  simp only []
  rw [hout]
  exact sampleStreamToSeries_fills m.series _ hsub

/-- The bucket of a slot fills its leader, whatever the sort does, exactly if it is not
contested. -/
theorem settledBy_fills_iff {items : List Tagged} {b : Slot}
    (h : foldSlot (newSlot true) (addSlot true) items = some b) (gap : Int) :
    (∀ sortSlice, SortsByOrdinal sortSlice →
        Fills b.series (settledBy sortSlice ⟨true, gap⟩ b)) ↔
      ¬Contested items := by
  obtain ⟨v, hv, hleads⟩ := foldSlot_leads true h
  have hspec := foldSlot_members h hv
  constructor
  · intro hall hc
    obtain ⟨m, hm, hord, hne⟩ := hspec.rival hc
    obtain ⟨sortSlice, rest, hsorts, hfirst⟩ := exists_sortsByOrdinal hm fun m' hm' =>
      hord ▸ hspec.lowest m' hm'
    have hfills := (hall sortSlice hsorts).labels
    have htwo : 1 < b.members.length := by
      have hdiff : memberAt v ≠ m := fun heq => hne (heq ▸ rfl)
      by_contra hlen
      obtain ⟨m', hm'⟩ : ∃ m', b.members = [m'] := List.length_eq_one_iff.mp
        (le_antisymm (not_lt.mp hlen) (List.length_pos_of_mem hm))
      have hleader := hspec.leader
      rw [hm', List.mem_singleton] at hm hleader
      exact hdiff (hleader.trans hm.symm)
    rw [settledBy, if_pos (by simpa using htwo), (fillBucketGapsBy_fills hfirst gap).labels,
      hleads.series] at hfills
    exact hne hfills
  · intro hc sortSlice hsorts
    rw [settledBy]
    split
    · obtain ⟨hperm, hpairwise⟩ := hsorts b.members
      cases hsort : sortSlice b.members with
      | nil =>
        rw [hsort] at hperm
        rw [hperm.symm.eq_nil] at hspec
        cases hspec.leader
      | cons m rest =>
        rw [hsort] at hperm hpairwise
        have hm : m ∈ b.members := hperm.mem_iff.mp List.mem_cons_self
        have hle : m.ordinal ≤ v.1 := by
          rcases List.mem_cons.mp (hperm.mem_iff.mpr hspec.leader) with heq | hrest
          · exact (congrArg DedupBucketMember.ordinal heq).ge
          · exact (List.pairwise_cons.mp hpairwise).1 _ hrest
        -- of the members of the lowest ordinal, the leader is the only one
        have heq : m = memberAt v := by
          rcases hspec.others m hm with heq | hgt | hc'
          · exact heq
          · omega
          · exact absurd hc' hc
        have hfills := fillBucketGapsBy_fills hsort gap
        rw [heq] at hfills
        rw [hleads.series]
        exact hfills
    · exact ⟨rfl, List.Subperm.refl _⟩

variable {Key : Type*} [DecidableEq Key] {bytesWithoutLabels : Labels → List String → Key}

/-- **Filling keeps the winners.** For every list of sets: with every sort of the members, the
series emitted with filled gaps are, one by one, the ones emitted without, with samples added,
exactly if there is a single set, or one that ends in an error, or no bucket is contested. -/
theorem dedupSeriesSetsFillGapsBy_fills_iff (sets : List OrdinalSeriesSet) (ignore : List String)
    (gap : Int) (stats : DedupStats) :
    (∀ sortSlice, SortsByOrdinal sortSlice →
        List.Forall₂ Fills
          (dedupSeriesSetsFillGapsBy sortSlice bytesWithoutLabels sets ignore ⟨false, gap⟩
            stats).1.series
          (dedupSeriesSetsFillGapsBy sortSlice bytesWithoutLabels sets ignore ⟨true, gap⟩
            stats).1.series) ↔
      sets.length = 1 ∨ (∃ set ∈ sets, set.ss.err ≠ none) ∨
        ∀ k, ¬Contested ((tagged sets).filter fun x => bytesWithoutLabels x.2.labels ignore = k) := by
  by_cases hlen : sets.length = 1
  · obtain ⟨set, rfl⟩ := List.length_eq_one_iff.mp hlen
    exact iff_of_true (fun _ _ => List.forall₂_same.mpr fun s _ => ⟨rfl, List.Subperm.refl _⟩)
      (Or.inl rfl)
  by_cases herr : ∃ set ∈ sets, set.ss.err ≠ none
  · refine iff_of_true (fun sortSlice _ => ?_) (Or.inr (Or.inl herr))
    obtain ⟨set, hset, hne⟩ := herr
    have hnil : ∀ opts, (dedupSeriesSetsFillGapsBy sortSlice bytesWithoutLabels sets ignore opts
        stats).1.series = [] := by
      intro opts
      obtain ⟨err, h⟩ : ∃ err, dedupSeriesSetsFillGapsBy sortSlice bytesWithoutLabels sets ignore
          opts stats = (⟨[], ∅, some err⟩, stats) := dedupSeriesSetsFillGapsBy_of_err hlen hset hne
      rw [h]
    rw [hnil, hnil]
    exact List.Forall₂.nil
  rw [or_iff_right hlen, or_iff_right herr]
  push Not at herr
  -- slot by slot
  have hslots : ∀ sortSlice, List.Forall₂ Fills
      (dedupSeriesSetsFillGapsBy sortSlice bytesWithoutLabels sets ignore ⟨false, gap⟩
        stats).1.series
      (dedupSeriesSetsFillGapsBy sortSlice bytesWithoutLabels sets ignore ⟨true, gap⟩
        stats).1.series ↔
      ∀ p ∈ slots bytesWithoutLabels ignore true sets,
        Fills p.2.series (settledBy sortSlice ⟨true, gap⟩ p.2) := by
    intro sortSlice
    rw [dedupSeriesSetsFillGapsBy_eq hlen herr, dedupSeriesSetsFillGapsBy_eq hlen herr]
    show List.Forall₂ Fills ((slots bytesWithoutLabels ignore false sets).map fun p => p.2.series)
      _ ↔ _
    rw [map_series_slots, List.forall₂_map_left_iff, List.forall₂_map_right_iff, List.forall₂_same]
  simp only [hslots]
  constructor
  · intro hall k hc
    have hk : k ∈ (slots bytesWithoutLabels ignore true sets).map Prod.fst := by
      obtain ⟨pre, y, post, v, heq, -⟩ := id hc
      have hy : y ∈ (tagged sets).filter fun x => bytesWithoutLabels x.2.labels ignore = k :=
        heq ▸ List.mem_append_right _ List.mem_cons_self
      rw [List.mem_filter, decide_eq_true_eq] at hy
      exact mem_keys_group.mpr ⟨y, hy⟩
    obtain ⟨⟨_, b⟩, hb, rfl⟩ := List.mem_map.mp hk
    exact (settledBy_fills_iff (mem_group.mp hb) gap).mp
      (fun sortSlice hsorts => hall sortSlice hsorts _ hb) hc
  · rintro hall sortSlice hsorts ⟨k, b⟩ hb
    exact (settledBy_fills_iff (mem_group.mp hb) gap).mpr (hall k) sortSlice hsorts

end

/-- A sort that reverses the members of one ordinal. -/
def sortBackwards (members : List DedupBucketMember) : List DedupBucketMember :=
  sortBy DedupBucketMember.ordinal members.reverse

theorem sortsByOrdinal_sortBackwards : SortsByOrdinal sortBackwards := fun members =>
  ⟨(sortBy_perm _ _).trans members.reverse_perm, sortBy_pairwise _ _⟩

/-- The group `0` with the one metric twice under an ignored label, and a group without. -/
def twoOfOneGroup : List OrdinalSeriesSet :=
  [⟨0, ⟨[⟨(Labels.empty.set "job" "a").set "dc" "eu", []⟩,
      ⟨(Labels.empty.set "job" "a").set "dc" "us", []⟩], ∅, none⟩⟩,
    ⟨1, ⟨[], ∅, none⟩⟩]

/-- With gaps filled, the second of the two is emitted. -/
theorem dedupSeriesSetsFillGapsBy_other_winner :
    SortsByOrdinal sortBackwards ∧
      ∃ off on,
        (@dedupSeriesSetsFillGapsBy prometheusWithoutBuckets sortBackwards _ _
          (fun l names => (l.del names).pairs) twoOfOneGroup ["dc"] ⟨false, 0⟩
          DedupStats.empty).1.series = [off] ∧
        (@dedupSeriesSetsFillGapsBy prometheusWithoutBuckets sortBackwards _ _
          (fun l names => (l.del names).pairs) twoOfOneGroup ["dc"] ⟨true, 0⟩
          DedupStats.empty).1.series = [on] ∧
        off.labels.get "dc" = "eu" ∧ on.labels.get "dc" = "us" := by
  refine ⟨sortsByOrdinal_sortBackwards, _, _, rfl, rfl, ?_, ?_⟩
  · decide
  · decide

end Promclient

end Proxeus
