import Proxeus.Promhttputil.GapFillSpec

/-!
# Promhttputil.GapFillPriority

What a stream of lower priority can do to the others: nothing. A filler at the end of the list only
adds its own samples (`referenceFill_concat`), and never at a time at which a stream before it has a
sample (`referenceFill_fresh`), so a copy of a stream adds nothing. A stale marker of a filler ends
a piece of that filler that was taken (`referenceFill_announced`).
-/

namespace Proxeus
namespace Promhttputil

open Lib

/-! ## One more filler -/

section Concat

variable {gap : Int} {hi : Option Int} {lvl last : Nat}
  {below below' : Option Int → Option Int → List Taken}

/-- A level above `last` emits the same, whether or not level `last` is there. -/
theorem referenceLoop_concat (hlvl : lvl ≠ last)
    (hbelow : ∀ s u, (below' s u).filter (fun x => x.1 ≠ last) = below s u)
    (l : List TimelineSample) (subLo : Option Int) (stale live : Bool) :
    (referenceLoop below' gap hi lvl l subLo stale live).filter (fun x => x.1 ≠ last) =
      referenceLoop below gap hi lvl l subLo stale live := by
  have hdeep : ∀ (b : Bool) s u, (if b then below' s u else []).filter (fun x => x.1 ≠ last) =
      if b then below s u else [] := by
    intro b s u
    cases b with
    | false => rfl
    | true => exact hbelow s u
  have hown : ∀ live p, (emits lvl live p).filter (fun x => x.1 ≠ last) = emits lvl live p := by
    intro live p
    rw [List.filter_eq_self]
    intro x hx
    rw [mem_emits hx]
    simpa using hlvl
  induction l generalizing subLo stale live with
  | nil =>
    simp only [referenceLoop]
    exact hdeep _ _ _
  | cons p l ih =>
    simp only [referenceLoop, List.filter_append, hdeep, hown, ih]

end Concat

theorem referenceFill_concat {gap : Int} {seqs : List (List TimelineSample)}
    (g : List TimelineSample) (lvl : Nat) (lo hi : Option Int) :
    (referenceFill gap (seqs ++ [g]) lvl lo hi).filter (fun x => x.1 ≠ lvl + seqs.length) =
      referenceFill gap seqs lvl lo hi := by
  induction seqs generalizing lvl lo hi with
  | nil =>
    refine List.filter_eq_nil_iff.mpr fun x hx => ?_
    rcases mem_referenceLoop hx with ⟨hl, -⟩ | ⟨s, u, hsu, -⟩
    · simp [hl]
    · cases hsu
  | cons seq seqs ih =>
    refine referenceLoop_concat (by simp) (fun s u => ?_) _ _ _ _
    have h := ih (lvl + 1) s u
    rwa [show lvl + 1 + seqs.length = lvl + (seq :: seqs).length by simp; omega] at h

/-! ## Samples nobody else has -/

/-- What is taken for the gaps between the samples of a level is at none of their times. -/
theorem referenceLoop_fresh {gap : Int} (hgap : 0 < gap) {hi : Option Int} {lvl : Nat}
    {below : Option Int → Option Int → List Taken}
    (hpair : ∀ s u, (below s u).Pairwise (Apart (gap / 4)))
    (hwin : ∀ s u, ∀ x ∈ below s u, inWindow gap s u x.2 = true) {l : List TimelineSample}
    (hl : Ascending TimelineSample.t l) {subLo : Option Int} {stale live : Bool}
    (hlo : ∀ s, subLo = some s → ∀ p ∈ l, s < p.t) {x : Taken} (hlvl : x.1 ≠ lvl)
    (hx : x ∈ referenceLoop below gap hi lvl l subLo stale live) : ∀ p ∈ l, p.t ≠ x.2.t := by
  induction l generalizing subLo stale live with
  | nil => intro p hp; cases hp
  | cons q l ih =>
    rw [ascending_cons] at hl
    have hnext : ∀ s, some q.t = some s → ∀ p ∈ l, s < p.t := by
      intro s hs p hp
      cases hs
      exact hl.1 p hp
    simp only [referenceLoop, List.mem_append] at hx
    intro p hp
    rcases hx with (hx | hx) | hx
    · -- before `q`
      split at hx
      · have hw := hwin _ _ x hx
        simp only [inWindow, beforeHi, Option.any_some, Bool.and_eq_true, Bool.not_eq_true',
          decide_eq_false_iff_not] at hw
        rcases List.mem_cons.mp hp with rfl | hp
        · omega
        · have := hl.1 p hp
          omega
      · cases hx
    · rw [mem_emits hx] at hlvl
      exact absurd rfl hlvl
    · -- after `q`
      rcases List.mem_cons.mp hp with rfl | hp
      · have hbeyond := (referenceLoop_apart hgap hpair hwin hl.2 hnext).2 x hx p.t rfl
        omega
      · exact ih hl.2 hnext hx p hp

/-- A sample is taken from a stream only at a time at which no stream before it has one. -/
theorem referenceFill_fresh {gap : Int} (hgap : 0 < gap) {seqs : List (List TimelineSample)}
    (hasc : ∀ s ∈ seqs, Ascending TimelineSample.t s) {lvl : Nat} {lo hi : Option Int} {x : Taken}
    (hx : x ∈ referenceFill gap seqs lvl lo hi) {k : Nat} (hk : lvl + k < x.1)
    {seq : List TimelineSample} (hseq : seqs[k]? = some seq) : ∀ p ∈ seq, p.t ≠ x.2.t := by
  induction seqs generalizing lvl lo hi k with
  | nil => cases hx
  | cons seq' seqs ih =>
    have hascs : ∀ s ∈ seqs, Ascending TimelineSample.t s :=
      fun s hs => hasc s (List.mem_cons_of_mem _ hs)
    cases k with
    | zero =>
      cases hseq
      intro p hp
      by_cases hw : inWindow gap lo hi p = true
      · refine referenceLoop_fresh hgap (fun s u => referenceFill_apart hgap hascs)
          (fun s u y hy => referenceFill_inWindow hgap hy)
          ((hasc seq List.mem_cons_self).filter _) ?_ (by omega) hx p (List.mem_filter.mpr ⟨hp, hw⟩)
        intro s hs q hq
        have hlo := (List.mem_filter.mp hq).2
        subst hs
        simp only [inWindow, afterLo, Option.any_some, Bool.and_eq_true, Bool.not_eq_true',
          decide_eq_false_iff_not] at hlo
        omega
      · -- what is taken lies in the window
        have hxw := referenceFill_inWindow hgap hx
        intro ht
        refine hw ?_
        unfold inWindow afterLo beforeHi at hxw ⊢
        rwa [ht]
    | succ k =>
      rcases mem_referenceLoop hx with ⟨hl, -⟩ | ⟨s, u, hsu, -⟩
      · omega
      · exact ih hascs hsu (by omega) hseq

/-! ## Stale markers of a filler -/

/-- `out` ends with a live sample of level `lvl` and, after it, only samples of deeper levels. -/
def Led (lvl : Nat) (out : List Taken) : Prop :=
  ∃ before s between, out = before ++ (lvl, s) :: between ∧ s.stale = false ∧
    ∀ y ∈ between, lvl < y.1

/-- Every stale marker of a filler in `out`, when it is emitted after `ctx`, ends a piece of that
filler. -/
def Announced (ctx out : List Taken) : Prop :=
  ∀ before x after, out = before ++ x :: after → x.1 ≠ 0 → x.2.stale = true →
    Led x.1 (ctx ++ before)

theorem Led.append {lvl : Nat} {out deeper : List Taken} (h : Led lvl out)
    (hdeeper : ∀ y ∈ deeper, lvl < y.1) : Led lvl (out ++ deeper) := by
  obtain ⟨before, s, between, rfl, hs, hbetween⟩ := h
  refine ⟨before, s, between ++ deeper, by simp, hs, ?_⟩
  intro y hy
  rcases List.mem_append.mp hy with hy | hy
  · exact hbetween y hy
  · exact hdeeper y hy

theorem Led.prepend {lvl : Nat} {out : List Taken} (h : Led lvl out) (ctx : List Taken) :
    Led lvl (ctx ++ out) := by
  obtain ⟨before, s, between, rfl, hs, hbetween⟩ := h
  exact ⟨ctx ++ before, s, between, by simp, hs, hbetween⟩

theorem Announced.nil (ctx : List Taken) : Announced ctx [] := by
  intro before x after h
  simp at h

theorem Announced.prepend {out : List Taken} (h : Announced [] out) (ctx : List Taken) :
    Announced ctx out := by
  intro before x after hout h0 hs
  exact (h before x after hout h0 hs).prepend ctx

theorem Announced.append {ctx out out' : List Taken} (h : Announced ctx out)
    (h' : Announced (ctx ++ out) out') : Announced ctx (out ++ out') := by
  intro before x after hout h0 hs
  rw [List.append_eq_append_iff] at hout
  rcases hout with ⟨rest, rfl, hout⟩ | ⟨rest, hout, hrest⟩
  · rw [← List.append_assoc]
    exact h' rest x after hout h0 hs
  · cases rest with
    | nil =>
      rw [List.append_nil] at hout
      have := h' [] x after hrest.symm h0 hs
      rwa [List.append_nil, hout] at this
    | cons y rest =>
      obtain ⟨rfl, -⟩ := List.cons.inj hrest
      exact h before x rest hout h0 hs

theorem announced_emits {ctx : List Taken} {lvl : Nat} {live : Bool} {p : TimelineSample}
    (hlive : live = true → lvl ≠ 0 → Led lvl ctx) : Announced ctx (emits lvl live p) := by
  unfold emits
  split
  · exact Announced.nil ctx
  · rename_i hemit
    intro before x after hout h0 hs
    cases before with
    | nil =>
      obtain ⟨rfl, -⟩ := List.cons.inj hout
      rw [List.append_nil]
      refine hlive ?_ h0
      cases live with
      | true => rfl
      | false =>
        have hlvl : lvl ≠ 0 := h0
        exact absurd (by simp [show p.stale = true from hs, hlvl]) hemit
    | cons y before => simp at hout

/-- The flag `live` says that a marker of the level would end a piece of it. -/
theorem referenceLoop_announced {gap : Int} {hi : Option Int} {lvl : Nat}
    {below : Option Int → Option Int → List Taken}
    (hdeeper : ∀ s u, ∀ x ∈ below s u, lvl < x.1) (hbelow : ∀ s u, Announced [] (below s u))
    (l : List TimelineSample) (subLo : Option Int) (stale live : Bool) (ctx : List Taken)
    (hlive : live = true → lvl ≠ 0 → Led lvl ctx) :
    Announced ctx (referenceLoop below gap hi lvl l subLo stale live) := by
  have hdeep : ∀ (b : Bool) s u ctx, Announced ctx (if b then below s u else []) := by
    intro b s u ctx
    cases b with
    | false => exact Announced.nil ctx
    | true => exact (hbelow s u).prepend ctx
  induction l generalizing subLo stale live ctx with
  | nil =>
    simp only [referenceLoop]
    exact hdeep _ _ _ ctx
  | cons p l ih =>
    simp only [referenceLoop]
    have hctx : live = true → lvl ≠ 0 →
        Led lvl (ctx ++ if needsFill stale subLo (some p.t) gap then below subLo (some p.t)
          else []) := by
      intro hl h0
      refine (hlive hl h0).append fun y hy => ?_
      split at hy
      · exact hdeeper _ _ y hy
      · cases hy
    refine ((hdeep _ _ _ ctx).append (announced_emits hctx)).append (ih _ _ _ _ ?_)
    intro hl _
    have hs : p.stale = false := by simpa using hl
    have hemits : emits lvl live p = [(lvl, p)] := by simp [emits, hs]
    rw [hemits, ← List.append_assoc]
    exact ⟨_, p, [], rfl, hs, by simp⟩

theorem referenceFill_announced {gap : Int} {seqs : List (List TimelineSample)} (lvl : Nat)
    (lo hi : Option Int) : Announced [] (referenceFill gap seqs lvl lo hi) := by
  induction seqs generalizing lvl lo hi with
  | nil => exact Announced.nil []
  | cons seq seqs ih =>
    refine referenceLoop_announced (fun s u x hx => ?_) (fun s u => ih (lvl + 1) s u) _ _ _ _ _ ?_
    · have := (referenceFill_source hx).1
      omega
    · intro h
      cases h

/-! ## The merge -/

section Merge

variable {base : SampleStream} {fillers : List SampleStream} {gap : Int}

theorem referenceTaken_source {x : Taken} (hx : x ∈ referenceTaken base fillers gap) :
    ∃ s, (base :: fillers)[x.1]? = some s ∧ x.2 ∈ timeline s := by
  obtain ⟨-, seq, hget, hmem⟩ := referenceFill_source hx
  rw [Nat.sub_zero, ← List.map_cons, List.getElem?_map] at hget
  obtain ⟨s, hs, rfl⟩ := Option.map_eq_some_iff.mp hget
  exact ⟨s, hs, hmem⟩

theorem referenceTaken_concat (g : SampleStream) :
    (referenceTaken base (fillers ++ [g]) gap).filter (fun x => x.1 ≠ fillers.length + 1) =
      referenceTaken base fillers gap := by
  have h : (referenceFill (effectiveGap gap)
      ((timeline base :: fillers.map timeline) ++ [timeline g]) 0 none none).filter
        (fun x => x.1 ≠ 0 + (timeline base :: fillers.map timeline).length) =
      referenceTaken base fillers gap := referenceFill_concat (timeline g) 0 none none
  simpa [referenceTaken, List.map_append] using h

theorem filledBy_filter {taken : List Taken} {i last : Nat} (hi : i + 1 ≠ last) :
    filledBy (taken.filter fun x => x.1 ≠ last) i = filledBy taken i := by
  unfold filledBy
  rw [List.countP_filter]
  refine List.countP_congr fun x _ => ?_
  by_cases hx : x.1 = i + 1
  · simp [hx, hi]
  · simp [hx]

/-- A copy of a stream of higher priority has nothing to add. -/
theorem referenceTaken_copy (hbase : Ascending TimelineSample.t (timeline base))
    (hfillers : ∀ f ∈ fillers, Ascending TimelineSample.t (timeline f)) {g : SampleStream}
    (hcopy : ∃ s ∈ base :: fillers, timeline s = timeline g) :
    ∀ x ∈ referenceTaken base (fillers ++ [g]) gap, x.1 ≠ fillers.length + 1 := by
  obtain ⟨s, hs, hsg⟩ := hcopy
  obtain ⟨k, hk, hget⟩ := List.mem_iff_getElem.mp hs
  rw [List.length_cons] at hk
  have hstream : (base :: (fillers ++ [g]))[k]? = some s := by
    rw [← List.cons_append, List.getElem?_append_left (by simpa using hk),
      List.getElem?_eq_getElem (by simpa using hk), hget]
  have hseq : (timeline base :: (fillers ++ [g]).map timeline)[k]? = some (timeline s) := by
    rw [← List.map_cons, List.getElem?_map, hstream]
    rfl
  have hasc : ∀ q ∈ timeline base :: (fillers ++ [g]).map timeline,
      Ascending TimelineSample.t q := by
    refine seqs_ascending hbase fun f hf => ?_
    rcases List.mem_append.mp hf with hf | hf
    · exact hfillers f hf
    · rw [List.mem_singleton.mp hf, ← hsg]
      rcases List.mem_cons.mp hs with rfl | hs
      · exact hbase
      · exact hfillers s hs
  intro x hx hlast
  obtain ⟨t, ht, hmem⟩ := referenceTaken_source hx
  have htg : t = g := by
    rw [hlast, ← List.cons_append, List.getElem?_append_right (by simp)] at ht
    simpa using ht.symm
  subst htg
  exact referenceFill_fresh (effectiveGap_pos gap) hasc hx (by omega) hseq x.2 (hsg ▸ hmem) rfl

/-- **A filler at the end of the list changes nothing of what the streams before it give.** Without
its samples the merge is the merge without it, with the same counts for the others; and if it is a
copy of one of them, it has no sample in the merge. -/
theorem priorityMergeSampleStream_last_filler (base : SampleStream) (fillers : List SampleStream)
    (g : SampleStream) (gap : Int) (hbase : Ascending TimelineSample.t (timeline base))
    (hfillers : ∀ f ∈ fillers, Ascending TimelineSample.t (timeline f))
    (hg : Ascending TimelineSample.t (timeline g)) :
    let taken := referenceTaken base (fillers ++ [g]) gap
    let merged := priorityMergeSampleStream base (fillers ++ [g]) gap
    let without := priorityMergeSampleStream base fillers gap
    merged.1 = streamOf base.metric (taken.map Prod.snd) ∧
      timeline merged.1 = taken.map Prod.snd ∧
      (∀ x ∈ taken, ∃ s, (base :: (fillers ++ [g]))[x.1]? = some s ∧ x.2 ∈ timeline s) ∧
      without.1 = streamOf base.metric
        ((taken.filter fun x => x.1 ≠ fillers.length + 1).map Prod.snd) ∧
      merged.2.filled = without.2.filled ++ [filledBy taken fillers.length] ∧
      ((∃ s ∈ base :: fillers, timeline s = timeline g) →
        merged.1 = without.1 ∧ merged.2.filled = without.2.filled ++ [0]) := by
  intro taken merged without
  have hall : ∀ f ∈ fillers ++ [g], Ascending TimelineSample.t (timeline f) := by
    intro f hf
    rcases List.mem_append.mp hf with hf | hf
    · exact hfillers f hf
    · rw [List.mem_singleton.mp hf]
      exact hg
  have hmerged : merged = referencePriorityMerge base (fillers ++ [g]) gap :=
    priorityMergeSampleStream_eq_reference base (fillers ++ [g]) gap hbase hall
  have hwithout : without = referencePriorityMerge base fillers gap :=
    priorityMergeSampleStream_eq_reference base fillers gap hbase hfillers
  have hconcat : taken.filter (fun x => x.1 ≠ fillers.length + 1) =
      referenceTaken base fillers gap := referenceTaken_concat g
  have hfirst : merged.1 = streamOf base.metric (taken.map Prod.snd) := by
    rw [hmerged]
    rfl
  have hsecond : without.1 = streamOf base.metric
      ((taken.filter fun x => x.1 ≠ fillers.length + 1).map Prod.snd) := by
    rw [hwithout, hconcat]
    rfl
  have hfilled : merged.2.filled = without.2.filled ++ [filledBy taken fillers.length] := by
    rw [hmerged, hwithout]
    simp only [referencePriorityMerge, List.length_append, List.length_singleton,
      List.range_succ, List.map_append, List.map_singleton]
    congr 1
    refine List.map_congr_left fun i hi => ?_
    have hlt := List.mem_range.mp hi
    rw [← hconcat, filledBy_filter (by omega)]
  refine ⟨hfirst, timeline_priorityMerge hbase hall, fun x hx => referenceTaken_source hx, hsecond,
    hfilled, fun hcopy => ?_⟩
  have hnone : ∀ x ∈ taken, x.1 ≠ fillers.length + 1 := referenceTaken_copy hbase hfillers hcopy
  have hself : taken.filter (fun x => x.1 ≠ fillers.length + 1) = taken := by
    rw [List.filter_eq_self]
    intro x hx
    simpa using hnone x hx
  have hcount : filledBy taken fillers.length = 0 := by
    unfold filledBy
    rw [List.countP_eq_zero]
    intro x hx
    simp [hnone x hx]
  exact ⟨by rw [hfirst, hsecond, hself], by rw [hfilled, hcount]⟩

/-- A second filler that is a copy of the first. -/
theorem priorityMergeSampleStream_last_filler_copy :
    let base : SampleStream := ⟨.empty, [⟨0, ⟨1⟩⟩, ⟨100, ⟨1⟩⟩], []⟩
    let filler : SampleStream := ⟨.empty, [⟨5, ⟨2⟩⟩, ⟨50, ⟨2⟩⟩], []⟩
    (priorityMergeSampleStream base [filler, filler] 40).1 =
      (priorityMergeSampleStream base [filler] 40).1 := by
  intro base filler
  have h := priorityMergeSampleStream_last_filler base [filler] filler 40 (by decide) (by decide)
    (by decide)
  exact (h.2.2.2.2.2 ⟨filler, by simp, rfl⟩).1

/-- **Which stale markers a merge keeps.** All of the base; of a filler those that follow a live
sample of it with nothing but samples of later fillers in between. Each is a marker of the stream it
was taken from, and the counters count the live samples. -/
theorem priorityMergeSampleStream_markers (base : SampleStream) (fillers : List SampleStream)
    (gap : Int) (hbase : Ascending TimelineSample.t (timeline base))
    (hfillers : ∀ f ∈ fillers, Ascending TimelineSample.t (timeline f)) :
    let taken := referenceTaken base fillers gap
    let merged := priorityMergeSampleStream base fillers gap
    timeline merged.1 = taken.map Prod.snd ∧
      (∀ m ∈ timeline base, m.stale = true → (0, m) ∈ taken) ∧
      (∀ before i m after, taken = before ++ (i + 1, m) :: after → m.stale = true →
        ∃ before' s between, before = before' ++ (i + 1, s) :: between ∧ s.stale = false ∧
          ∀ y ∈ between, i + 1 < y.1) ∧
      (∀ x ∈ taken, ∃ s, (base :: fillers)[x.1]? = some s ∧ x.2 ∈ timeline s) ∧
      merged.2.filled = (List.range fillers.length).map fun i =>
        taken.countP fun x => x.1 = i + 1 && !x.2.stale := by
  intro taken merged
  refine ⟨timeline_priorityMerge hbase hfillers, ?_, ?_, fun x hx => referenceTaken_source hx, ?_⟩
  · intro m hm _
    have hmem : (0, m) ∈ taken.filter fun x => x.1 = 0 := by
      rw [referenceTaken_base]
      exact List.mem_map_of_mem hm
    exact (List.mem_filter.mp hmem).1
  · intro before i m after htaken hs
    have h := referenceFill_announced 0 none none before (i + 1, m) after htaken (by simp) hs
    rwa [List.nil_append] at h
  · have hmerged : merged = referencePriorityMerge base fillers gap :=
      priorityMergeSampleStream_eq_reference base fillers gap hbase hfillers
    rw [hmerged]
    rfl

/-- A filler that goes stale inside a gap: its marker is kept with the sample before it. -/
theorem priorityMergeSampleStream_markers_filler :
    let base : SampleStream := ⟨.empty, [⟨0, ⟨1⟩⟩, ⟨100, ⟨1⟩⟩], []⟩
    let filler : SampleStream := ⟨.empty, [⟨40, ⟨2⟩⟩, ⟨50, .staleNaN⟩, ⟨60, .staleNaN⟩], []⟩
    referenceTaken base [filler] 40 =
        [(0, ⟨0, .float ⟨1⟩⟩), (1, ⟨40, .float ⟨2⟩⟩), (1, ⟨50, .float .staleNaN⟩),
          (0, ⟨100, .float ⟨1⟩⟩)] ∧
      (priorityMergeSampleStream base [filler] 40).2.filled = [1] := by
  intro base filler
  have h := priorityMergeSampleStream_markers base [filler] 40 (by decide) (by decide)
  exact ⟨by decide, h.2.2.2.2⟩

end Merge

end Promhttputil
end Proxeus
