import Proxeus.Promclient.MultiAPISpec

/-!
# Promclient.FanOut

The calls of `MultiAPI` that return no series: `LabelValues`, `LabelNames`, `Series` and `Metadata`. Each
merges the successful answers of a `scatterGather`.

`MultiAPI.call_complete`: whatever the order in which the backends answer, a call fails exactly if the
answers are not enough, and otherwise merges the successful ones by ordinal, with the warnings of all
answers and, with partial responses, one for every backend that failed.
-/

namespace Proxeus
namespace Promclient

open Lib

/-! ## Calls -/

/-- What a call returns. -/
structure Called (T : Type*) where
  value : Except BackendError T
  warnings : Finset String

namespace Called

variable {T U : Type*}

/-- The return after a `scatterGather`. -/
def ofGathered (merge : List (Gathered T) → U)
    (gathered : List (Gathered T) × Finset String × Option BackendError) : Called U where
  value :=
    match gathered.2.2 with
    | some err => .error err
    | none => .ok (merge gathered.1)
  warnings := gathered.2.1

def ok (c : Called T) : Bool :=
  match c.value with
  | .ok _ => true
  | .error _ => false

/-- The message of the goroutine that has made the call. -/
def rawResult (c : Called T) (ordinal : Nat) : RawResult T := ⟨c.value, c.warnings, ordinal⟩

end Called

section

variable {T U : Type*} (m : MultiAPI)

def MultiAPI.call (apiName : String) (merge : List (Gathered T) → U) (events : List (Event T)) :
    Option (Called U) :=
  (scatterGather m apiName events).map (Called.ofGathered merge)

/-- The keys of the map `seen`, sorted. -/
def sortedUnion (results : List (Gathered (List String))) : List String :=
  sortBy (fun v => v) (results.flatMap Gathered.value).dedup

def MultiAPI.labelValues (events : List (Event (List String))) : Option (Called (List String)) :=
  m.call "label_values" sortedUnion events

def MultiAPI.labelNames (events : List (Event (List String))) : Option (Called (List String)) :=
  m.call "label_names" sortedUnion events

/-- The loop over `b` of `MergeLabelSets`, with the fingerprints `added`. -/
def mergeLabelSetsLoop (fingerprint : LabelSet → Fingerprint) (added : List Fingerprint)
    (a : List LabelSet) : List LabelSet → List LabelSet
  | [] => a
  | item :: b =>
    if added.contains (fingerprint item) then mergeLabelSetsLoop fingerprint added a b
    else mergeLabelSetsLoop fingerprint (fingerprint item :: added) (a ++ [item]) b

def mergeLabelSets (fingerprint : LabelSet → Fingerprint) (a b : List LabelSet) : List LabelSet :=
  mergeLabelSetsLoop fingerprint (a.map fingerprint) a b

/-- The default of `mergeSeriesFn`, `none` being the nil slice. -/
def mergeSeriesFn (fingerprint : LabelSet → Fingerprint)
    (results : List (Gathered (Option (List LabelSet)))) : Option (List LabelSet) :=
  results.foldl
    (fun merged r =>
      match merged with
      | none => r.value
      | some sets => some (mergeLabelSets fingerprint sets (r.value.getD [])))
    none

def MultiAPI.series (fingerprint : LabelSet → Fingerprint)
    (events : List (Event (Option (List LabelSet)))) : Option (Called (Option (List LabelSet))) :=
  m.call "series" (mergeSeriesFn fingerprint) events

/-- The loop of `Metadata`, a map of which `none` is the nil map: the first writer of a name wins. -/
def mergeMetadata {M : Type*} (results : List (Gathered (Option (List (String × M))))) :
    Option (List (String × M)) :=
  results.foldl
    (fun result r =>
      match result with
      | none => r.value
      | some md => some (md ++ (r.value.getD []).filter fun p => p.1 ∉ md.map Prod.fst))
    none

/-- `Metadata`, which has no warnings. -/
def MultiAPI.metadata {M : Type*} (events : List (Event (Option (List (String × M))))) :
    Option (Called (Option (List (String × M)))) :=
  (m.call "metadata" mergeMetadata events).map fun c => { c with warnings := ∅ }

end

/-! ## Warnings -/

section

variable {T : Type*} (m : MultiAPI)

/-- The warnings that an answer leaves. -/
def answerWarnings (ret : RawResult T) : Finset String :=
  match ret.value with
  | .error err =>
    if m.partialResponse then insert (partialResponseErr ret.ordinal err) ret.warnings else ret.warnings
  | .ok _ => ret.warnings

def warned (answers : List (RawResult T)) : Finset String :=
  answers.foldr (fun ret w => answerWarnings m ret ∪ w) ∅

variable {m}

theorem mem_warned {answers : List (RawResult T)} {text : String} :
    text ∈ warned m answers ↔ ∃ ret ∈ answers, text ∈ answerWarnings m ret := by
  induction answers with
  | nil => simp [warned]
  | cons ret answers ih =>
    rw [warned, List.foldr_cons, ← warned, Finset.mem_union, ih, List.exists_mem_cons_iff]

theorem warned_perm {answers arrivals : List (RawResult T)} (hp : arrivals.Perm answers) :
    warned m arrivals = warned m answers := by
  refine Finset.ext fun text => ?_
  simp only [mem_warned, hp.mem_iff]

theorem warned_cons (ret : RawResult T) (answers : List (RawResult T)) :
    warned m (ret :: answers) = answerWarnings m ret ∪ warned m answers := rfl

theorem receive_warnings {v v' : GatherVars T} {ret : RawResult T} (h : receive m v ret = .inr v') :
    v'.warnings = v.warnings ∪ answerWarnings m ret := by
  rw [receive] at h
  rw [answerWarnings]
  cases hvalue : ret.value with
  | ok value =>
    rw [hvalue] at h
    cases h
    rfl
  | error err =>
    rw [hvalue] at h
    dsimp only at h
    split at h
    · cases h
    · cases h
      dsimp only
      split
      · rw [Finset.union_insert]
      · rfl

/-- A run that merges has kept all warnings. -/
theorem gatherLoop_warnings {apiName : String} {rest : List (RawResult T)} {v : GatherVars T}
    {results : List (Gathered T)} {w : Finset String}
    (h : gatherLoop m apiName rest.length v (rest.map Event.response) = some (.merged results w)) :
    w = v.warnings ∪ warned m rest := by
  induction rest generalizing v with
  | nil =>
    rw [List.length_nil, List.map_nil, gatherLoop, finish] at h
    split at h
    · cases h
    · cases h
      exact (Finset.union_empty _).symm
  | cons ret rest ih =>
    rw [List.length_cons, List.map_cons, gatherLoop] at h
    cases hreceive : receive m v ret with
    | inl outcome =>
      rw [hreceive] at h
      dsimp only at h
      cases h
      rw [receive] at hreceive
      cases hvalue : ret.value with
      | ok value =>
        rw [hvalue] at hreceive
        cases hreceive
      | error err =>
        rw [hvalue] at hreceive
        dsimp only at hreceive
        split at hreceive
        · cases hreceive
        · cases hreceive
    | inr v' =>
      rw [hreceive] at h
      rw [ih h, receive_warnings hreceive, warned_cons, Finset.union_assoc]

end

/-! ## Calls that all backends answer -/

section

variable {T U : Type*} {m : MultiAPI} {answers arrivals : List (RawResult T)}

/-- No backends are enough for a fan-out that needs each of them. -/
theorem gather_nil (hnil : m.apiFingerprints = []) (hstrict : m.partialResponse = false)
    (apiName : String) :
    gather (T := T) m apiName [] = some (.merged [] ∅) := by
  simp [gather, hnil, gatherLoop, finish, MultiAPI.missingRequired, hstrict, initVars, sortGathered,
    sortBy]

theorem MultiAPI.call_complete (hne : m.apiFingerprints = [] → m.partialResponse = false)
    (hans : answers.map RawResult.ordinal = List.range m.apiFingerprints.length)
    (hp : arrivals.Perm answers) (apiName : String) (merge : List (Gathered T) → U) :
    ∃ c, m.call apiName merge (arrivals.map .response) = some c ∧
      (Succeeds m answers →
        c.value = .ok (merge (successes answers)) ∧ c.warnings = warned m answers) ∧
      (¬ Succeeds m answers → ∃ err, c.value = .error err) := by
  by_cases hnil : m.apiFingerprints = []
  · have hstrict := hne hnil
    rw [hnil, List.length_nil, List.range_zero, List.map_eq_nil_iff] at hans
    subst hans
    have harrivals := hp.eq_nil
    subst harrivals
    have hsucceeds : Succeeds m ([] : List (RawResult T)) := by
      rw [Succeeds, hstrict, if_neg Bool.false_ne_true, hnil]
      exact fun fp hfp => absurd hfp List.not_mem_nil
    refine ⟨⟨.ok (merge []), ∅⟩, ?_, fun _ => ⟨rfl, rfl⟩, fun h => absurd hsucceeds h⟩
    rw [MultiAPI.call, scatterGather, List.map_nil, gather_nil hnil hstrict]
    rfl
  · obtain ⟨hsucc, hfail⟩ := gather_complete hans hp apiName hnil
    by_cases h : Succeeds m answers
    · obtain ⟨w, hw⟩ := hsucc h
      have hlen : arrivals.length = m.apiFingerprints.length := by
        rw [hp.length_eq, ← List.length_map RawResult.ordinal, hans, List.length_range]
      have hwarnings := hw
      rw [gather, ← hlen] at hwarnings
      have hwarned := gatherLoop_warnings hwarnings
      rw [initVars, Finset.empty_union, warned_perm hp] at hwarned
      refine ⟨⟨.ok (merge (successes answers)), w⟩, ?_, fun _ => ⟨rfl, hwarned⟩, fun hnot => absurd h hnot⟩
      rw [MultiAPI.call, scatterGather, hw]
      rfl
    · obtain ⟨err, w, hw⟩ := hfail h
      refine ⟨⟨.error err, w⟩, ?_, fun hsucceeds => absurd hsucceeds h, fun _ => ⟨err, rfl⟩⟩
      rw [MultiAPI.call, scatterGather]
      rcases hw with hw | hw
      · rw [hw]
        rfl
      · rw [hw]
        rfl

end

/-! ## The merged answers -/

section

variable {results : List (Gathered (List String))}

theorem ascending_sortedUnion : Ascending (fun v => v) (sortedUnion results) := by
  rw [sortedUnion, ascending_sortBy_iff, List.map_id']
  exact List.nodup_dedup _

theorem mem_sortedUnion {v : String} : v ∈ sortedUnion results ↔ ∃ r ∈ results, v ∈ r.value := by
  rw [sortedUnion, mem_sortBy, List.mem_dedup, List.mem_flatMap]

/-- The same answers give the same list, whoever gave them. -/
theorem sortedUnion_eq_iff {results' : List (Gathered (List String))} :
    sortedUnion results = sortedUnion results' ↔
      ∀ v, (∃ r ∈ results, v ∈ r.value) ↔ ∃ r ∈ results', v ∈ r.value := by
  constructor
  · intro h v
    rw [← mem_sortedUnion, ← mem_sortedUnion, h]
  · intro h
    refine ascending_sortedUnion.ext ascending_sortedUnion fun v => ?_
    rw [mem_sortedUnion, mem_sortedUnion, h v]

theorem mem_mergeLabelSetsLoop {fingerprint : LabelSet → Fingerprint}
    (hinj : Function.Injective fingerprint) {added : List Fingerprint} {a b : List LabelSet}
    (hadded : ∀ ls, fingerprint ls ∈ added ↔ ls ∈ a) (ls : LabelSet) :
    ls ∈ mergeLabelSetsLoop fingerprint added a b ↔ ls ∈ a ∨ ls ∈ b := by
  induction b generalizing added a with
  | nil => simp [mergeLabelSetsLoop]
  | cons item b ih =>
    rw [mergeLabelSetsLoop]
    split
    · rename_i hmem
      rw [ih hadded, List.mem_cons]
      have hitem := (hadded item).mp (List.contains_iff_mem.mp hmem)
      constructor
      · exact Or.imp_right Or.inr
      · rintro (h | rfl | h)
        · exact Or.inl h
        · exact Or.inl hitem
        · exact Or.inr h
    · rw [ih fun ls => ?_, List.mem_append, List.mem_singleton, List.mem_cons, or_assoc]
      rw [List.mem_cons, List.mem_append, List.mem_singleton, hadded, hinj.eq_iff]
      exact or_comm

theorem mem_mergeLabelSets {fingerprint : LabelSet → Fingerprint}
    (hinj : Function.Injective fingerprint) {a b : List LabelSet} {ls : LabelSet} :
    ls ∈ mergeLabelSets fingerprint a b ↔ ls ∈ a ∨ ls ∈ b :=
  mem_mergeLabelSetsLoop hinj (fun ls => by rw [List.mem_map_of_injective hinj]) ls

theorem mem_mergeSeriesFn {fingerprint : LabelSet → Fingerprint}
    (hinj : Function.Injective fingerprint) {results : List (Gathered (Option (List LabelSet)))}
    {ls : LabelSet} :
    ls ∈ (mergeSeriesFn fingerprint results).getD [] ↔ ∃ r ∈ results, ls ∈ r.value.getD [] := by
  have hfold (merged : Option (List LabelSet)) :
      ls ∈ (results.foldl (fun merged r =>
        match merged with
        | none => r.value
        | some sets => some (mergeLabelSets fingerprint sets (r.value.getD []))) merged).getD [] ↔
      ls ∈ merged.getD [] ∨ ∃ r ∈ results, ls ∈ r.value.getD [] := by
    induction results generalizing merged with
    | nil => simp
    | cons r results ih =>
      rw [List.foldl_cons, ih, List.exists_mem_cons_iff, ← or_assoc]
      refine or_congr_left ?_
      cases merged with
      | none => simp
      | some sets => exact mem_mergeLabelSets hinj
  rw [mergeSeriesFn, hfold]
  simp

theorem lookup_filter_notMem {M : Type*} (md : List (String × M)) (l : List (String × M)) (k : String) :
    (l.filter fun p => p.1 ∉ md.map Prod.fst).lookup k =
      if k ∈ md.map Prod.fst then none else l.lookup k := by
  induction l with
  | nil => simp
  | cons p l ih =>
    rw [List.filter_cons]
    by_cases hk : k = p.1
    · subst hk
      by_cases hmem : p.1 ∈ md.map Prod.fst
      · rw [if_neg (by simpa using hmem), ih, if_pos hmem, if_pos hmem]
      · rw [if_pos (by simpa using hmem), if_neg hmem, List.lookup_cons_self, List.lookup_cons_self]
    · have hne : (k == p.1) = false := beq_false_of_ne hk
      split
      · rw [List.lookup_cons, hne, ih, List.lookup_cons, hne]
      · rw [ih, List.lookup_cons, hne]

theorem lookup_eq_none_of_notMem {M : Type*} {md : List (String × M)} {k : String}
    (h : k ∉ md.map Prod.fst) : md.lookup k = none := by
  induction md with
  | nil => rfl
  | cons p md ih =>
    rw [List.map_cons, List.mem_cons, not_or] at h
    rw [List.lookup_cons, beq_false_of_ne h.1, ih h.2]

theorem lookup_isSome_of_mem {M : Type*} {md : List (String × M)} {k : String}
    (h : k ∈ md.map Prod.fst) : (md.lookup k).isSome = true := by
  induction md with
  | nil => cases h
  | cons p md ih =>
    rw [List.lookup_cons]
    by_cases hk : k = p.1
    · rw [hk, beq_self_eq_true]
      rfl
    · rw [beq_false_of_ne hk]
      exact ih ((List.mem_cons.mp h).resolve_left hk)

/-- The metadata of a name is that of the first answer which has it. -/
theorem lookup_mergeMetadata {M : Type*} (results : List (Gathered (Option (List (String × M)))))
    (k : String) :
    ((mergeMetadata results).getD []).lookup k =
      results.findSome? fun r => (r.value.getD []).lookup k := by
  have hfold (result : Option (List (String × M))) :
      ((results.foldl (fun result r =>
        match result with
        | none => r.value
        | some md => some (md ++ (r.value.getD []).filter fun p => p.1 ∉ md.map Prod.fst))
          result).getD []).lookup k =
      ((result.getD []).lookup k).or (results.findSome? fun r => (r.value.getD []).lookup k) := by
    induction results generalizing result with
    | nil => simp
    | cons r results ih =>
      rw [List.foldl_cons, ih, List.findSome?_cons]
      cases result with
      | none =>
        rw [Option.getD_none, List.lookup_nil, Option.none_or]
        cases (r.value.getD []).lookup k <;> rfl
      | some md =>
        rw [Option.getD_some, Option.getD_some, List.lookup_append, lookup_filter_notMem]
        by_cases hk : k ∈ md.map Prod.fst
        · obtain ⟨entries, hentries⟩ := Option.isSome_iff_exists.mp (lookup_isSome_of_mem hk)
          rw [hentries]
          rfl
        · rw [if_neg hk, lookup_eq_none_of_notMem hk, Option.none_or, Option.none_or]
          cases (r.value.getD []).lookup k <;> rfl
  rw [mergeMetadata, hfold]
  rfl

end

end Promclient
end Proxeus
