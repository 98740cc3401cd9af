import Proxeus.Promclient.Label
import Proxeus.Promclient.MultiAPISpec

/-!
# Servergroup.LoadTargets

`loadTargetGroupMap`: every discovered target of a server group gets a stack of clients, and the
group fans out over them. The fan-out finds the bucket of a target by the `Key` of its client, which
it looks for on the outermost client of the stack alone. That one is an `ErrorWrap`, which has none,
so all targets are in one bucket (`apiFingerprints_loadTargets`), and one that answers is enough.
-/

namespace Proxeus
namespace Servergroup

open Lib Promclient

/-- The clients a target's API is wrapped in, with what `Key` reads of them. -/
inductive ApiClient where
  | promAPIV1
  | promAPIVMExport (api : ApiClient)
  | debugAPI (api : ApiClient)
  | promAPIRemoteRead (api : ApiClient)
  | absoluteTimeFilter (api : ApiClient)
  | relativeTimeFilter (api : ApiClient)
  | stepAlignClient (api : ApiClient)
  | injectMatchersClient (api : ApiClient)
  | addLabelClient (api : ApiClient) (labels : LabelSet)
  | metricsRelabelClient (api : ApiClient)
  | labelFilterClient (api : ApiClient)
  | errorWrap (api : ApiClient)
  | ignoreErrorAPI (api : ApiClient)
  | downgradeErrorAPI (api : ApiClient)

/-- `Key`, of the clients that are `APILabels`. A client that embeds an `API` has the methods of
that interface, of which `Key` is none. -/
def ApiClient.key : ApiClient → Option LabelSet
  | addLabelClient _ labels => some labels
  | ignoreErrorAPI api => api.key
  | downgradeErrorAPI api => api.key
  | _ => none

/-- What the config of a group says about the clients of its targets. -/
structure TargetOpts where
  vmExport : Bool
  debug : Bool
  remoteRead : Bool
  absoluteTimeRange : Bool
  relativeTimeRange : Bool
  alignQueryRangeWithStep : Bool
  injectMatchers : Bool
  labels : LabelSet
  metricsRelabel : Bool
  labelFilter : Bool

/-- `model.ReservedLabelPrefix` -/
def reservedLabelPrefix : String := "__"

/-- The labels of a target that are not private. -/
def modelLabelSet (lset : Labels) : LabelSet :=
  ⟨lset.pairs.filter fun p => !reservedLabelPrefix.toList.isPrefixOf p.name.toList, lset.ascending.filter _⟩

/-- The labels added to what a target returns. -/
def targetLabels (cfg : TargetOpts) (lset : Labels) : LabelSet :=
  (modelLabelSet lset).merge cfg.labels

def wrapIf (b : Bool) (wrap : ApiClient → ApiClient) (api : ApiClient) : ApiClient :=
  if b then wrap api else api

/-- The stack of clients of one target. -/
def targetClient (cfg : TargetOpts) (lset : Labels) : ApiClient :=
  let api := ApiClient.promAPIV1
  let api := wrapIf cfg.vmExport .promAPIVMExport api
  let api := wrapIf cfg.debug .debugAPI api
  let api := wrapIf cfg.remoteRead .promAPIRemoteRead api
  let api := wrapIf cfg.absoluteTimeRange .absoluteTimeFilter api
  let api := wrapIf cfg.relativeTimeRange .relativeTimeFilter api
  let api := wrapIf cfg.alignQueryRangeWithStep .stepAlignClient api
  let api := wrapIf cfg.injectMatchers .injectMatchersClient api
  let api := ApiClient.addLabelClient api (targetLabels cfg lset)
  let api := wrapIf cfg.metricsRelabel .metricsRelabelClient api
  let api := wrapIf cfg.labelFilter .labelFilterClient api
  .errorWrap api

/-- `model.AddressLabel` -/
def addressLabel : String := "__address__"

variable (fastFingerprint : LabelSet → Fingerprint)

/-- The fingerprint `NewMultiAPI` finds for a client. -/
def apiFingerprint (api : ApiClient) : Fingerprint :=
  match api.key with
  | some keys => fastFingerprint keys
  | none => 0

/-- `loadTargetGroupMap`, on the label sets that `relabel_configs` has left of the targets it
keeps: the fan-out over them, where all their clients could be created. -/
def loadTargetGroupMap (cfg : TargetOpts) (lsets : List Labels) : Except String MultiAPI :=
  if lsets.any fun lset => lset.get addressLabel = "" then
    .error "discovery target is missing address label"
  else newMultiAPI ((lsets.map (targetClient cfg)).map (apiFingerprint fastFingerprint)) 1

variable {fastFingerprint} {cfg : TargetOpts} {lsets : List Labels} {m : MultiAPI}

/-- A fan-out over `n` APIs in one bucket. -/
def oneBucket (n : Nat) : MultiAPI where
  apiFingerprints := List.replicate n 0
  requiredCount := 1
  partialResponse := false
  enough fp hfp := by
    have := List.count_pos_iff.mpr hfp
    omega

/-- The fan-out over targets that all have an address. -/
theorem loadTargetGroupMap_eq (haddress : ∀ lset ∈ lsets, lset.get addressLabel ≠ "") :
    loadTargetGroupMap fastFingerprint cfg lsets = .ok (oneBucket lsets.length) := by
  have hzero : (lsets.map (targetClient cfg)).map (apiFingerprint fastFingerprint) =
      List.replicate lsets.length 0 := by
    rw [List.map_map]
    exact List.map_const'
  have hany : (lsets.any fun lset => lset.get addressLabel = "") = false := by
    simpa using haddress
  rw [loadTargetGroupMap, hany, if_neg Bool.false_ne_true, hzero, newMultiAPI]
  exact dif_pos (oneBucket lsets.length).enough

theorem apiFingerprints_loadTargets (h : loadTargetGroupMap fastFingerprint cfg lsets = .ok m) :
    m.apiFingerprints = List.replicate lsets.length 0 ∧ m.requiredCount = 1 ∧
      m.partialResponse = false := by
  by_cases haddress : ∀ lset ∈ lsets, lset.get addressLabel ≠ ""
  · rw [loadTargetGroupMap_eq haddress] at h
    cases h
    exact ⟨rfl, rfl, rfl⟩
  · have hany : (lsets.any fun lset => lset.get addressLabel = "") = true := by
      simpa using haddress
    rw [loadTargetGroupMap, hany, if_pos rfl] at h
    cases h

/-- One answer is enough. -/
theorem succeeds_loadTargets (h : loadTargetGroupMap fastFingerprint cfg lsets = .ok m)
    {T : Type} {answers : List (RawResult T)} :
    Succeeds m answers ↔ lsets = [] ∨ ∃ ret ∈ answers, ret.ok = true := by
  obtain ⟨hfps, hrequired, hpartial⟩ := apiFingerprints_loadTargets h
  have hls : ∀ ret ∈ answers, m.ls ret.ordinal = 0 := by
    intro ret _
    rw [MultiAPI.ls, hfps, List.getD_eq_getElem?_getD, List.getElem?_replicate]
    split <;> rfl
  have hcount : succeeded m 0 answers = answers.countP RawResult.ok := by
    refine List.countP_congr fun ret hret => ?_
    rw [hls ret hret]
    simp
  rw [Succeeds, hpartial, if_neg Bool.false_ne_true, hrequired, hfps]
  constructor
  · intro hall
    rcases List.eq_nil_or_concat lsets with hnil | ⟨rest, last, hlast⟩
    · exact Or.inl hnil
    · have h0 := hall 0 (List.mem_replicate.mpr ⟨by simp [hlast], rfl⟩)
      rw [hcount] at h0
      have hpos : 0 < answers.countP RawResult.ok := by exact_mod_cast h0
      exact Or.inr (List.countP_pos_iff.mp hpos)
  · rintro (hnil | hok) fp hfp
    · rw [hnil] at hfp
      cases hfp
    · rw [(List.mem_replicate.mp hfp).2, hcount]
      have hpos := List.countP_pos_iff.mpr hok
      exact_mod_cast hpos

/-- A successful call has an answer for every label set. -/
def Covers (labels : List LabelSet) {T : Type} (answers : List (RawResult T)) : Prop :=
  ∀ ls ∈ labels, ∃ ret ∈ answers, ret.ok = true ∧ labels[ret.ordinal]? = some ls

theorem Covers.of_same {cfg : TargetOpts} {lsets : List Labels}
    (hsame : ∀ lset ∈ lsets, ∀ lset' ∈ lsets, targetLabels cfg lset = targetLabels cfg lset')
    {T : Type} {answers : List (RawResult T)}
    (hans : answers.map RawResult.ordinal = List.range lsets.length)
    (hok : lsets = [] ∨ ∃ ret ∈ answers, ret.ok = true) :
    Covers (lsets.map (targetLabels cfg)) answers := by
  intro ls hls
  obtain ⟨lset, hlset, rfl⟩ := List.mem_map.mp hls
  rcases hok with rfl | ⟨ret, hret, hok⟩
  · cases hlset
  · have hlt : ret.ordinal < lsets.length := by
      rw [← List.mem_range, ← hans]
      exact List.mem_map_of_mem hret
    refine ⟨ret, hret, hok, ?_⟩
    rw [List.getElem?_map, List.getElem?_eq_getElem hlt]
    exact congrArg some (hsame _ (List.getElem_mem hlt) _ hlset)

/-- The answers of a group of which the target `i` alone is up. -/
def onlyUp (n i : Nat) : List (RawResult Unit) :=
  (List.range n).map fun j => ⟨if j = i then .ok () else .error ⟨"down", none⟩, ∅, j⟩

theorem ok_onlyUp {n i : Nat} {ret : RawResult Unit} (h : ret ∈ onlyUp n i) :
    ret.ok = true ↔ ret.ordinal = i := by
  obtain ⟨j, -, rfl⟩ := List.mem_map.mp h
  by_cases hj : j = i
  · simp [RawResult.ok, hj]
  · simp [RawResult.ok, hj]

/-- **A label set that is down.** The calls of a group whose targets have been loaded succeed only
if every label set among the targets has answered, whatever fails and in whatever order the answers
arrive, exactly if all targets have the same label set. -/
theorem loadTargetGroupMap_covers_iff (h : loadTargetGroupMap fastFingerprint cfg lsets = .ok m) :
    ((∀ (T : Type) (apiName : String) (answers arrivals : List (RawResult T)) results w,
        answers.map RawResult.ordinal = List.range lsets.length → arrivals.Perm answers →
        scatterGather m apiName (arrivals.map .response) = some (results, w, none) →
        Covers (lsets.map (targetLabels cfg)) answers) ∧
      ∀ op mergeFn (answers arrivals : List (RawResult SeriesSet)) ss,
        answers.map RawResult.ordinal = List.range lsets.length → arrivals.Perm answers →
        scatterMerge m op mergeFn (arrivals.map .response) = some ss → ss.err = none →
        Covers (lsets.map (targetLabels cfg)) answers) ↔
      ∀ lset ∈ lsets, ∀ lset' ∈ lsets, targetLabels cfg lset = targetLabels cfg lset' := by
  obtain ⟨hfps, -, -⟩ := apiFingerprints_loadTargets h
  have hlen : m.apiFingerprints.length = lsets.length := by rw [hfps, List.length_replicate]
  by_cases hnil : lsets = []
  · subst hnil
    exact iff_of_true ⟨fun _ _ _ _ _ _ _ _ _ => nofun, fun _ _ _ _ _ _ _ _ _ => nofun⟩ nofun
  have hne : m.apiFingerprints ≠ [] := by
    rw [← List.length_pos_iff, hlen]
    exact List.length_pos_iff.mpr hnil
  constructor
  · rintro ⟨hgather, -⟩ lset hlset lset' hlset'
    obtain ⟨i, hi, rfl⟩ := List.mem_iff_getElem.mp hlset
    -- the other targets are down
    have hans : (onlyUp lsets.length i).map RawResult.ordinal = List.range lsets.length := by
      rw [onlyUp, List.map_map]
      exact List.map_id _
    have hup : ⟨.ok (), ∅, i⟩ ∈ onlyUp lsets.length i :=
      List.mem_map.mpr ⟨i, List.mem_range.mpr hi, by rw [if_pos rfl]⟩
    obtain ⟨⟨results, w, err, hrun, herr, -⟩, -⟩ := (fanOut_spec m hne "query").1 Unit
      (onlyUp lsets.length i) (onlyUp lsets.length i) (hlen ▸ hans) (List.Perm.refl _)
    have hsucc := (succeeds_loadTargets h).mpr (Or.inr ⟨_, hup, rfl⟩)
    rw [herr.mpr hsucc] at hrun
    obtain ⟨ret, hret, hok, hls⟩ := hgather Unit "query" _ _ results w hans (List.Perm.refl _) hrun
      (targetLabels cfg lset') (List.mem_map_of_mem hlset')
    rw [(ok_onlyUp hret).mp hok, List.getElem?_map, List.getElem?_eq_getElem hi] at hls
    exact Option.some.inj hls
  · intro hsame
    refine ⟨fun T apiName answers arrivals results w hans hp hrun => ?_,
      fun op mergeFn answers arrivals ss hans hp hrun herr => ?_⟩
    · obtain ⟨⟨results', w', err, hrun', herr, -⟩, -⟩ :=
        (fanOut_spec m hne apiName).1 T answers arrivals (hlen ▸ hans) hp
      rw [hrun, Option.some.injEq, Prod.mk.injEq, Prod.mk.injEq] at hrun'
      exact Covers.of_same hsame hans
        ((succeeds_loadTargets h).mp (herr.mp hrun'.2.2.symm))
    · obtain ⟨-, hfail, -⟩ := (fanOut_spec m hne op).2 mergeFn answers arrivals (hlen ▸ hans) hp
      by_contra hcovers
      have hsucc : ¬Succeeds m answers := fun hsucc =>
        hcovers (Covers.of_same hsame hans ((succeeds_loadTargets h).mp hsucc))
      obtain ⟨err, w, heq⟩ := hfail hsucc
      rw [hrun, Option.some.injEq] at heq
      rw [heq] at herr
      cases herr

/-! ## Two targets with labels of their own -/

def plainOpts : TargetOpts :=
  { vmExport := false, debug := false, remoteRead := false, absoluteTimeRange := false
    relativeTimeRange := false, alignQueryRangeWithStep := false, injectMatchers := false
    labels := ⟨[], ascending_nil⟩, metricsRelabel := false, labelFilter := false }

/-- A target that `relabel_configs` has given the label `dc`. -/
def targetIn (dc : String) : Labels := (Labels.empty.set "__address__" "prometheus:9090").set "dc" dc

/-- Two replicas. -/
theorem loadTargetGroupMap_covers_iff_replicas :
    ∃ m, loadTargetGroupMap (fun _ => 1#64) plainOpts [targetIn "eu", targetIn "eu"] = .ok m ∧
      ∀ answers : List (RawResult Nat), answers.map RawResult.ordinal = [0, 1] →
        ∀ results w, scatterGather m "query" (answers.map .response) = some (results, w, none) →
          Covers [targetLabels plainOpts (targetIn "eu"), targetLabels plainOpts (targetIn "eu")]
            answers := by
  have hload := @loadTargetGroupMap_eq (fun _ => 1#64) plainOpts [targetIn "eu", targetIn "eu"]
    (by decide +kernel)
  refine ⟨_, hload, fun answers hans results w hrun => ?_⟩
  have hsame := (loadTargetGroupMap_covers_iff hload).mpr (by simp)
  exact hsame.1 Nat "query" answers answers results w hans (List.Perm.refl _) hrun

/-- The targets `eu` and `us`, of which `us` is down: the call succeeds without it. -/
theorem loadTargetGroupMap_label_set_down :
    ∃ m, loadTargetGroupMap (fun _ => 1#64) plainOpts [targetIn "eu", targetIn "us"] = .ok m ∧
      targetLabels plainOpts (targetIn "eu") ≠ targetLabels plainOpts (targetIn "us") ∧
      ∃ w, scatterGather (T := Nat) m "query"
          [.response ⟨.ok 1, ∅, 0⟩, .response ⟨.error ⟨"down", none⟩, ∅, 1⟩] =
        some ([⟨1, 0⟩], w, none) := by
  have hload := @loadTargetGroupMap_eq (fun _ => 1#64) plainOpts [targetIn "eu", targetIn "us"]
    (by decide +kernel)
  exact ⟨_, hload, by decide +kernel, _, rfl⟩

end Servergroup
end Proxeus
