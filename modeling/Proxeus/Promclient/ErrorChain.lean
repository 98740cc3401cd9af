import Proxeus.Promclient.MultiAPI

/-!
# Promclient.ErrorChain

The errors of the backends on their way up: `error_wrap.go`, `backend_error.go`, and the part of
`multi_api.go` that classifies them. An error is a chain, in which `errors.As` looks for a type. On its
way it passes any number of `ErrorWrap`s and fan-outs, in any order (`Layer`). The `BackendError` of the
fan-outs is what they read of a chain (`GoError.toBackendError`).
-/

namespace Proxeus
namespace Promclient

/-! ## Chains -/

inductive GoError where
  /-- an error without a type that matters, of the transport or of a context -/
  | plain (msg : String)
  /-- `promapi.ResponseError` -/
  | responseError (type msg : String)
  /-- `v1.Error`; the `Detail` is what `json.Unmarshal` makes of it, if it is JSON -/
  | apiError (type msg : String) (detail : Option (String × String))
  /-- `promql.ErrQueryTimeout` -/
  | queryTimeout (s : String)
  /-- `promql.ErrQueryCanceled` -/
  | queryCanceled (s : String)
  /-- `errors.Wrap` -/
  | wrap (err : GoError) (msg : String)
  | downstreamError (err typed : GoError)
deriving DecidableEq, Repr

namespace GoError

/-- `Error` -/
def error : GoError → String
  | plain msg => msg
  | responseError type msg => if type = "" then msg else type ++ ": " ++ msg
  | apiError type msg _ => type ++ ": " ++ msg
  | queryTimeout s => "query timed out in " ++ s
  | queryCanceled s => "query was canceled in " ++ s
  | wrap err msg => msg ++ ": " ++ err.error
  | downstreamError err _ => err.error

/-- `errors.As`: what is found first, an error before those it unwraps to. -/
def as {α : Type} (find : GoError → Option α) : GoError → Option α
  | wrap err _ => err.as find
  | downstreamError err typed => (err.as find).or (typed.as find)
  | err => find err

def asResponseError : GoError → Option (String × String) :=
  as fun
    | responseError type msg => some (type, msg)
    | _ => none

def asApiError : GoError → Option (String × Option (String × String)) :=
  as fun
    | apiError type _ detail => some (type, detail)
    | _ => none

def asQueryTimeout : GoError → Option String :=
  as fun
    | queryTimeout s => some s
    | _ => none

def asQueryCanceled : GoError → Option String :=
  as fun
    | queryCanceled s => some s
    | _ => none

/-! ## Classification -/

/-- The types `ErrorBadData` and `ErrorExec`, and the two of `v1` with the same texts. -/
def isQueryType (type : String) : Bool := type = "bad_data" || type = "execution"

def isBackendQueryError (err : GoError) : Bool :=
  match err.asResponseError with
  | some (type, _) => isQueryType type
  | none =>
    match err.asApiError with
    | some (type, _) => isQueryType type
    | none => false

/-- `strings.TrimPrefix` -/
def trimPrefix (s pre : String) : String :=
  if pre.toList.isPrefixOf s.toList then String.ofList (s.toList.drop pre.length) else s

def timeoutPrefix : String := (queryTimeout "").error

def canceledPrefix : String := (queryCanceled "").error

def promErrorForType (type msg : String) : Option GoError :=
  if type = "timeout" then some (queryTimeout (trimPrefix msg timeoutPrefix))
  else if type = "canceled" then some (queryCanceled (trimPrefix msg canceledPrefix))
  else none

def normalizePromError (err : GoError) : GoError :=
  match err.asApiError with
  | some (_, detail) =>
    match detail with
    | none => err
    | some (type, msg) =>
      match promErrorForType type msg with
      | some typed => downstreamError err typed
      | none => err
  | none =>
    match err.asResponseError with
    | some (type, msg) =>
      match promErrorForType type msg with
      | some typed => downstreamError err typed
      | none => err
    | none => err

def fetchError (err : GoError) : GoError :=
  if err.isBackendQueryError then err else wrap err "Unable to fetch from downstream servers"

/-- `partialResponseErr`, which is a text. -/
def partialResponseErr (i : Nat) (err : GoError) : String :=
  if err.isBackendQueryError then
    "partial_response: backend[" ++ toString i ++ "] rejected the query: " ++ err.error
  else "partial_response: backend[" ++ toString i ++ "] unavailable: " ++ err.error

/-- The errors of the chain. -/
def chain : GoError → List GoError
  | wrap err msg => wrap err msg :: err.chain
  | downstreamError err typed => downstreamError err typed :: (err.chain ++ typed.chain)
  | err => [err]

end GoError

/-! ## Layers -/

/-- What an error passes: an `ErrorWrap`, or a fan-out, which returns an error as it has normalized it
or, when it comes back empty, through `fetchError`. -/
inductive Layer where
  | errorWrap (msg : String) (omitOnQueryError : Bool)
  | multiAPI (aborted : Bool)
deriving DecidableEq, Repr

namespace Layer

def isMultiAPI : Layer → Bool
  | errorWrap _ _ => false
  | multiAPI _ => true

/-- `ErrorWrap.wrap`, and the returns of `scatterGather` and `scatterMerge`. -/
def pass : Layer → GoError → GoError
  | errorWrap msg omitOnQueryError, err =>
    if omitOnQueryError && err.isBackendQueryError then err else .wrap err msg
  | multiAPI aborted, err =>
    if aborted then err.normalizePromError else err.normalizePromError.fetchError

/-- What the layer puts before the text of an error. -/
def frame (queryError : Bool) : Layer → String
  | errorWrap msg omitOnQueryError => if omitOnQueryError && queryError then "" else msg ++ ": "
  | multiAPI aborted =>
    if aborted || queryError then "" else "Unable to fetch from downstream servers" ++ ": "

end Layer

namespace GoError

/-- The error above the layers, the first of which it passes first. -/
def through (layers : List Layer) (err : GoError) : GoError :=
  layers.foldl (fun err layer => layer.pass err) err

/-- The texts of the layers, the last of which is outermost. -/
def frames (queryError : Bool) : List Layer → String
  | [] => ""
  | layer :: layers => frames queryError layers ++ layer.frame queryError

/-- The promql error that the types of the chain call for. -/
def promError (err : GoError) : Option GoError :=
  match err.asApiError with
  | some (_, detail) => detail.bind fun d => promErrorForType d.1 d.2
  | none => err.asResponseError.bind fun d => promErrorForType d.1 d.2

theorem normalizePromError_eq (err : GoError) :
    err.normalizePromError =
      match err.promError with
      | some typed => downstreamError err typed
      | none => err := by
  unfold normalizePromError promError
  cases err.asApiError with
  | some found =>
    obtain ⟨type, detail⟩ := found
    cases detail with
    | none => rfl
    | some d => rfl
  | none =>
    cases err.asResponseError with
    | none => rfl
    | some d => rfl

theorem error_wrap (err : GoError) (msg : String) : (wrap err msg).error = msg ++ ": " ++ err.error :=
  rfl

/-- What is found once an error is normalized. -/
theorem as_normalizePromError {α : Type} (find : GoError → Option α) (err : GoError) :
    err.normalizePromError.as find = (err.as find).or (err.promError.bind (as find)) := by
  rw [normalizePromError_eq]
  cases err.promError with
  | none => exact (Option.or_none).symm
  | some typed => rfl

theorem error_normalizePromError (err : GoError) : err.normalizePromError.error = err.error := by
  rw [normalizePromError_eq]
  cases err.promError <;> rfl

theorem mem_chain_self (err : GoError) : err ∈ err.chain := by
  cases err <;> exact List.mem_cons_self

theorem chain_subset_normalizePromError (err : GoError) :
    err.chain ⊆ err.normalizePromError.chain := by
  rw [normalizePromError_eq]
  cases err.promError with
  | none => exact List.Subset.refl _
  | some typed => exact List.subset_cons_of_subset _ (List.subset_append_left _ _)

/-- A promql error that the types call for is a timeout or a cancellation. -/
theorem promErrorForType_cases {type msg : String} {typed : GoError}
    (h : promErrorForType type msg = some typed) :
    (∃ s, typed = queryTimeout s) ∨ ∃ s, typed = queryCanceled s := by
  rw [promErrorForType] at h
  split at h
  · exact Or.inl ⟨_, (Option.some.inj h).symm⟩
  · split at h
    · exact Or.inr ⟨_, (Option.some.inj h).symm⟩
    · cases h

theorem promError_cases {err typed : GoError} (h : err.promError = some typed) :
    (∃ s, typed = queryTimeout s) ∨ ∃ s, typed = queryCanceled s := by
  unfold promError at h
  split at h
  · obtain ⟨d, -, hd⟩ := Option.bind_eq_some_iff.mp h
    exact promErrorForType_cases hd
  · obtain ⟨d, -, hd⟩ := Option.bind_eq_some_iff.mp h
    exact promErrorForType_cases hd

theorem promError_bind_asResponseError (err : GoError) :
    err.promError.bind asResponseError = none := by
  cases h : err.promError with
  | none => rfl
  | some typed => rcases promError_cases h with ⟨s, rfl⟩ | ⟨s, rfl⟩ <;> rfl

theorem promError_bind_asApiError (err : GoError) : err.promError.bind asApiError = none := by
  cases h : err.promError with
  | none => rfl
  | some typed => rcases promError_cases h with ⟨s, rfl⟩ | ⟨s, rfl⟩ <;> rfl

end GoError

namespace Layer

open GoError

/-! ## One layer -/

/-- A layer hides nothing from `errors.As`, and a fan-out adds the promql error that it calls for. -/
theorem as_pass {α : Type} (find : GoError → Option α) (layer : Layer) (err : GoError) :
    (layer.pass err).as find =
      (err.as find).or (if layer.isMultiAPI then err.promError.bind (as find) else none) := by
  cases layer with
  | errorWrap msg omitOnQueryError =>
    rw [pass, isMultiAPI, if_neg Bool.false_ne_true, Option.or_none]
    split <;> rfl
  | multiAPI aborted =>
    have hfetch : err.normalizePromError.fetchError.as find = err.normalizePromError.as find := by
      rw [GoError.fetchError]
      split <;> rfl
    rw [pass, isMultiAPI, if_pos rfl, ← as_normalizePromError]
    split
    · rfl
    · exact hfetch

theorem asResponseError_pass (layer : Layer) (err : GoError) :
    (layer.pass err).asResponseError = err.asResponseError := by
  have hnone := promError_bind_asResponseError err
  unfold asResponseError at hnone ⊢
  rw [as_pass, hnone, ite_self, Option.or_none]

theorem asApiError_pass (layer : Layer) (err : GoError) :
    (layer.pass err).asApiError = err.asApiError := by
  have hnone := promError_bind_asApiError err
  unfold asApiError at hnone ⊢
  rw [as_pass, hnone, ite_self, Option.or_none]

theorem isBackendQueryError_pass (layer : Layer) (err : GoError) :
    (layer.pass err).isBackendQueryError = err.isBackendQueryError := by
  rw [GoError.isBackendQueryError, asResponseError_pass, asApiError_pass,
    GoError.isBackendQueryError]

theorem promError_pass (layer : Layer) (err : GoError) :
    (layer.pass err).promError = err.promError := by
  rw [promError, asResponseError_pass, asApiError_pass, promError]

theorem error_pass (layer : Layer) (err : GoError) :
    (layer.pass err).error = layer.frame err.isBackendQueryError ++ err.error := by
  cases layer with
  | errorWrap msg omitOnQueryError =>
    rw [pass, frame]
    split
    · exact (String.empty_append).symm
    · rfl
  | multiAPI aborted =>
    have hquery : err.normalizePromError.isBackendQueryError = err.isBackendQueryError :=
      isBackendQueryError_pass (.multiAPI true) err
    rw [pass, frame]
    cases aborted with
    | true =>
      rw [if_pos rfl, error_normalizePromError]
      exact (String.empty_append).symm
    | false =>
      rw [if_neg Bool.false_ne_true, GoError.fetchError, hquery, Bool.false_or]
      split
      · rw [error_normalizePromError]
        exact (String.empty_append).symm
      · rw [error_wrap, error_normalizePromError]

theorem chain_subset_pass (layer : Layer) (err : GoError) : err.chain ⊆ (layer.pass err).chain := by
  cases layer with
  | errorWrap msg omitOnQueryError =>
    rw [pass]
    split
    · exact List.Subset.refl _
    · exact List.subset_cons_of_subset _ (List.Subset.refl _)
  | multiAPI aborted =>
    have hnormal := chain_subset_normalizePromError err
    rw [pass]
    split
    · exact hnormal
    · rw [GoError.fetchError]
      split
      · exact hnormal
      · exact List.subset_cons_of_subset _ hnormal

end Layer

namespace GoError

/-! ## Any number of layers -/

theorem through_cons (layer : Layer) (layers : List Layer) (err : GoError) :
    err.through (layer :: layers) = (layer.pass err).through layers := rfl

theorem isBackendQueryError_through (layers : List Layer) (err : GoError) :
    (err.through layers).isBackendQueryError = err.isBackendQueryError := by
  induction layers generalizing err with
  | nil => rfl
  | cons layer layers ih => rw [through_cons, ih, Layer.isBackendQueryError_pass]

theorem as_through {α : Type} (find : GoError → Option α) (layers : List Layer) (err : GoError) :
    (err.through layers).as find = (err.as find).or
      (if layers.any Layer.isMultiAPI then err.promError.bind (as find) else none) := by
  induction layers generalizing err with
  | nil => exact (Option.or_none).symm
  | cons layer layers ih =>
    rw [through_cons, ih, Layer.as_pass, Layer.promError_pass, List.any_cons, Option.or_assoc]
    cases layer.isMultiAPI with
    | false => rw [if_neg Bool.false_ne_true, Option.none_or, Bool.false_or]
    | true =>
      rw [if_pos rfl, Bool.true_or, if_pos rfl]
      split
      · rw [Option.or_self]
      · rw [Option.or_none]

theorem error_through (layers : List Layer) (err : GoError) :
    (err.through layers).error = frames err.isBackendQueryError layers ++ err.error := by
  induction layers generalizing err with
  | nil => exact (String.empty_append).symm
  | cons layer layers ih =>
    rw [through_cons, ih, Layer.isBackendQueryError_pass, Layer.error_pass, frames,
      String.append_assoc]

theorem chain_subset_through (layers : List Layer) (err : GoError) :
    err.chain ⊆ (err.through layers).chain := by
  induction layers generalizing err with
  | nil => exact List.Subset.refl _
  | cons layer layers ih =>
    exact List.Subset.trans (Layer.chain_subset_pass layer err) (ih (layer.pass err))

/-- **Errors on their way up.** Whatever wraps and fan-outs an error passes, it is a rejection of the
query exactly if it was one below; its text is the text below, after those of the layers; a timeout and
a cancellation are found in it if they were, or if a fan-out was passed and the type of the backend's
error calls for one; and what was found in the chain below still is. -/
theorem through_spec (layers : List Layer) (err : GoError) :
    (err.through layers).isBackendQueryError = err.isBackendQueryError ∧
      (err.through layers).error = frames err.isBackendQueryError layers ++ err.error ∧
      (err.through layers).asQueryTimeout = err.asQueryTimeout.or
        (if layers.any Layer.isMultiAPI then err.promError.bind asQueryTimeout else none) ∧
      (err.through layers).asQueryCanceled = err.asQueryCanceled.or
        (if layers.any Layer.isMultiAPI then err.promError.bind asQueryCanceled else none) ∧
      err ∈ (err.through layers).chain :=
  ⟨isBackendQueryError_through layers err, error_through layers err, as_through _ layers err,
    as_through _ layers err, chain_subset_through layers err err.mem_chain_self⟩

/-- The layers above a target: those of its server group and the fan-out over the groups. -/
def targetLayers (url : String) (ordinal : Nat) (aborted aborted' : Bool) : List Layer :=
  [.errorWrap ("error in target=" ++ url) true, .multiAPI aborted,
    .errorWrap ("error in servergroup ord=" ++ toString ordinal) false, .multiAPI aborted']

/-- A query that is rejected is reported with its server group and without the target. -/
theorem error_targetLayers {err : GoError} (h : err.isBackendQueryError = true) (url : String)
    (ordinal : Nat) (aborted aborted' : Bool) :
    (err.through (targetLayers url ordinal aborted aborted')).error =
      "error in servergroup ord=" ++ toString ordinal ++ ": " ++ err.error := by
  rw [error_through, h, targetLayers]
  simp only [frames, Layer.frame, Bool.and_true, Bool.or_true, Bool.false_eq_true,
    if_true, if_false, String.empty_append, String.append_empty]

/-! ## What the fan-outs read -/

/-- The type that `isBackendQueryError` looks at. -/
def errorType (err : GoError) : Option String :=
  match err.asResponseError with
  | some (type, _) => some type
  | none => err.asApiError.map Prod.fst

def toBackendError (err : GoError) : BackendError := ⟨err.error, err.errorType⟩

theorem isBackendQueryError_toBackendError (err : GoError) :
    Promclient.isBackendQueryError err.toBackendError = err.isBackendQueryError := by
  rw [Promclient.isBackendQueryError, toBackendError, errorType, isBackendQueryError]
  cases err.asResponseError with
  | some found => simp [isQueryType]
  | none =>
    cases err.asApiError with
    | some found => simp [isQueryType]
    | none => rfl

theorem toBackendError_normalizePromError (err : GoError) :
    err.normalizePromError.toBackendError = err.toBackendError := by
  have hresponse : err.normalizePromError.asResponseError = err.asResponseError :=
    Layer.asResponseError_pass (.multiAPI true) err
  have hapi : err.normalizePromError.asApiError = err.asApiError :=
    Layer.asApiError_pass (.multiAPI true) err
  rw [toBackendError, errorType, error_normalizePromError, hresponse, hapi, toBackendError, errorType]

/-- The fan-outs of the model return what these errors are read as. -/
theorem toBackendError_pass (err : GoError) :
    some ((Layer.multiAPI false).pass err).toBackendError =
        Promclient.fetchError (some err.toBackendError) ∧
      ((Layer.multiAPI true).pass err).toBackendError = err.toBackendError := by
  refine ⟨?_, toBackendError_normalizePromError err⟩
  rw [Promclient.fetchError, isBackendQueryError_toBackendError, Layer.pass,
    if_neg Bool.false_ne_true, fetchError]
  have hquery : err.normalizePromError.isBackendQueryError = err.isBackendQueryError :=
    Layer.isBackendQueryError_pass (.multiAPI true) err
  have hnormal := toBackendError_normalizePromError err
  rw [hquery]
  split
  · rw [hnormal]
  · have herror := error_normalizePromError err
    have htype : err.normalizePromError.errorType = err.errorType := congrArg BackendError.errorType hnormal
    show some (BackendError.mk (wrap err.normalizePromError _).error err.normalizePromError.errorType) = _
    have htext : "Unable to fetch from downstream servers" ++ ": " =
        "Unable to fetch from downstream servers: " := by decide
    rw [htype, error_wrap, herror, htext]
    rfl

end GoError

end Promclient
end Proxeus
