import Mathlib.Logic.Function.Basic
import MesReunions.Base.Json

/-!
# What an upload pod knows of a device

`services/mobile-upload-pwa/app/main.py` keeps in memory, for every device, the outcome of
the last checks with the device-token authority (`_device_validation_state`):

* `Pod.setValidationState`, `Pod.setValidationStateInvalid` — its two writers;
* `asyncValidateDevice`, `syncValidateDeviceOnce` — the two that read a reply of the authority;
* `validateDeviceFastPath` — what decides on a request.

Timestamps are whole seconds, as `utc_now_ts` gives them. `repr` is `str(v)` of a JSON value
that is not a string.
-/

namespace MesReunions.Upload

/-- The settings of the pod, in seconds. -/
structure Settings where
  /-- `DEVICE_REVALIDATE_INTERVAL_SECONDS` -/
  revalidateInterval : Nat
  /-- `DEVICE_REVALIDATE_MAX_FAILURE_SECONDS` -/
  maxFailure : Nat

def Settings.standard : Settings := ⟨14400, 14400⟩

/-- An entry of `_device_validation_state`. -/
structure ValidationState where
  lastOkTs : Option Nat
  lastCheckTs : Nat
  lastError : String
  firstFailureTs : Option Nat
  backendInvalid : Bool
  backendReason : Str
  deriving DecidableEq

/-- `_device_validation_state` -/
abbrev Pod := Str → Option ValidationState

/-- What `verify_device_token` gives of a token. -/
structure Payload where
  qrToken : Str
  retentionUntil : Nat
  deviceId : Str
  deriving DecidableEq

/-- The header `X-Device-Token`. -/
inductive Shown where
  | missing
  /-- `verify_device_token` raises -/
  | forged
  | signed (payload : Payload)

def Shown.payload : Shown → Option Payload
  | .signed payload => some payload
  | _ => none

/-- `{"reason": …, "message": …}` -/
structure Refusal where
  reason : Str
  message : String
  deriving DecidableEq

/-! ## The state of a device -/

/-- A timestamp that is there, as `if ts:` and `ts or …` see it. -/
def stamp (ts : Option Nat) : Option Nat := ts.filter (· != 0)

/-- What `_set_validation_state` records. -/
def ValidationState.checked (state : Option ValidationState) (ok : Bool) (now : Nat) :
    ValidationState :=
  if ok then ⟨some now, now, "", none, false, []⟩
  else
    { lastOkTs := state.bind (·.lastOkTs)
      lastCheckTs := now
      lastError := "validate_failed"
      firstFailureTs := some ((stamp (state.bind (·.firstFailureTs))).getD now)
      backendInvalid := false
      backendReason := [] }

/-- What `_set_validation_state_invalid` records. -/
def ValidationState.refused (state : Option ValidationState) (reason : Str) (now : Nat) :
    ValidationState where
  lastOkTs := state.bind (·.lastOkTs)
  lastCheckTs := now
  lastError := "backend_invalid"
  firstFailureTs := none
  backendInvalid := true
  backendReason := Str.strip (if reason = [] then "invalid".toList else reason)

/-- `_set_validation_state` -/
def Pod.setValidationState (pod : Pod) (device : Str) (ok : Bool) (now : Nat) : Pod :=
  Function.update pod device (some (.checked (pod device) ok now))

/-- `_set_validation_state_invalid` -/
def Pod.setValidationStateInvalid (pod : Pod) (device reason : Str) (now : Nat) : Pod :=
  Function.update pod device (some (.refused (pod device) reason now))

/-! ## Replies of the authority -/

/-- What comes of `req.post(TOKEN_ISSUER_VALIDATE_DEVICE_URL, …)`. -/
inductive Reply where
  /-- A timeout, or any other exception. -/
  | unreachable
  /-- A status and the JSON of the body, if it is JSON. -/
  | response (status : Nat) (body : Option Json)

/-- `data.get(key)` -/
def member (fields : List (Str × Json)) (key : String) : Json :=
  (Json.get? fields key.toList).getD .null

/-- `v or w` -/
def either (v w : Json) : Json := if v.truthy then v else w

/-- `str(v)` -/
def textOf (repr : Json → Str) : Json → Str
  | .str s => s
  | v => repr v

/-- `str(data.get("reason") or data.get("error") or "").strip()`; without a dictionary, the
exception leaves the empty string. -/
def reasonOf (repr : Json → Str) : Option Json → Str
  | some (.obj fields) =>
      Str.strip (textOf repr (either (either (member fields "reason") (member fields "error"))
        (.str [])))
  | _ => []

/-- `definitive_reasons` -/
def definitiveReasons : List Str :=
  ["revoked".toList, "not_found".toList, "token_mismatch".toList, "qr_expired".toList,
    "retention_expired".toList, "invalid_signature".toList, "invalid_payload".toList]

section Validators

variable (repr : Json → Str) (pod : Pod) (now : Nat) (payload : Option Payload)

/-- A check has failed; the device is that of the token, if it verifies and names one. -/
def checkFailed : Pod :=
  match payload with
  | none => pod
  | some payload =>
      if payload.deviceId = [] then pod else pod.setValidationState payload.deviceId false now

/-- `_async_validate_device` -/
def asyncValidateDevice : Reply → Pod
  | .unreachable => checkFailed pod now payload
  | .response status body =>
      if 400 ≤ status then
        match payload with
        | none => pod
        | some payload =>
            -- 4xx with explicit device-invalid reasons should block immediately
            if status < 500 ∧ reasonOf repr body ∈ definitiveReasons then
              pod.setValidationStateInvalid payload.deviceId (reasonOf repr body) now
            else pod.setValidationState payload.deviceId false now
      else
        match body with
        | some (.obj data) =>
            let device := textOf repr (either (member data "device_id") (.str []))
            if device = [] then pod
            else if (member data "valid").truthy then pod.setValidationState device true now
            else
              pod.setValidationStateInvalid device
                (textOf repr (either (member data "reason") (.str "invalid".toList))) now
        | _ => checkFailed pod now payload

/-- The device is refused for good, for `reason or "invalid"`. -/
def checkRefused (reason : Str) : Pod :=
  match payload with
  | none => pod
  | some payload =>
      if payload.deviceId = [] then pod
      else pod.setValidationStateInvalid payload.deviceId
        (if reason = [] then "invalid".toList else reason) now

/-- The device is fine. -/
def checkPassed : Pod :=
  match payload with
  | none => pod
  | some payload =>
      if payload.deviceId = [] then pod else pod.setValidationState payload.deviceId true now

/-- What `_sync_validate_device_once` returns. -/
structure Checked where
  backendAvailable : Bool
  backendValid : Bool
  backendReason : Str
  deriving DecidableEq

/-- `_sync_validate_device_once`; `none` is the `AttributeError` of a body that is JSON, but
no dictionary. -/
def syncValidateDeviceOnce : Reply → Option (Pod × Checked)
  | .unreachable =>
      some (checkFailed pod now payload, ⟨false, true, "backend_unavailable".toList⟩)
  | .response status body =>
      let reason := reasonOf repr body
      let refused : Pod × Checked := (checkRefused pod now payload reason,
        ⟨true, false, if reason = [] then "invalid".toList else reason⟩)
      if 500 ≤ status then
        some (checkFailed pod now payload, ⟨false, true, "backend_unavailable".toList⟩)
      else
        match body with
        | none => some refused
        | some (.obj data) =>
            if (member data "valid").truthy then
              some (checkPassed pod now payload, ⟨true, true, "ok".toList⟩)
            else some refused
        | some _ => none

/-- What the pod knows after `_sync_validate_device_once`. -/
def afterSync (reply : Reply) : Pod :=
  match syncValidateDeviceOnce repr pod now payload reply with
  | none => pod
  | some (pod, _) => pod

end Validators

/-! ## The fast path -/

/-- What a recorded refusal says. -/
def refusedMessage (reason : Str) : String :=
  let hint := "Veuillez renouveler votre token (durée + téléchargements) dans l'interface admin."
  if reason = "revoked".toList then s!"Token révoqué. {hint}"
  else if reason = "qr_expired".toList then s!"Token expiré. {hint}"
  else if reason = "retention_expired".toList then s!"Token expiré. {hint}"
  else if reason = "not_found".toList then s!"Appareil inconnu pour ce token. {hint}"
  else if reason = "token_mismatch".toList then s!"Token invalide pour cette session. {hint}"
  else s!"Token invalide. {hint}"

/-- `_validate_device_fast_path` as far as the token goes: its device, or a refusal. -/
def readToken (now : Nat) (qrToken : Str) : Shown → Except Refusal Str
  | .missing => .error ⟨"missing_device_token".toList, "Appareil non enrole."⟩
  | .forged => .error ⟨"invalid_device_token".toList, "Token appareil invalide."⟩
  | .signed payload =>
      if Str.strip payload.qrToken ≠ qrToken then
        .error ⟨"token_scope_mismatch".toList, "Token appareil non associe a ce code."⟩
      else if payload.retentionUntil ≠ 0 ∧ payload.retentionUntil < now then
        .error ⟨"retention_expired".toList, "Enrolement expire. Scannez un nouveau code."⟩
      else if payload.deviceId = [] then
        .error ⟨"missing_device_id".toList, "Token appareil incomplet."⟩
      else .ok payload.deviceId

/-- What `_validate_device_fast_path` makes of the recorded state: a refusal, or none. -/
def ValidationState.refusal (cfg : Settings) (now : Nat) (state : Option ValidationState) :
    Option Refusal :=
  if state.any (·.backendInvalid) then
    let reason := (state.map (·.backendReason)).getD []
    let reason := if reason = [] then "invalid".toList else reason
    some ⟨reason, refusedMessage reason⟩
  else if (stamp (state.bind (·.firstFailureTs))).any (cfg.maxFailure < now - ·) then
    some ⟨"backend_validation_window_exceeded".toList,
      "Validation backend indisponible trop longtemps. " ++
        "Pour votre securite, retournez sur le backend et regenerez un code."⟩
  else none

/-- A background check starts. -/
def ValidationState.due (cfg : Settings) (now : Nat) (state : Option ValidationState) : Bool :=
  let last := (state.map (·.lastCheckTs)).getD 0
  let interval :=
    match stamp (state.bind (·.firstFailureTs)) with
    | none => cfg.revalidateInterval
    | some _ => min cfg.revalidateInterval 300
  interval ≤ now - last

/-- `_validate_device_fast_path`: the device and whether `_async_validate_device` starts, or a
refusal. -/
def validateDeviceFastPath (cfg : Settings) (pod : Pod) (now : Nat) (qrToken : Str)
    (shown : Shown) : Except Refusal (Str × Bool) :=
  match readToken now qrToken shown with
  | .error refusal => .error refusal
  | .ok device =>
      match ValidationState.refusal cfg now (pod device) with
      | some refusal => .error refusal
      | none => .ok (device, ValidationState.due cfg now (pod device))

/-! ## Basic facts -/

section Basic

variable {pod : Pod} {device : Str} {now : Nat}

@[simp] theorem setValidationState_self (ok : Bool) :
    pod.setValidationState device ok now device = some (.checked (pod device) ok now) :=
  Function.update_self ..

@[simp] theorem setValidationStateInvalid_self (reason : Str) :
    pod.setValidationStateInvalid device reason now device =
      some (.refused (pod device) reason now) :=
  Function.update_self ..

theorem setValidationState_of_ne {other : Str} (ok : Bool) (h : other ≠ device) :
    pod.setValidationState device ok now other = pod other :=
  Function.update_of_ne h ..

theorem setValidationStateInvalid_of_ne {other : Str} (reason : Str) (h : other ≠ device) :
    pod.setValidationStateInvalid device reason now other = pod other :=
  Function.update_of_ne h ..

/-- The fast path refuses exactly what the token or the recorded state refuse. -/
theorem fastPath_ok_iff {cfg : Settings} {qrToken : Str} {shown : Shown} :
    (∃ due, validateDeviceFastPath cfg pod now qrToken shown = .ok (device, due)) ↔
      readToken now qrToken shown = .ok device ∧
        ValidationState.refusal cfg now (pod device) = none := by
  unfold validateDeviceFastPath
  constructor
  · rintro ⟨due, h⟩
    split at h
    · cases h
    · rename_i device' hread
      split at h
      · cases h
      · rename_i hstate
        cases h
        exact ⟨hread, hstate⟩
  · rintro ⟨hread, hstate⟩
    refine ⟨ValidationState.due cfg now (pod device), ?_⟩
    rw [hread]
    simp only [hstate]

end Basic

end MesReunions.Upload
