import MesReunions.Base.Num
import MesReunions.Devices.Heartbeat
import MesReunions.Devices.Owner
import MesReunions.Upload.Agreement
import MesReunions.Upload.Sessions

/-!
# What the pod remembers of a device

`api_device_session` asks the authority about a device only when the fast path, that is the
recorded state, lets it.

* `apiDeviceSession` — the session bootstrap.
* `lastOutcome`, `firstFailure` — all that a history of checks leaves behind:
  **`refusal_of_history`**.
* **`recovers_iff`** — a device that the authority accepts is reported enrolled exactly when the
  last outcome is no refusal, and the first failure since then lies within the window.
* **`renewed_and_refused`** — a device whose renewal the pod never hears of.
-/

namespace MesReunions.Upload

universe u

/-! ## The bootstrap -/

/-- `status` -/
inductive EnrollStatus where
  | enrolled
  | needsEnrollment
  | sessionUnavailable
  deriving DecidableEq

/-- A response of `api_device_session`. -/
inductive Bootstrap where
  | error (status : Nat) (error : String)
  | session (code : Nat) (status : EnrollStatus) (canUpload canView : Bool) (sessionReason : String)
      (deviceReason : Str) (deviceMessage : Option String)

def Bootstrap.status : Bootstrap → Option EnrollStatus
  | .error _ _ => none
  | .session _ status _ _ _ _ _ => some status

/-- The response, from the reason and the message of the device; without a message it is fine. -/
def respond {δ : Type u} (now : Nat) (sess : Session δ) (shown : Shown) (ok : Bool) (reason : Str)
    (message : Option String) : Bootstrap :=
  let invalid := isSessionValid now (some sess)
  let canView := canViewStatus now (some sess)
  let status : EnrollStatus :=
    if invalid.isSome ∧ canView = false then .sessionUnavailable
    else if ok then .enrolled else .needsEnrollment
  match shown with
  | .missing => .session 200 status invalid.isNone canView (invalid.getD "") reason message
  | _ =>
      if ok then .session 200 status invalid.isNone canView (invalid.getD "") reason message
      else .session 401 status false canView (invalid.getD "") reason message

/-- `api_device_session`, where `found` is the session and `reply` what the authority says if
it is asked. -/
def apiDeviceSession {δ : Type u} (cfg : Settings) (repr : Json → Str) (found : Option (Session δ))
    (pod : Pod) (now : Nat) (qrToken : Str) (shown : Shown) (reply : Reply) : Pod × Bootstrap :=
  match found with
  | none => (pod, .error 404 "Lien invalide ou introuvable.")
  | some sess =>
      match validateDeviceFastPath cfg pod now qrToken shown with
      | .error refusal => (pod, respond now sess shown false refusal.reason (some refusal.message))
      | .ok _ =>
          match syncValidateDeviceOnce repr pod now shown.payload reply with
          | none => (pod, .error 500 "Internal Server Error")
          | some (pod, checked) =>
              if checked.backendAvailable ∧ checked.backendValid = false then
                (pod, respond now sess shown false checked.backendReason
                  (some ("Token invalide, expiré ou révoqué. Veuillez renouveler votre token " ++
                    "(durée + téléchargements) dans l'interface admin.")))
              else (pod, respond now sess shown true "ok".toList none)

/-! ## A history of checks -/

/-- A check of the token of one device, by either reader. -/
structure Check where
  time : Nat
  sync : Bool
  reply : Reply

def Check.outcome (repr : Json → Str) (device : Str) (check : Check) : Outcome :=
  if check.sync then syncOutcome repr check.reply else asyncOutcome repr device check.reply

/-- The pod after the checks of a token, the last one first. -/
def podAfter (repr : Json → Str) (payload : Payload) : List Check → Pod
  | [] => fun _ => none
  | check :: history =>
      if check.sync then
        afterSync repr (podAfter repr payload history) check.time (some payload) check.reply
      else asyncValidateDevice repr (podAfter repr payload history) check.time (some payload)
        check.reply

/-- The state of a device after what was recorded for it. -/
def stateAfter : List (Nat × Outcome) → Option ValidationState
  | [] => none
  | (time, outcome) :: history => outcome.record time (stateAfter history)

/-- What the checks recorded, and when. -/
def outcomes (repr : Json → Str) (device : Str) (history : List Check) : List (Nat × Outcome) :=
  history.map fun check => (check.time, check.outcome repr device)

/-- **A history is what it recorded.** -/
theorem state_of_history {repr : Json → Str} {payload : Payload} (h : payload.deviceId ≠ [])
    (history : List Check) : podAfter repr payload history payload.deviceId =
      stateAfter (outcomes repr payload.deviceId history) := by
  induction history with
  | nil => rfl
  | cons check history ih =>
      simp only [podAfter, outcomes, List.map_cons, stateAfter, Check.outcome]
      split
      · rw [sync_record h, ih]
        rfl
      · rw [async_record h, ih]
        rfl

/-! ## What a history leaves behind -/

/-- The last outcome that was recorded. -/
def lastOutcome (history : List (Nat × Outcome)) : Option Outcome :=
  (history.find? (·.2 != .unchanged)).map (·.2)

/-- Neither a pass nor a refusal. -/
def Outcome.inconclusive : Outcome → Bool
  | .unchanged => true
  | .failed => true
  | _ => false

/-- The first failure since the last pass or refusal; the clock starts at 1. -/
def firstFailure (history : List (Nat × Outcome)) : Option Nat :=
  (((history.takeWhile (·.2.inconclusive)).filter fun e => e.2 == .failed && e.1 != 0).getLast?).map
    (·.1)

/-- The device can still come to a check. -/
def Cleared (cfg : Settings) (now : Nat) (history : List (Nat × Outcome)) : Prop :=
  (∀ reason, lastOutcome history ≠ some (.refused reason)) ∧
    ∀ first, firstFailure history = some first → now - first ≤ cfg.maxFailure

theorem stamp_some {t : Nat} : stamp (some t) = if t = 0 then none else some t := by
  unfold stamp
  by_cases h : t = 0
  · subst h
    rfl
  · rw [if_neg h, Option.filter_some, if_pos (bne_iff_ne.mpr h)]

theorem stamp_ne_zero {ts : Option Nat} {t : Nat} (h : stamp ts = some t) : t ≠ 0 := by
  unfold stamp at h
  rw [Option.filter_eq_some_iff] at h
  exact bne_iff_ne.mp h.2

/-- A failure is the first one if there was none before it. -/
theorem firstFailure_failed (time : Nat) (history : List (Nat × Outcome)) :
    firstFailure ((time, .failed) :: history) =
      if time = 0 then firstFailure history else some ((firstFailure history).getD time) := by
  have hkeep : (Outcome.failed.inconclusive) = true := rfl
  simp only [firstFailure, List.takeWhile_cons, hkeep, if_true, List.filter_cons, beq_self_eq_true,
    Bool.true_and, bne_iff_ne, ne_eq]
  by_cases htime : time = 0
  · rw [if_neg (not_not_intro htime), if_pos htime]
  · rw [if_pos htime, if_neg htime, List.getLast?_cons, Option.map_some]
    congr 1
    cases ((history.takeWhile (·.2.inconclusive)).filter
      fun e => e.2 == .failed && e.1 != 0).getLast? <;> rfl

/-- **The failure the fast path counts from.** -/
theorem firstFailure_of_history (history : List (Nat × Outcome)) :
    stamp ((stateAfter history).bind (·.firstFailureTs)) = firstFailure history := by
  induction history with
  | nil => rfl
  | cons e history ih =>
      obtain ⟨time, outcome⟩ := e
      cases outcome with
      | unchanged => exact ih
      | passed => rfl
      | refused reason => rfl
      | failed =>
          have hstate : (stateAfter ((time, .failed) :: history)).bind (·.firstFailureTs) =
              some ((stamp ((stateAfter history).bind (·.firstFailureTs))).getD time) := rfl
          rw [hstate, ih, firstFailure_failed]
          cases hfirst : firstFailure history with
          | none =>
              rw [Option.getD_none, stamp_some]
          | some first =>
              have hne : first ≠ 0 := stamp_ne_zero (ih.trans hfirst)
              rw [Option.getD_some, stamp_some, if_neg hne]
              split <;> rfl

/-- **The refusal the fast path sees.** -/
theorem invalid_of_history (history : List (Nat × Outcome)) :
    (stateAfter history).any (·.backendInvalid) = true ↔
      ∃ reason, lastOutcome history = some (.refused reason) := by
  induction history with
  | nil => exact iff_of_false Bool.false_ne_true fun ⟨_, h⟩ => by cases h
  | cons e history ih =>
      obtain ⟨time, outcome⟩ := e
      cases outcome with
      | unchanged => exact ih
      | passed => exact iff_of_false Bool.false_ne_true fun ⟨_, h⟩ => by cases h
      | failed => exact iff_of_false Bool.false_ne_true fun ⟨_, h⟩ => by cases h
      | refused reason => exact iff_of_true rfl ⟨reason, rfl⟩

/-- **The fast path after a history.** -/
theorem refusal_of_history {cfg : Settings} {now : Nat} (history : List (Nat × Outcome)) :
    ValidationState.refusal cfg now (stateAfter history) = none ↔ Cleared cfg now history := by
  unfold ValidationState.refusal Cleared
  rw [firstFailure_of_history]
  by_cases hinvalid : (stateAfter history).any (·.backendInvalid) = true
  · obtain ⟨reason, hlast⟩ := (invalid_of_history history).mp hinvalid
    simp only [if_pos hinvalid]
    exact iff_of_false nofun fun h => h.1 reason hlast
  · have hlast : ∀ reason, lastOutcome history ≠ some (.refused reason) :=
      fun reason h => hinvalid ((invalid_of_history history).mpr ⟨reason, h⟩)
    simp only [if_neg hinvalid]
    cases hfirst : firstFailure history with
    | none => exact iff_of_true rfl ⟨hlast, fun first h => by cases h⟩
    | some first =>
        rw [Option.any_some]
        by_cases hlate : cfg.maxFailure < now - first
        · rw [decide_eq_true hlate, if_pos rfl]
          refine iff_of_false nofun fun h => ?_
          have hle := h.2 first rfl
          omega
        · rw [decide_eq_false hlate, if_neg Bool.false_ne_true]
          refine iff_of_true rfl ⟨hlast, fun first' h => ?_⟩
          cases h
          exact Nat.not_lt.mp hlate

/-! ## A device that the authority accepts -/

/-- The payload of a token, with the text of its device id. -/
def payloadOf (tok : Devices.DeviceToken) : Payload :=
  ⟨tok.qrToken, tok.retentionUntil, strOfNat tok.deviceId⟩

theorem payloadOf_deviceId (tok : Devices.DeviceToken) : (payloadOf tok).deviceId ≠ [] :=
  strOfNat_ne_nil tok.deviceId

/-- What the fast path reads in a token that is not past its retention. -/
theorem readToken_of_fresh {tok : Devices.DeviceToken} {now : Nat} (h : tok.fresh now) :
    readToken now (Str.strip tok.qrToken) (.signed (payloadOf tok)) =
      .ok (payloadOf tok).deviceId := by
  have hlate : ¬((payloadOf tok).retentionUntil ≠ 0 ∧ (payloadOf tok).retentionUntil < now) := by
    rintro ⟨hne, hlt⟩
    rcases h with hzero | hle
    · exact hne hzero
    · exact absurd hlt (Nat.not_lt.mpr hle)
  have hsame : ¬Str.strip (payloadOf tok).qrToken ≠ Str.strip tok.qrToken :=
    not_not_intro rfl
  simp only [readToken, if_neg hsame, if_neg hlate, if_neg (payloadOf_deviceId tok)]

/-- `{"valid": true, …}` -/
def Reply.valid (reply : Reply) : Prop :=
  ∃ status data, reply = .response status (some (.obj data)) ∧ status < 500 ∧
    (member data "valid").truthy = true

theorem sync_valid {repr : Json → Str} {pod : Pod} {now : Nat} {payload : Option Payload}
    {reply : Reply} (h : reply.valid) : syncValidateDeviceOnce repr pod now payload reply =
      some (checkPassed pod now payload, ⟨true, true, "ok".toList⟩) := by
  obtain ⟨status, data, rfl, hstatus, hvalid⟩ := h
  simp only [syncValidateDeviceOnce, if_neg (Nat.not_le.mpr hstatus), if_pos hvalid]

section Respond

variable {δ : Type u} {now : Nat} {sess : Session δ} {shown : Shown} {reason : Str}
  {message : Option String}

/-- The session is open, or its status can still be seen. -/
def Session.visible (sess : Session δ) (now : Nat) : Prop :=
  isSessionValid now (some sess) = none ∨ canViewStatus now (some sess) = true

theorem status_of_refused :
    (respond now sess shown false reason message).status ≠ some .enrolled := by
  have hstatus : (respond now sess shown false reason message).status =
      some (if (isSessionValid now (some sess)).isSome ∧ canViewStatus now (some sess) = false then
        .sessionUnavailable else .needsEnrollment) := by
    unfold respond
    cases shown <;> rfl
  rw [hstatus]
  split <;> exact fun h => EnrollStatus.noConfusion (Option.some.inj h)

theorem status_of_ok : (respond now sess shown true reason message).status = some .enrolled ↔
    sess.visible now := by
  have hstatus : (respond now sess shown true reason message).status =
      some (if (isSessionValid now (some sess)).isSome ∧ canViewStatus now (some sess) = false then
        .sessionUnavailable else .enrolled) := by
    unfold respond
    cases shown <;> rfl
  rw [hstatus]
  unfold Session.visible
  by_cases hopen : isSessionValid now (some sess) = none
  · rw [hopen, if_neg fun h => by cases h.1]
    exact iff_of_true rfl (.inl rfl)
  · by_cases hview : canViewStatus now (some sess) = true
    · rw [hview, if_neg fun h => by cases h.2]
      exact iff_of_true rfl (.inr rfl)
    · rw [if_pos ⟨Option.isSome_iff_ne_none.mpr hopen, Bool.eq_false_iff.mpr hview⟩]
      exact iff_of_false (fun h => EnrollStatus.noConfusion (Option.some.inj h))
        fun h => h.elim hopen hview

/-- The recorded state, or the token, refuses the device: nobody is asked. -/
theorem apiDeviceSession_refused {cfg : Settings} {repr : Json → Str} {pod : Pod} {qrToken : Str}
    {refusal : Refusal} {reply : Reply}
    (h : validateDeviceFastPath cfg pod now qrToken shown = .error refusal) :
    (apiDeviceSession cfg repr (some sess) pod now qrToken shown reply).2 =
      respond now sess shown false refusal.reason (some refusal.message) := by
  simp only [apiDeviceSession, h]

theorem apiDeviceSession_valid {cfg : Settings} {repr : Json → Str} {pod : Pod} {qrToken : Str}
    {out : Str × Bool} {reply : Reply} (hreply : reply.valid)
    (h : validateDeviceFastPath cfg pod now qrToken shown = .ok out) :
    (apiDeviceSession cfg repr (some sess) pod now qrToken shown reply).2 =
      respond now sess shown true "ok".toList none := by
  simp only [apiDeviceSession, h, sync_valid hreply, Bool.true_eq_false, and_false, if_false]

end Respond

/-- **A device that the authority accepts** is reported enrolled at its next bootstrap exactly
when nothing that the pod has recorded stands before the check, and its session can be seen. -/
theorem recovers_iff {δ : Type u} {acfg : Devices.Config} {w : Devices.World} {c : Nat}
    {tok : Devices.DeviceToken} {cfg : Settings} {repr : Json → Str} {reply : Reply}
    (hc : w.calls c = .idle) (haccepts : Devices.Accepts acfg w c tok) (hreply : reply.valid)
    (history : List Check) (found : Option (Session δ)) :
    (apiDeviceSession cfg repr found (podAfter repr (payloadOf tok) history) w.now
        (Str.strip tok.qrToken) (.signed (payloadOf tok)) reply).2.status = some .enrolled ↔
      Cleared cfg w.now (outcomes repr (payloadOf tok).deviceId history) ∧
        ∃ sess, found = some sess ∧ sess.visible w.now := by
  have hread := readToken_of_fresh (Devices.begin_of_accepts hc haccepts).2.2
  have hfast := @fastPath_ok_iff (podAfter repr (payloadOf tok) history) (payloadOf tok).deviceId
    w.now cfg (Str.strip tok.qrToken) (.signed (payloadOf tok))
  rw [state_of_history (payloadOf_deviceId tok), refusal_of_history] at hfast
  cases found with
  | none => exact iff_of_false (fun h => by cases h) fun ⟨_, sess, hsess, _⟩ => by cases hsess
  | some sess =>
      cases hresult : validateDeviceFastPath cfg (podAfter repr (payloadOf tok) history) w.now
          (Str.strip tok.qrToken) (.signed (payloadOf tok)) with
      | error refusal =>
          rw [apiDeviceSession_refused hresult]
          refine iff_of_false status_of_refused fun h => ?_
          obtain ⟨due, hdue⟩ := hfast.mpr ⟨hread, h.1⟩
          rw [hresult] at hdue
          cases hdue
      | ok out =>
          have hcleared : Cleared cfg w.now (outcomes repr (payloadOf tok).deviceId history) := by
            obtain ⟨device, due⟩ := out
            have hdevice : device = (payloadOf tok).deviceId :=
              device_of_readToken (fastPath_ok_iff.mp ⟨due, hresult⟩).1
            subst hdevice
            exact (hfast.mp ⟨due, hresult⟩).2
          rw [apiDeviceSession_valid hreply hresult, status_of_ok]
          refine ⟨fun hvisible => ⟨hcleared, sess, rfl, hvisible⟩, ?_⟩
          rintro ⟨-, sess', hsess, hvisible⟩
          cases hsess
          exact hvisible

/-- `{"valid": true}` -/
def isValid : Reply := .response 200 (some (.obj [("valid".toList, .bool true)]))

theorem isValid_valid : isValid.valid := ⟨200, _, rfl, by decide, by decide⟩

/-- The upload session of the code, open for ten minutes. -/
def openSession : Session Nat := newSession ['q'] ['c'] 10 600 600

/-- A device that was never checked. -/
theorem confirmed_recovers : ∃ w, TSys.run (Devices.step .standard) Devices.World.start
    Devices.oneConfirmed = some w ∧
      (apiDeviceSession .standard (fun _ => []) (some openSession) (fun _ => none) w.now ['q']
        (.signed (payloadOf (Devices.tokenOf 0))) isValid).2.status = some .enrolled := by
  obtain ⟨w, hw⟩ : ∃ w, TSys.run (Devices.step .standard) Devices.World.start
      Devices.oneConfirmed = some w := ⟨_, rfl⟩
  have hcall : (TSys.run (Devices.step .standard) Devices.World.start
      Devices.oneConfirmed).map (·.calls 0) = some .idle := rfl
  have hnow : (TSys.run (Devices.step .standard) Devices.World.start
      Devices.oneConfirmed).map (·.now) = some 0 := rfl
  have haccepts : Devices.Accepts .standard w 0 (Devices.tokenOf 0) :=
    Devices.accepts_of_run .active none false hw rfl
  rw [hw] at hcall hnow
  have hnow : w.now = 0 := Option.some.inj hnow
  refine ⟨w, hw, (recovers_iff (Option.some.inj hcall) haccepts isValid_valid []
    (some openSession)).mpr ⟨⟨fun reason h => ?_, fun first h => ?_⟩, openSession, rfl, ?_⟩⟩
  · cases h
  · cases h
  · rw [hnow]
    exact .inl rfl

/-- The QR code of a confirmed device ends after five minutes, and is renewed for an hour. -/
def expiredThenRenewed : List Devices.Act :=
  Devices.oneConfirmed ++ [.wait 400, .request 1 (.extendToken ['u'] ['q'] (some 60)),
    .query 1 none, .commit 1]

/-- What the pod heard of the device before that. -/
def heardExpired : List Check := [⟨400, true, .response 410 (some (notValid "qr_expired"))⟩]

/-- **A renewed device stays out**: the refusal that asks for the renewal is still recorded, and
keeps the pod from asking again. -/
theorem renewed_and_refused :
    ¬∀ acts w (c : Nat) tok (history : List Check) (sess : Session Nat),
      TSys.run (Devices.step .standard) Devices.World.start acts = some w →
      w.calls c = .idle → Devices.Accepts .standard w c tok → sess.visible w.now →
      (apiDeviceSession .standard (fun _ => []) (some sess)
        (podAfter (fun _ => []) (payloadOf tok) history) w.now (Str.strip tok.qrToken)
        (.signed (payloadOf tok)) isValid).2.status = some .enrolled := by
  intro h
  obtain ⟨w, hw⟩ : ∃ w, TSys.run (Devices.step .standard) Devices.World.start
      expiredThenRenewed = some w := ⟨_, rfl⟩
  have hcall : (TSys.run (Devices.step .standard) Devices.World.start
      expiredThenRenewed).map (·.calls 0) = some .idle := rfl
  have hnow : (TSys.run (Devices.step .standard) Devices.World.start
      expiredThenRenewed).map (·.now) = some 400 := rfl
  have haccepts : Devices.Accepts .standard w 0 (Devices.tokenOf 0) :=
    Devices.accepts_of_run .active
      (some { Devices.tokenOf 0 with retentionUntil := 400 + 168 * 3600 }) false hw rfl
  rw [hw] at hcall hnow
  have hnow : w.now = 400 := Option.some.inj hnow
  have henrolled := h expiredThenRenewed w 0 (Devices.tokenOf 0) heardExpired openSession hw
    (Option.some.inj hcall) haccepts (by rw [hnow]; exact .inl rfl)
  rw [recovers_iff (Option.some.inj hcall) haccepts isValid_valid] at henrolled
  exact henrolled.1.1 "qr_expired".toList (by decide)

end MesReunions.Upload
