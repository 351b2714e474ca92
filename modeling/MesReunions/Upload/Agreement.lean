import MesReunions.Upload.Validation

/-!
# Two readers of one reply

`_async_validate_device` and `_sync_validate_device_once` read the same replies and write the
same state, each with a classification of its own.

* `Outcome` — what a reader makes of a reply: `asyncOutcome`, `syncOutcome`;
* **`async_record`**, **`sync_record`** — that is all they do to the state of the device.
* `Agreed` — the replies that both record alike.
* **`agreement`** — these are all, and a definitive refusal is forgotten at the first check
  that fails.
* **`refused_elsewhere_and_forgotten`** — a reply on which they differ, and such a refusal.
-/

namespace MesReunions.Upload

/-! ## Outcomes -/

/-- What a check does to the state of its device. -/
inductive Outcome where
  | unchanged
  | passed
  | failed
  | refused (reason : Str)
  deriving DecidableEq

/-- The reason as it is recorded. -/
def recordedReason (reason : Str) : Str :=
  Str.strip (if reason = [] then "invalid".toList else reason)

def Outcome.record (now : Nat) (state : Option ValidationState) :
    Outcome → Option ValidationState
  | .unchanged => state
  | .passed => some (.checked state true now)
  | .failed => some (.checked state false now)
  | .refused reason => some (.refused state reason now)

/-- Two outcomes are told apart by what they record. -/
def Outcome.recorded : Outcome → Outcome
  | .refused reason => .refused (recordedReason reason)
  | o => o

theorem record_congr {o o' : Outcome} (h : o.recorded = o'.recorded) (now : Nat)
    (state : Option ValidationState) : o.record now state = o'.record now state := by
  cases o with
  | unchanged | passed | failed =>
      cases o' with
      | unchanged | passed | failed => first | rfl | cases h
      | refused reason' => cases h
  | refused reason =>
      cases o' with
      | unchanged | passed | failed => cases h
      | refused reason' =>
          have hreason : recordedReason reason = recordedReason reason' := Outcome.refused.inj h
          show some (ValidationState.refused state reason now) =
            some (ValidationState.refused state reason' now)
          unfold recordedReason at hreason
          unfold ValidationState.refused
          rw [hreason]

/-- **Outcomes that record alike** from a device that was never checked are one. -/
theorem recorded_of_record {o o' : Outcome} {now : Nat}
    (h : o.record now none = o'.record now none) : o.recorded = o'.recorded := by
  -- a refusal is marked as one, and a failure has a first one
  have hrefused : ∀ {s s' : ValidationState}, some s = some s' →
      s.backendInvalid = s'.backendInvalid :=
    fun h => congrArg ValidationState.backendInvalid (Option.some.inj h)
  have hfailed : ∀ {s s' : ValidationState}, some s = some s' →
      s.firstFailureTs.isSome = s'.firstFailureTs.isSome :=
    fun h => congrArg (fun s => s.firstFailureTs.isSome) (Option.some.inj h)
  cases o with
  | unchanged =>
      cases o' with
      | unchanged => rfl
      | passed | failed | refused => cases h
  | passed =>
      cases o' with
      | passed => rfl
      | unchanged => cases h
      | failed => exact absurd (hfailed h) Bool.false_ne_true
      | refused => exact absurd (hrefused h) Bool.false_ne_true
  | failed =>
      cases o' with
      | failed => rfl
      | unchanged => cases h
      | passed => exact absurd (hfailed h).symm Bool.false_ne_true
      | refused => exact absurd (hrefused h) Bool.false_ne_true
  | refused reason =>
      cases o' with
      | refused reason' =>
          have hreason := congrArg ValidationState.backendReason (Option.some.inj h)
          exact congrArg Outcome.refused hreason
      | unchanged => cases h
      | passed | failed => exact absurd (hrefused h).symm Bool.false_ne_true

/-! ## Classifications -/

section Classifications

variable (repr : Json → Str)

/-- What `_async_validate_device` makes of a reply, for the device of the token. -/
def asyncOutcome (device : Str) : Reply → Outcome
  | .unreachable => .failed
  | .response status body =>
      if 400 ≤ status then
        if status < 500 ∧ reasonOf repr body ∈ definitiveReasons then
          .refused (reasonOf repr body)
        else .failed
      else
        match body with
        | some (.obj data) =>
            if textOf repr (either (member data "device_id") (.str [])) ≠ device then .unchanged
            else if (member data "valid").truthy then .passed
            else .refused (textOf repr (either (member data "reason") (.str "invalid".toList)))
        | _ => .failed

/-- What `_sync_validate_device_once` makes of it. -/
def syncOutcome : Reply → Outcome
  | .unreachable => .failed
  | .response status body =>
      let refused := Outcome.refused
        (if reasonOf repr body = [] then "invalid".toList else reasonOf repr body)
      if 500 ≤ status then .failed
      else
        match body with
        | none => refused
        | some (.obj data) => if (member data "valid").truthy then .passed else refused
        | some _ => .unchanged

variable {repr} {pod : Pod} {now : Nat} {payload : Payload}

theorem checkFailed_record (h : payload.deviceId ≠ []) :
    checkFailed pod now (some payload) payload.deviceId =
      Outcome.failed.record now (pod payload.deviceId) := by
  simp only [checkFailed, if_neg h]
  exact setValidationState_self false

/-- **`_async_validate_device` records its outcome.** -/
theorem async_record (h : payload.deviceId ≠ []) (reply : Reply) :
    asyncValidateDevice repr pod now (some payload) reply payload.deviceId =
      (asyncOutcome repr payload.deviceId reply).record now (pod payload.deviceId) := by
  cases reply with
  | unreachable => exact checkFailed_record h
  | response status body =>
      simp only [asyncValidateDevice, asyncOutcome]
      by_cases hstatus : 400 ≤ status
      · simp only [if_pos hstatus]
        split
        · exact setValidationStateInvalid_self _
        · exact setValidationState_self false
      · simp only [if_neg hstatus]
        cases body with
        | none => exact checkFailed_record h
        | some data =>
            cases data with
            | obj data =>
                -- the body names its own device, which need not be that of the token
                by_cases hdevice :
                    textOf repr (either (member data "device_id") (.str [])) = payload.deviceId
                · simp only [hdevice, if_neg h, ne_eq, not_true_eq_false, if_false]
                  split
                  · exact setValidationState_self true
                  · exact setValidationStateInvalid_self _
                · simp only [ne_eq, hdevice, not_false_eq_true, if_true]
                  split
                  · rfl
                  · split
                    · exact setValidationState_of_ne true (Ne.symm hdevice)
                    · exact setValidationStateInvalid_of_ne _ (Ne.symm hdevice)
            | null | bool | int | float | str | list => exact checkFailed_record h

theorem checkRefused_record (h : payload.deviceId ≠ []) (reason : Str) :
    checkRefused pod now (some payload) reason payload.deviceId =
      (Outcome.refused (if reason = [] then "invalid".toList else reason)).record now
        (pod payload.deviceId) := by
  simp only [checkRefused, if_neg h]
  exact setValidationStateInvalid_self _

theorem checkPassed_record (h : payload.deviceId ≠ []) :
    checkPassed pod now (some payload) payload.deviceId =
      Outcome.passed.record now (pod payload.deviceId) := by
  simp only [checkPassed, if_neg h]
  exact setValidationState_self true

/-- **So does `_sync_validate_device_once`.** -/
theorem sync_record (h : payload.deviceId ≠ []) (reply : Reply) :
    afterSync repr pod now (some payload) reply payload.deviceId =
      (syncOutcome repr reply).record now (pod payload.deviceId) := by
  cases reply with
  | unreachable => exact checkFailed_record h
  | response status body =>
      simp only [afterSync, syncValidateDeviceOnce, syncOutcome]
      by_cases hstatus : 500 ≤ status
      · simp only [if_pos hstatus]
        exact checkFailed_record h
      · simp only [if_neg hstatus]
        cases body with
        | none => exact checkRefused_record h _
        | some data =>
            cases data with
            | obj data =>
                by_cases hvalid : (member data "valid").truthy = true
                · simp only [if_pos hvalid]
                  exact checkPassed_record h
                · simp only [if_neg hvalid]
                  exact checkRefused_record h _
            | null | bool | int | float | str | list => rfl

end Classifications

/-! ## The replies they agree on -/

section Agreement

variable (repr : Json → Str)

/-- Both leave the device of the token in the same state, whatever it was in. -/
def Agree (payload : Payload) (reply : Reply) : Prop :=
  ∀ pod now, asyncValidateDevice repr pod now (some payload) reply payload.deviceId =
    afterSync repr pod now (some payload) reply payload.deviceId

/-- A refusal below 400 has one reason for both: its `reason` is no blank text, and without
one its `error` says nothing but `invalid`. -/
def SameReason (data : List (Str × Json)) : Prop :=
  if (member data "reason").truthy then
    textOf repr (member data "reason") = [] ∨ Str.strip (textOf repr (member data "reason")) ≠ []
  else reasonOf repr (some (.obj data)) = [] ∨
    reasonOf repr (some (.obj data)) = "invalid".toList

/-- The replies that both record alike: none, from 500 on, a refusal for one of the definitive
reasons, and below 400 one that names the device. -/
def Agreed (device : Str) : Reply → Prop
  | .unreachable => True
  | .response status body => 500 ≤ status ∨ ∃ data, body = some (.obj data) ∧
      if 400 ≤ status then
        (member data "valid").truthy = false ∧ reasonOf repr body ∈ definitiveReasons
      else textOf repr (either (member data "device_id") (.str [])) = device ∧
        ((member data "valid").truthy = true ∨ SameReason repr data)

variable {repr}

theorem agree_iff_recorded {payload : Payload} (h : payload.deviceId ≠ []) (reply : Reply) :
    Agree repr payload reply ↔
      (asyncOutcome repr payload.deviceId reply).recorded = (syncOutcome repr reply).recorded := by
  constructor
  · intro hagree
    have hnew := hagree (fun _ => none) 0
    rw [async_record h, sync_record h] at hnew
    exact recorded_of_record hnew
  · intro hrecorded pod now
    rw [async_record h, sync_record h]
    exact record_congr hrecorded now _

theorem nil_not_definitive : [] ∉ definitiveReasons := by decide

theorem strip_invalid : Str.strip "invalid".toList = "invalid".toList := by decide

theorem recordedReason_nil : recordedReason [] = "invalid".toList := by
  unfold recordedReason
  rw [if_pos rfl, strip_invalid]

theorem recordedReason_of_ne {reason : Str} (h : reason ≠ []) :
    recordedReason reason = Str.strip reason := by
  unfold recordedReason
  rw [if_neg h]

/-- What `_sync_validate_device_once` records of a stripped reason. -/
theorem recordedReason_or {reason : Str} (h : Str.strip reason = reason) :
    recordedReason (if reason = [] then "invalid".toList else reason) =
      if reason = [] then "invalid".toList else reason := by
  split
  · rw [recordedReason_of_ne (by decide), strip_invalid]
  · rename_i hne
    rw [recordedReason_of_ne hne, h]

theorem strip_reasonOf (body : Option Json) :
    Str.strip (reasonOf repr body) = reasonOf repr body := by
  unfold reasonOf
  split
  · exact Str.strip_strip _
  · exact Str.strip_nil

theorem sameReason_iff (data : List (Str × Json)) :
    recordedReason (textOf repr (either (member data "reason") (.str "invalid".toList))) =
        recordedReason (if reasonOf repr (some (.obj data)) = [] then "invalid".toList
          else reasonOf repr (some (.obj data))) ↔ SameReason repr data := by
  rw [recordedReason_or (strip_reasonOf _)]
  unfold SameReason
  by_cases hreason : (member data "reason").truthy = true
  · have hboth : reasonOf repr (some (.obj data)) =
        Str.strip (textOf repr (member data "reason")) := by
      simp only [reasonOf, either, if_pos hreason]
    have hasync : either (member data "reason") (.str "invalid".toList) = member data "reason" :=
      if_pos hreason
    rw [if_pos hreason, hboth, hasync]
    by_cases htext : textOf repr (member data "reason") = []
    · rw [htext, recordedReason_nil, Str.strip_nil, if_pos rfl]
      exact iff_of_true rfl (.inl rfl)
    · rw [recordedReason_of_ne htext]
      by_cases hblank : Str.strip (textOf repr (member data "reason")) = []
      · rw [hblank, if_pos rfl]
        exact iff_of_false (by decide) fun h => h.elim htext fun hne => hne rfl
      · rw [if_neg hblank]
        exact iff_of_true rfl (.inr hblank)
  · have hasync : either (member data "reason") (.str "invalid".toList) =
        .str "invalid".toList := if_neg hreason
    rw [if_neg hreason, hasync]
    have hne : "invalid".toList ≠ [] := by decide
    have hinvalid : recordedReason (textOf repr (.str "invalid".toList)) = "invalid".toList :=
      (recordedReason_of_ne hne).trans strip_invalid
    rw [hinvalid]
    by_cases hnone : reasonOf repr (some (.obj data)) = []
    · rw [if_pos hnone]
      exact iff_of_true rfl (.inl hnone)
    · rw [if_neg hnone]
      exact ⟨fun h => .inr h.symm, fun h => (h.resolve_left hnone).symm⟩

/-! A body is no JSON, a dictionary, or JSON of another kind. -/

theorem sync_none {status : Nat} (h500 : ¬500 ≤ status) :
    syncOutcome repr (.response status none) = .refused "invalid".toList := by
  simp only [syncOutcome, if_neg h500]
  rfl

theorem sync_obj {status : Nat} (h500 : ¬500 ≤ status) (data : List (Str × Json)) :
    syncOutcome repr (.response status (some (.obj data))) =
      if (member data "valid").truthy then .passed
      else .refused (if reasonOf repr (some (.obj data)) = [] then "invalid".toList
        else reasonOf repr (some (.obj data))) := by
  simp only [syncOutcome, if_neg h500]

theorem sync_other {status : Nat} (h500 : ¬500 ≤ status) {v : Json} (hv : v.isObj = false) :
    syncOutcome repr (.response status (some v)) = .unchanged := by
  simp only [syncOutcome, if_neg h500]
  cases v with
  | obj => cases hv
  | null | bool | int | float | str | list => rfl

theorem reasonOf_other {v : Json} (hv : v.isObj = false) : reasonOf repr (some v) = [] := by
  cases v with
  | obj => cases hv
  | null | bool | int | float | str | list => rfl

theorem async_4xx {device : Str} {status : Nat} {body : Option Json} (h400 : 400 ≤ status)
    (h500 : ¬500 ≤ status) : asyncOutcome repr device (.response status body) =
      if reasonOf repr body ∈ definitiveReasons then .refused (reasonOf repr body)
      else .failed := by
  simp only [asyncOutcome, if_pos h400, Nat.lt_of_not_le h500, true_and]

theorem async_obj {device : Str} {status : Nat} (h400 : ¬400 ≤ status)
    (data : List (Str × Json)) : asyncOutcome repr device (.response status (some (.obj data))) =
      if textOf repr (either (member data "device_id") (.str [])) ≠ device then .unchanged
      else if (member data "valid").truthy then .passed
      else .refused (textOf repr (either (member data "reason") (.str "invalid".toList))) := by
  simp only [asyncOutcome, if_neg h400]

theorem async_other {device : Str} {status : Nat} (h400 : ¬400 ≤ status) {v : Json}
    (hv : v.isObj = false) : asyncOutcome repr device (.response status (some v)) = .failed := by
  simp only [asyncOutcome, if_neg h400]
  cases v with
  | obj => cases hv
  | null | bool | int | float | str | list => rfl

theorem recorded_of_4xx {device : Str} {status : Nat} {body : Option Json}
    (h400 : 400 ≤ status) (h500 : ¬500 ≤ status) :
    (asyncOutcome repr device (.response status body)).recorded =
        (syncOutcome repr (.response status body)).recorded ↔
      ∃ data, body = some (.obj data) ∧ (member data "valid").truthy = false ∧
        reasonOf repr body ∈ definitiveReasons := by
  rw [async_4xx h400 h500]
  cases body with
  | none =>
      have hnil : reasonOf repr none ∉ definitiveReasons := nil_not_definitive
      rw [sync_none h500, if_neg hnil]
      exact iff_of_false (fun h => Outcome.noConfusion h) nofun
  | some v =>
      by_cases hv : v.isObj = true
      · obtain ⟨data, rfl⟩ : ∃ data, v = .obj data := by
          cases v with
          | obj data => exact ⟨data, rfl⟩
          | null | bool | int | float | str | list => cases hv
        rw [sync_obj h500]
        by_cases hreason : reasonOf repr (some (.obj data)) ∈ definitiveReasons
        · have hne : reasonOf repr (some (.obj data)) ≠ [] :=
            fun hnil => nil_not_definitive (hnil ▸ hreason)
          rw [if_pos hreason, if_neg hne]
          split
          · rename_i hvalid
            refine iff_of_false (fun h => Outcome.noConfusion h) ?_
            rintro ⟨data', hdata, hinvalid, -⟩
            cases hdata
            rw [hvalid] at hinvalid
            cases hinvalid
          · rename_i hvalid
            exact iff_of_true rfl ⟨data, rfl, Bool.eq_false_iff.mpr hvalid, hreason⟩
        · rw [if_neg hreason]
          refine iff_of_false ?_ fun ⟨_, _, _, h⟩ => hreason h
          split <;> exact fun h => Outcome.noConfusion h
      · have hv := Bool.eq_false_iff.mpr hv
        rw [sync_other h500 hv, reasonOf_other hv, if_neg nil_not_definitive]
        refine iff_of_false (fun h => Outcome.noConfusion h) ?_
        rintro ⟨data, hdata, -⟩
        cases hdata
        cases hv

theorem recorded_of_2xx {device : Str} {status : Nat} {body : Option Json}
    (h400 : ¬400 ≤ status) :
    (asyncOutcome repr device (.response status body)).recorded =
        (syncOutcome repr (.response status body)).recorded ↔
      ∃ data, body = some (.obj data) ∧
        textOf repr (either (member data "device_id") (.str [])) = device ∧
          ((member data "valid").truthy = true ∨ SameReason repr data) := by
  have h500 : ¬500 ≤ status := by omega
  cases body with
  | none =>
      rw [sync_none h500]
      have hasync : asyncOutcome repr device (.response status none) = .failed := by
        simp only [asyncOutcome, if_neg h400]
      rw [hasync]
      exact iff_of_false (fun h => Outcome.noConfusion h) nofun
  | some v =>
      by_cases hv : v.isObj = true
      · obtain ⟨data, rfl⟩ : ∃ data, v = .obj data := by
          cases v with
          | obj data => exact ⟨data, rfl⟩
          | null | bool | int | float | str | list => cases hv
        rw [sync_obj h500, async_obj h400]
        by_cases hdevice : textOf repr (either (member data "device_id") (.str [])) = device
        · rw [if_neg (not_not_intro hdevice)]
          by_cases hvalid : (member data "valid").truthy = true
          · rw [if_pos hvalid, if_pos hvalid]
            exact iff_of_true rfl ⟨data, rfl, hdevice, .inl hvalid⟩
          · rw [if_neg hvalid, if_neg hvalid]
            constructor
            · intro hrefused
              have hreason := Outcome.refused.inj hrefused
              exact ⟨data, rfl, hdevice, .inr ((sameReason_iff data).mp hreason)⟩
            · rintro ⟨data', hdata, -, hsame⟩
              cases hdata
              exact congrArg Outcome.refused
                ((sameReason_iff data).mpr (hsame.resolve_left hvalid))
        · rw [if_pos hdevice]
          refine iff_of_false ?_ ?_
          · split <;> exact fun h => Outcome.noConfusion h
          · rintro ⟨data', hdata, hsame, -⟩
            cases hdata
            exact hdevice hsame
      · have hv := Bool.eq_false_iff.mpr hv
        rw [sync_other h500 hv, async_other h400 hv]
        refine iff_of_false (fun h => Outcome.noConfusion h) ?_
        rintro ⟨data, hdata, -⟩
        cases hdata
        cases hv

/-- **The two agree on these replies**, and on no others. -/
theorem agree_iff {payload : Payload} (h : payload.deviceId ≠ []) (reply : Reply) :
    Agree repr payload reply ↔ Agreed repr payload.deviceId reply := by
  rw [agree_iff_recorded h]
  cases reply with
  | unreachable => exact iff_of_true rfl trivial
  | response status body =>
      simp only [Agreed]
      by_cases h500 : 500 ≤ status
      · have hasync : asyncOutcome repr payload.deviceId (.response status body) = .failed := by
          simp only [asyncOutcome, if_pos (Nat.le_trans (by decide : 400 ≤ 500) h500),
            Nat.not_lt.mpr h500, false_and, if_false]
        have hsync : syncOutcome repr (.response status body) = .failed := by
          simp only [syncOutcome, if_pos h500]
        rw [hasync, hsync]
        exact iff_of_true rfl (.inl h500)
      · rw [or_iff_right h500]
        by_cases h400 : 400 ≤ status
        · simp only [if_pos h400]
          exact recorded_of_4xx h400 h500
        · simp only [if_neg h400]
          exact recorded_of_2xx h400

end Agreement

/-! ## A refusal, and then a failure -/

section Sticks

variable (cfg : Settings) (repr : Json → Str) (payload : Payload)

/-- A timeout, a network error or a 5xx. -/
def Reply.transient : Reply → Prop
  | .unreachable => True
  | .response status _ => 500 ≤ status

/-- A device that was definitively refused is not accepted after a check that failed. -/
def Sticks (qrToken : Str) (now : Nat) : Prop :=
  ∀ (pod : Pod) state reason at' (reply : Reply),
    pod payload.deviceId = some (.refused state reason at') → reply.transient →
      ∀ out, validateDeviceFastPath cfg (asyncValidateDevice repr pod now (some payload) reply)
        now qrToken (.signed payload) ≠ .ok out

variable {cfg repr payload}

theorem async_transient {device : Str} {reply : Reply} (h : reply.transient) :
    asyncOutcome repr device reply = .failed := by
  cases reply with
  | unreachable => rfl
  | response status body =>
      have h500 : 500 ≤ status := h
      simp only [asyncOutcome, if_pos (Nat.le_trans (by decide : 400 ≤ 500) h500),
        Nat.not_lt.mpr h500, false_and, if_false]

theorem device_of_readToken {now : Nat} {qrToken device : Str}
    (h : readToken now qrToken (.signed payload) = .ok device) : device = payload.deviceId := by
  simp only [readToken] at h
  split at h
  · cases h
  · split at h
    · cases h
    · split at h
      · cases h
      · exact (Except.ok.inj h).symm

/-- The first failure after a refusal refuses nothing. -/
theorem refusal_of_failed (state : Option ValidationState) (reason : Str) (at' now : Nat) :
    ValidationState.refusal cfg now
      (some (.checked (some (.refused state reason at')) false now)) = none := by
  have hinvalid : (ValidationState.checked (some (.refused state reason at')) false
    now).backendInvalid = false := rfl
  have hfirst : (ValidationState.checked (some (.refused state reason at')) false
    now).firstFailureTs = some now := rfl
  have hstamp : (stamp (some now)).any (cfg.maxFailure < now - ·) = false := by
    cases hnow : stamp (some now) with
    | none => rfl
    | some t =>
        have ht : t = now := by
          unfold stamp at hnow
          rw [Option.filter_eq_some_iff] at hnow
          exact (Option.some.inj hnow.1).symm
        simp only [Option.any_some, ht, Nat.sub_self, Nat.not_lt_zero, decide_false]
  simp only [ValidationState.refusal, Option.any_some, Option.bind_some, hinvalid, hfirst, hstamp,
    Bool.false_eq_true, if_false]

/-- **A refusal never sticks** for a token that passes by itself. -/
theorem sticks_iff (h : payload.deviceId ≠ []) (qrToken : Str) (now : Nat) :
    Sticks cfg repr payload qrToken now ↔
      ∀ device, readToken now qrToken (.signed payload) ≠ .ok device := by
  constructor
  · intro hsticks device hread
    have hdevice := device_of_readToken hread
    subst hdevice
    let pod : Pod := fun _ => some (.refused none [] 0)
    have hstate : asyncValidateDevice repr pod now (some payload) .unreachable
        payload.deviceId = some (.checked (some (.refused none [] 0)) false now) := by
      rw [async_record h]
      rfl
    have hfast := @fastPath_ok_iff (asyncValidateDevice repr pod now (some payload) .unreachable)
      payload.deviceId now cfg qrToken (.signed payload)
    obtain ⟨due, hdue⟩ := hfast.mpr ⟨hread, hstate ▸ refusal_of_failed none [] 0 now⟩
    exact hsticks pod none [] 0 .unreachable rfl trivial _ hdue
  · intro hread pod state reason at' reply _ _ out hout
    exact hread out.1 (fastPath_ok_iff.mp ⟨out.2, hout⟩).1

end Sticks

/-- **Two readers of one reply.** They agree on the replies of `Agreed` and on no others; a
definitive refusal outlives a check that fails only where the token is refused by itself. -/
theorem agreement {cfg : Settings} {repr : Json → Str} {payload : Payload}
    (h : payload.deviceId ≠ []) :
    (∀ reply, Agree repr payload reply ↔ Agreed repr payload.deviceId reply) ∧
      ∀ qrToken now, Sticks cfg repr payload qrToken now ↔
        ∀ device, readToken now qrToken (.signed payload) ≠ .ok device :=
  ⟨agree_iff h, sticks_iff h⟩

/-- A token of device `d` for the code `q`. -/
def somePayload : Payload := ⟨['q'], 0, ['d']⟩

/-- `{"valid": false, "reason": reason}` -/
def notValid (reason : String) : Json :=
  .obj [("valid".toList, .bool false), ("reason".toList, .str reason.toList)]

theorem agree_on_revoked :
    Agree (fun _ => []) somePayload (.response 403 (some (notValid "revoked"))) :=
  ((@agreement .standard _ somePayload (by decide)).1 _).mpr
    (.inr ⟨_, rfl, (if_pos (by decide)).mpr ⟨by decide, by decide⟩⟩)

/-- **A device whose code is another's**: 409 `session_already_bound` blocks it on one path and
not on the other. And a revoked device is accepted after a timeout. -/
theorem refused_elsewhere_and_forgotten :
    ¬Agree (fun _ => []) somePayload (.response 409 (some (notValid "session_already_bound"))) ∧
      ¬Sticks .standard (fun _ => []) somePayload ['q'] 1 := by
  constructor
  · rw [agree_iff (by decide)]
    rintro (h | ⟨data, hdata, hagreed⟩)
    · exact absurd h (by decide)
    · cases hdata
      rw [if_pos (by decide)] at hagreed
      exact absurd hagreed.2 (by decide)
  · rw [sticks_iff (by decide)]
    intro h
    exact h ['d'] rfl

end MesReunions.Upload
