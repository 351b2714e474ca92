import MesReunions.Devices.Reads

/-!
# A heartbeat that nothing disturbs

* `run_request`, `run_query` — the steps of a request that runs alone.
* `Accepts` — `validate-device` says `{"valid": true}` to a token, in a state.
* **`accepts_iff`** — what it depends on, for a device whose row is active: its own expiry and
  the one of its QR code.
* `Named`, **`admits_of_run`** — in a reachable state the row of a token lets it through while it
  is active.
-/

namespace MesReunions.Devices

open TSys

/-! ## A request alone -/

section Alone

variable {cfg : Config} {w : World} {c : Nat}

theorem proceed_proceed (x : Phase) (y : Phase ⊕ Answer) :
    (w.proceed c (.inl x)).proceed c y = w.proceed c y := by
  cases y with
  | inl p =>
      show ({ w with calls := Function.update (Function.update w.calls c x) c p } : World) = _
      rw [Function.update_idem]
      rfl
  | inr a =>
      show ({ w with
        calls := Function.update (Function.update w.calls c x) c .idle
        log := (c, a) :: w.log } : World) = _
      rw [Function.update_idem]
      rfl

/-- What a request reads does not depend on where the requests are. -/
theorem query_proceed (x : Phase ⊕ Answer) (pick : Option Nat) (p : Phase) :
    (w.proceed c x).query cfg pick p = w.query cfg pick p := by
  cases x <;> cases p <;> rfl

theorem run_request {req : Request} {acts : List Act} (hc : w.calls c = .idle) :
    run (step cfg) w (.request c req :: acts) =
      run (step cfg) (w.proceed c (w.begin cfg req)) acts := by
  have hstep : step cfg w (.request c req) = some (w.proceed c (w.begin cfg req)) := by
    simp only [step, hc]
  simp only [run, hstep]

theorem run_query {p : Phase} {pick : Option Nat} {acts : List Act} :
    run (step cfg) (w.proceed c (.inl p)) (.query c pick :: acts) =
      (w.query cfg pick p).bind fun next => run (step cfg) (w.proceed c next) acts := by
  have hstep : step cfg (w.proceed c (.inl p)) (.query c pick) =
      (w.query cfg pick p).map (w.proceed c) := by
    simp only [step, proceed_calls, query_proceed]
    congr 1
    funext next
    exact proceed_proceed p next
  simp only [run, hstep]
  cases w.query cfg pick p <;> rfl

/-- After its answer a request reads nothing. -/
theorem run_answered {a : Answer} {pick : Option Nat} {acts : List Act} :
    run (step cfg) (w.proceed c (.inr a)) (.query c pick :: acts) = none := by
  have hstep : step cfg (w.proceed c (.inr a)) (.query c pick) = none := by
    simp only [step, proceed_answer_calls]
    rfl
  simp only [run, hstep]

theorem run_commit_answered {a : Answer} {acts : List Act} :
    run (step cfg) (w.proceed c (.inr a)) (.commit c :: acts) = none := by
  have hstep : step cfg (w.proceed c (.inr a)) (.commit c) = none := by
    simp only [step, proceed_answer_calls]
    rfl
  simp only [run, hstep]

end Alone

/-! ## Heartbeats -/

/-- A heartbeat; a pending row takes one look more. -/
def validating (c : Nat) (tok : DeviceToken) (pending : Bool) : List Act :=
  [.request c (.validateDevice tok), .query c none, .query c none] ++
    (if pending then [.query c none] else []) ++ [.commit c]

/-- Request `c`, on its own, gets `{"valid": true}` for the token. -/
def Accepts (cfg : Config) (w : World) (c : Nat) (tok : DeviceToken) : Prop :=
  ∃ pending w' status refreshed, run (step cfg) w (validating c tok pending) = some w' ∧
    w'.log = (c, .valid tok status refreshed) :: w.log

/-- The retention that is frozen in a token has not passed. -/
def DeviceToken.fresh (tok : DeviceToken) (now : Nat) : Prop :=
  tok.retentionUntil = 0 ∨ now ≤ tok.retentionUntil

/-- The QR code is still there, and has not expired. -/
def World.codeLives (w : World) (qrToken : Str) : Prop :=
  ∃ code, w.code qrToken = some code ∧ w.now ≤ code.expiresAt

theorem begin_validate {cfg : Config} {w : World} {tok : DeviceToken} (hsigned : tok ∈ w.signed)
    (hqr : Str.strip tok.qrToken ≠ []) (hfresh : tok.fresh w.now) :
    w.begin cfg (.validateDevice tok) = .inl (.validateDevice tok) := by
  have hlate : ¬(tok.retentionUntil ≠ 0 ∧ tok.retentionUntil < w.now) := by
    rintro ⟨hne, hlt⟩
    rcases hfresh with hzero | hle
    · exact hne hzero
    · omega
  simp only [World.begin, validateDevice, hsigned, not_true_eq_false, if_false, if_neg hqr,
    if_neg hlate]

/-- **A token that is accepted** was signed, names a QR code, and is not past its retention. -/
theorem begin_of_accepts {cfg : Config} {w : World} {c : Nat} {tok : DeviceToken}
    (hc : w.calls c = .idle) (h : Accepts cfg w c tok) :
    tok ∈ w.signed ∧ Str.strip tok.qrToken ≠ [] ∧ tok.fresh w.now := by
  obtain ⟨pending, w', status, refreshed, hrun, -⟩ := h
  have hnext : ∀ a, w.begin cfg (.validateDevice tok) ≠ .inr a := by
    intro a ha
    have hnone : run (step cfg) w (validating c tok pending) = none := by
      show run (step cfg) w (.request c (.validateDevice tok) :: _) = none
      rw [run_request hc, ha]
      exact run_answered
    rw [hnone] at hrun
    cases hrun
  simp only [World.begin, validateDevice] at hnext
  by_cases hsigned : tok ∈ w.signed
  · by_cases hqr : Str.strip tok.qrToken = []
    · simp only [hsigned, not_true_eq_false, if_false, if_pos hqr] at hnext
      exact absurd rfl (hnext _)
    · by_cases hlate : tok.retentionUntil ≠ 0 ∧ tok.retentionUntil < w.now
      · simp only [hsigned, not_true_eq_false, if_false, if_neg hqr, if_pos hlate] at hnext
        exact absurd rfl (hnext _)
      · refine ⟨hsigned, hqr, ?_⟩
        unfold DeviceToken.fresh
        omega
  · simp only [hsigned, not_false_eq_true, if_true] at hnext
    exact absurd rfl (hnext _)

/-- A run that ends in a heartbeat that is accepted. -/
theorem accepts_of_run {cfg : Config} {acts : List Act} {w : World} {c : Nat} {tok : DeviceToken}
    (status : Status) (refreshed : Option DeviceToken) (pending : Bool)
    (hrun : run (step cfg) World.start acts = some w)
    (h : (run (step cfg) World.start (acts ++ validating c tok pending)).map (·.log) =
      (run (step cfg) World.start acts).map fun w => (c, .valid tok status refreshed) :: w.log) :
    Accepts cfg w c tok := by
  rw [run_append, hrun, Option.bind_some, Option.map_some] at h
  obtain ⟨w', hw', hlog⟩ := Option.map_eq_some_iff.mp h
  exact ⟨pending, w', status, refreshed, hw', hlog⟩

section Active

variable {cfg : Config} {w : World} {c : Nat} {tok : DeviceToken} {d : Device}

/-- The row of the token lets it through. -/
structure Admits (w : World) (tok : DeviceToken) (d : Device) : Prop where
  device : w.device tok.deviceId = some d
  status : d.status = .active
  qrToken : d.qrToken = Str.strip tok.qrToken
  retention : w.now ≤ d.retentionExpiresAt

theorem query_device (h : Admits w tok d) :
    w.query cfg none (.validateDevice tok) = some (.inl (.validateCode tok d w.now)) := by
  have hrevoked : d.status ≠ .revoked := by
    rw [h.status]
    decide
  simp only [World.query, h.device, if_neg hrevoked, if_neg (not_not_intro h.qrToken),
    if_neg (Nat.not_lt.mpr h.retention)]

/-- Only the QR code can still stop it. -/
theorem query_code (h : Admits w tok d) :
    w.query cfg none (.validateCode tok d w.now) = some (.inl (.validateCommit tok d w.now)) ∧
        w.codeLives d.qrToken ∨
      w.query cfg none (.validateCode tok d w.now) = some (.inr (.invalid 410 "qr_expired")) ∧
        ¬w.codeLives d.qrToken := by
  have hpending : d.status ≠ .pending := by
    rw [h.status]
    decide
  unfold World.codeLives
  rw [h.qrToken]
  cases hcode : w.code (Str.strip tok.qrToken) with
  | none =>
      refine .inr ⟨by simp only [World.query, hcode], ?_⟩
      rintro ⟨code, hsome, -⟩
      cases hsome
  | some code =>
      by_cases hexpired : code.expiresAt < w.now
      · refine .inr ⟨by simp only [World.query, hcode, if_pos hexpired], ?_⟩
        rintro ⟨code', hsome, hle⟩
        cases hsome
        omega
      · exact .inl ⟨by simp only [World.query, hcode, if_neg hexpired, if_neg hpending],
          code, rfl, Nat.not_lt.mp hexpired⟩

/-- Its last statement writes the row and answers. -/
theorem run_validated (h : Admits w tok d) :
    ∃ w', run (step cfg) (w.proceed c (.inl (.validateCommit tok d w.now))) [.commit c] = some w' ∧
      w'.log = (c, .valid tok .active (tok.refreshed d)) :: w.log := by
  have hrow : (w.proceed c (.inl (.validateCommit tok d w.now))).device d.id = some d := by
    rw [(mem_of_device h.device).2]
    exact h.device
  refine ⟨_, by
    simp only [run, step, proceed_calls, World.commit, World.update, hrow, h.status]
    rfl, rfl⟩

/-- **The heartbeat of an active device** that its row admits is accepted exactly when the token
is not past its own retention and the QR code not past its end. -/
theorem accepts_iff (hc : w.calls c = .idle) (hsigned : tok ∈ w.signed) (hne : d.qrToken ≠ [])
    (h : Admits w tok d) : Accepts cfg w c tok ↔ tok.fresh w.now ∧ w.codeLives d.qrToken := by
  have hrun : ∀ acts, tok.fresh w.now →
      run (step cfg) w (.request c (.validateDevice tok) :: .query c none :: acts) =
        run (step cfg) (w.proceed c (.inl (.validateCode tok d w.now))) acts := by
    intro acts hfresh
    rw [run_request hc, begin_validate hsigned (h.qrToken ▸ hne) hfresh, run_query,
      query_device h]
    rfl
  constructor
  · intro haccepts
    have hfresh := (begin_of_accepts hc haccepts).2.2
    refine ⟨hfresh, ?_⟩
    rcases @query_code cfg w tok d h with ⟨-, hlives⟩ | ⟨hquery, -⟩
    · exact hlives
    · obtain ⟨pending, w', status, refreshed, hvalidating, -⟩ := haccepts
      have hnone : run (step cfg) w (validating c tok pending) = none := by
        cases pending with
        | false =>
            show run (step cfg) w (_ :: _ :: [.query c none, .commit c]) = none
            rw [hrun _ hfresh, run_query, hquery]
            exact run_commit_answered
        | true =>
            show run (step cfg) w (_ :: _ :: [.query c none, .query c none, .commit c]) = none
            rw [hrun _ hfresh, run_query, hquery]
            exact run_answered
      rw [hnone] at hvalidating
      cases hvalidating
  · rintro ⟨hfresh, hlives⟩
    rcases @query_code cfg w tok d h with ⟨hquery, -⟩ | ⟨-, hnot⟩
    · obtain ⟨w', hw', hlog⟩ := @run_validated cfg w c tok d h
      refine ⟨false, w', .active, tok.refreshed d, ?_, hlog⟩
      show run (step cfg) w (_ :: _ :: [.query c none, .commit c]) = some w'
      rw [hrun _ hfresh, run_query, hquery]
      exact hw'
    · exact absurd hlives hnot

end Active

/-! ## QR codes of rows -/

/-- A text as `enroll_device` takes it from a request. -/
def Named (qrToken : Str) : Prop := qrToken ≠ [] ∧ Str.strip qrToken = qrToken

/-- The request of an enrolment that may still write. -/
def Phase.enrolling : Phase → Option Enrollment
  | .purgePending req => some req
  | .enrollCode req _ => some req
  | .enrollSameKey req _ _ => some req
  | .enrollFusion req _ _ => some req
  | .enrollRebind req _ _ => some req
  | .enrollConfirmed req _ _ => some req
  | .enrollInsert req _ _ => some req
  | _ => none

/-- Rows and enrolments name a QR code. -/
structure AllNamed (w : World) : Prop where
  device : ∀ d ∈ w.devices, Named d.qrToken
  enrolling : ∀ c req, (w.calls c).enrolling = some req → Named req.qrToken

theorem enrolling_of_reads {w : World} {p p' : Phase} (h : Reads w p p') {req : Enrollment}
    (hreq : p'.enrolling = some req) : p.enrolling = some req := by
  cases h with
  | enrollCode req now code hqr hnow => exact hreq
  | otherKey req now code p hnone hnext => rcases hnext with rfl | rfl <;> exact hreq
  | unfused req now code => exact hreq
  | unbound req now code => exact hreq
  | unowned req now code hnone => exact hreq
  | owned p p' rec hrec hnext => rcases hnext with rfl | rfl <;> cases hreq
  | code p p' code hnext => rcases hnext with ⟨_, _, rfl⟩ | rfl <;> cases hreq
  | sameKey | fused | rebound => cases hreq
  | validateDevice | validatePending | validateActive | validateOther => cases hreq

theorem named_of_begin {w : World} {cfg : Config} {req : Request} {p : Phase}
    (h : w.begin cfg req = .inl p) {e : Enrollment} (he : p.enrolling = some e) :
    Named e.qrToken := by
  cases req with
  | enrollDevice req =>
      simp only [World.begin, enrollDevice] at h
      split at h
      · cases h
      · rename_i hne
        cases h
        cases he
        exact ⟨fun hnil => hne (.inl hnil), Str.strip_strip req.qrToken⟩
  | validateDevice | revokeDevice | deleteDevice | revokeAllDevices | extendToken
  | deleteSession =>
      simp only [World.begin, validateDevice] at h
      (repeat' split at h) <;> cases h <;> cases he

theorem allNamed_step {cfg : Config} {f : Nat → Origin} {w w' : World} {a : Act}
    (h : AllNamed w) (hborn : Born f w) (heff : Effect cfg w a w') : AllNamed w' where
  device := by
    intro d' hd'
    rcases device_of_effect heff hd' with ⟨d, hd, hw⟩ | ⟨c, req, now, code, -, hc, rfl⟩
    · have hqr : d'.qrToken = d.qrToken := congrArg Origin.qrToken hw.origin
      rw [hqr]
      exact h.device d hd
    · -- the row of a first enrolment has the code that its request asked for
      have hqr : code.qrToken = req.qrToken := by
        have hsound := hborn.sound c
        rw [hc] at hsound
        exact hsound
      show Named code.qrToken
      rw [hqr]
      exact h.enrolling c req (by rw [hc]; rfl)
  enrolling := by
    intro c req hreq
    rcases call_of_effect heff c with hcall | hcall | hcame
    · exact h.enrolling c req (hcall ▸ hreq)
    · rw [hcall] at hreq
      cases hreq
    · generalize w'.calls c = p at hcame hreq
      cases hcame with
      | asked asked p hp => exact named_of_begin hp hreq
      | read pick p hp => exact h.enrolling c req (enrolling_of_reads (reads_of_query hp) hreq)
      | purged a purged hc =>
          cases hreq
          exact h.enrolling c req (by rw [hc]; rfl)

/-- **The row of a token** in a reachable state, while it is active. -/
theorem admits_of_run {cfg : Config} {acts : List Act} {w : World} {d : Device}
    {tok : DeviceToken} (hrun : run (step cfg) World.start acts = some w) (hd : d ∈ w.devices)
    (hstatus : d.status = .active) (hretention : w.now < d.retentionExpiresAt)
    (htok : tok ∈ w.signed) (hid : tok.deviceId = d.id) : Admits w tok d ∧ Named d.qrToken := by
  obtain ⟨⟨f, hborn⟩, hnamed⟩ := inv_of_guarded (step cfg)
    (fun w => (∃ f, Born f w) ∧ AllNamed w)
    (fun w a w' hinv _ hs => by
      obtain ⟨⟨f, hborn⟩, hnamed⟩ := hinv
      have heff := effect_of_step hs
      obtain ⟨f', hborn', -, -⟩ := born_step hborn heff
      exact ⟨⟨f', hborn'⟩, allNamed_step hnamed hborn heff⟩)
    ⟨⟨fun _ => ⟨[], []⟩, born_start _⟩, fun _ h => absurd h List.not_mem_nil,
      fun _ _ h => by cases h⟩
    (guarded_of_forall _ fun (_ : World) (_ : Act) => trivial) hrun
  have hsame : tok.origin = d.origin := by
    rw [← (hborn.signed tok htok).2, hid]
    exact (hborn.device d hd).2
  have hqr : tok.qrToken = d.qrToken := congrArg Origin.qrToken hsame
  refine ⟨⟨?_, hstatus, ?_, Nat.le_of_lt hretention⟩, hnamed.device d hd⟩
  · -- ids are keys
    cases hfound : w.device tok.deviceId with
    | none =>
        have hnot := List.find?_eq_none.mp hfound d hd
        exact absurd (beq_iff_eq.mpr hid.symm) hnot
    | some d' =>
        obtain ⟨hmem, hid'⟩ := mem_of_device hfound
        rw [hborn.eq_of_id hmem hd (hid'.trans hid)]
  · rw [hqr]
    exact (hnamed.device d hd).2.symm

end MesReunions.Devices
