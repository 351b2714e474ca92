import MesReunions.Upload.Recovery
import MesReunions.Upload.Steps

/-!
# Who may upload, and until when

Three dates say how long a device may upload: that of its row, that of its QR code, and the one
that is frozen in its token.

* `HeardExpired`, `RefusedForExpiry` — `api_upload` refuses a device because of a date.
* **`unexpired_of_run`** — it does so by its fast path only, whatever the date of the session.
* **`retention_decides_iff`** — the retention of an active row decides exactly where the two other
  dates have not passed and no check has recorded an expiry.
* **`code_decides`** — the QR code ends long before the retention does.
-/

namespace MesReunions.Upload

open TSys

universe u

/-! ## Refused for expiry -/

/-- The reasons that speak of a date. -/
def expiryReasons : List Str := ["retention_expired".toList, "qr_expired".toList]

/-- The last check of a device has found a date passed. -/
def HeardExpired (state : Option ValidationState) : Prop :=
  ∃ s, state = some s ∧ s.backendInvalid = true ∧ s.backendReason ∈ expiryReasons

/-- The fast path refuses the device for a date. -/
def RefusedForExpiry (cfg : Settings) (pod : Pod) (now : Nat) (qrToken : Str) (shown : Shown) :
    Prop :=
  ∃ refusal, validateDeviceFastPath cfg pod now qrToken shown = .error refusal ∧
    refusal.reason ∈ expiryReasons

/-- What the recorded state alone refuses for a date. -/
theorem expired_of_state {cfg : Settings} {now : Nat} {state : Option ValidationState} :
    (∃ refusal, ValidationState.refusal cfg now state = some refusal ∧
        refusal.reason ∈ expiryReasons) ↔ HeardExpired state := by
  unfold ValidationState.refusal HeardExpired
  by_cases hinvalid : state.any (·.backendInvalid) = true
  · simp only [if_pos hinvalid]
    cases state with
    | none => cases hinvalid
    | some s =>
        have hinvalid : s.backendInvalid = true := hinvalid
        by_cases hreason : s.backendReason = []
        · -- a refusal without a reason says `invalid`
          simp only [Option.map_some, Option.getD_some, if_pos hreason]
          refine iff_of_false ?_ ?_
          · rintro ⟨refusal, hrefusal, hmem⟩
            cases hrefusal
            exact absurd hmem (by decide)
          · rintro ⟨s', hs', -, hmem⟩
            cases hs'
            rw [hreason] at hmem
            exact absurd hmem (by decide)
        · simp only [Option.map_some, Option.getD_some, if_neg hreason]
          constructor
          · rintro ⟨refusal, hrefusal, hmem⟩
            cases hrefusal
            exact ⟨s, rfl, hinvalid, hmem⟩
          · rintro ⟨s', hs', -, hmem⟩
            cases hs'
            exact ⟨_, rfl, hmem⟩
  · simp only [if_neg hinvalid]
    refine iff_of_false ?_ ?_
    · rintro ⟨refusal, hrefusal, hmem⟩
      split at hrefusal
      · cases hrefusal
        exact absurd hmem (by decide)
      · cases hrefusal
    · rintro ⟨s, rfl, hs, -⟩
      exact hinvalid hs

/-- A token that passes by itself is refused for a date exactly where one was recorded. -/
theorem refused_iff_heard {cfg : Settings} {pod : Pod} {now : Nat} {qrToken device : Str}
    {shown : Shown} (h : readToken now qrToken shown = .ok device) :
    RefusedForExpiry cfg pod now qrToken shown ↔ HeardExpired (pod device) := by
  rw [← @expired_of_state cfg now (pod device)]
  simp only [RefusedForExpiry, validateDeviceFastPath, h]
  cases hstate : ValidationState.refusal cfg now (pod device) with
  | none =>
      simp only []
      refine iff_of_false ?_ ?_
      · rintro ⟨refusal, hrefusal, -⟩
        cases hrefusal
      · rintro ⟨refusal, hrefusal, -⟩
        cases hrefusal
  | some refusal =>
      simp only []
      constructor
      · rintro ⟨refusal', hrefusal, hmem⟩
        cases hrefusal
        exact ⟨refusal, rfl, hmem⟩
      · rintro ⟨refusal', hrefusal, hmem⟩
        cases hrefusal
        exact ⟨refusal, rfl, hmem⟩

/-! ## The responses of `api_upload` -/

section Responses

variable {δ : Type u}

/-- A response that speaks of a date. -/
def Response.expired : Response → Prop
  | .error _ _ (some reason) => reason ∈ expiryReasons
  | _ => False

/-- A fast path that refuses the device for a date. -/
def Act.expired : Act δ → Prop
  | .validate _ (.error refusal) => refusal.reason ∈ expiryReasons
  | _ => False

/-- A request is about to answer what the fast path said. -/
def Call.refused : Call δ → Option Refusal
  | .failedRead _ refusal => some refusal
  | .failedCommit _ refusal _ => some refusal
  | _ => none

/-- What a request answers when it goes on. -/
def Next.response : Next δ → Option Response
  | .goto _ => none
  | .answer response => some response
  | .refuse _ refusal => some refusal.response
  | .verdict req _ v =>
      match req.afterClaim v with
      | .inl _ => none
      | .inr response => some response

theorem proceed_log {w : World δ} {c : Nat} {next : Next δ} : (w.proceed c next).log =
    match next.response with
    | none => w.log
    | some response => (c, response) :: w.log := by
  cases next with
  | goto call => rfl
  | answer response => rfl
  | refuse req refusal => rfl
  | verdict req device verdict =>
      simp only [World.proceed, Next.response]
      cases req.afterClaim verdict <;> rfl

/-- The checks after the claim know no date. -/
theorem afterClaim_unexpired {req : Request δ} {verdict : Verdict} {response : Response}
    (h : req.afterClaim verdict = .inr response) : ¬response.expired := by
  unfold Request.afterClaim at h
  split at h
  · rename_i hrefused
    cases h
    show verdict.result.2.toList ∉ expiryReasons
    cases verdict with
    | notFound => decide
    | claimedByOtherDevice => decide
    | noDeviceId | ok | claimErrorIgnored => cases hrefused
  · split at h
    · cases h
      exact id
    · split at h
      · cases h
        exact id
      · split at h <;> cases h
        exact id

/-- A request answers what the fast path said, or knows no date. -/
inductive Answers (call : Call δ) (response : Response) : Prop where
  | refused (refusal : Refusal) (hc : call.refused = some refusal)
      (h : response = refusal.response)
  | undated (h : ¬response.expired)

theorem answers_of_select [DecidableEq δ] {svc : Service} {w : World δ} {call : Call δ}
    {next : Next δ} (h : w.select svc call = some next) {response : Response}
    (hr : next.response = some response) : Answers call response := by
  unfold World.select at h
  split at h
  · have h := Option.some.inj h
    (repeat' split at h) <;> subst h <;> cases hr <;> exact .undated id
  · have h := Option.some.inj h
    split at h <;> subst h <;> cases hr
    exact .refused _ rfl rfl
  · have h := Option.some.inj h
    (repeat' split at h) <;> subst h
    · simp only [Next.response] at hr
      split at hr <;> cases hr
      exact .undated (afterClaim_unexpired ‹_›)
    · simp only [Next.response] at hr
      split at hr <;> cases hr
      exact .undated (afterClaim_unexpired ‹_›)
    · cases hr
    · cases hr
  · have h := Option.some.inj h
    split at h <;> subst h
    · simp only [Next.response] at hr
      split at hr <;> cases hr
      exact .undated (afterClaim_unexpired ‹_›)
    · cases hr
  · have h := Option.some.inj h
    split at h <;> subst h <;> cases hr
    exact .undated id
  · cases h

theorem answers_of_validated {result : Except Refusal (Option δ)} {call : Call δ} {next : Next δ}
    (h : World.validated result call = some next) {response : Response}
    (hr : next.response = some response) : Answers call response := by
  unfold World.validated at h
  split at h
  · have h := Option.some.inj h
    split at h <;> subst h
    · cases hr
    · simp only [Next.response] at hr
      split at hr <;> cases hr
      exact .undated (afterClaim_unexpired ‹_›)
    · cases hr
  · cases h

theorem answers_of_update {svc : Service} {w : World δ} {call : Call δ} {x : Write δ × Next δ}
    (h : w.update svc call = some x) {response : Response} (hr : x.2.response = some response) :
    Answers call response := by
  unfold World.update at h
  split at h
  · cases h
    cases hr
    exact .refused _ rfl rfl
  · have h := Option.some.inj h
    split at h <;> subst h <;> cases hr
  · cases h
    simp only [Next.response] at hr
    split at hr <;> cases hr
    exact .undated (afterClaim_unexpired ‹_›)
  · cases h
    cases hr
    exact .undated id
  · cases h

theorem answers_of_failed {call : Call δ} {next : Next δ} (h : World.failed call = some next)
    {response : Response} (hr : next.response = some response) : Answers call response := by
  -- the verdict of a claim that fails is no refusal
  have hignored : ∀ {req : Request δ} {device : Option δ},
      (Next.verdict req device .claimErrorIgnored).response = some response →
        Answers call response := by
    intro req device hr
    simp only [Next.response] at hr
    split at hr <;> cases hr
    exact .undated (afterClaim_unexpired ‹_›)
  unfold World.failed at h
  split at h <;> cases h <;>
    first
    | exact hignored hr
    | (cases hr; exact .undated id)
    | (cases hr; exact .refused _ rfl rfl)

/-- Neither what was answered nor what is about to be speaks of a date. -/
structure Unexpired (w : World δ) : Prop where
  calls : ∀ c refusal, (w.calls c).refused = some refusal → refusal.reason ∉ expiryReasons
  log : ∀ e ∈ w.log, ¬e.2.expired

theorem Answers.unexpired {w : World δ} (h : Unexpired w) {c : Nat} {response : Response}
    (hanswers : Answers (w.calls c) response) : ¬response.expired := by
  cases hanswers with
  | refused refusal hc hresponse =>
      subst hresponse
      exact h.calls c refusal hc
  | undated hnot => exact hnot

theorem log_proceed {w : World δ} {c : Nat} {next : Next δ} (h : ∀ e ∈ w.log, ¬e.2.expired)
    (hnext : ∀ response, next.response = some response → ¬response.expired) :
    ∀ e ∈ (w.proceed c next).log, ¬e.2.expired := by
  intro e he
  rw [proceed_log] at he
  cases hresponse : next.response with
  | none =>
      rw [hresponse] at he
      exact h e he
  | some response =>
      rw [hresponse] at he
      rcases List.mem_cons.mp he with rfl | he
      · exact hnext response hresponse
      · exact h e he

theorem log_of_step [DecidableEq δ] {svc : Service} {w w' : World δ} {a : Act δ}
    (h : Unexpired w) (hs : step svc w a = some w') : ∀ e ∈ w'.log, ¬e.2.expired := by
  cases a with
  | wait seconds =>
      cases hs
      exact h.log
  | createSession qrToken simpleCode maxUploads ttl view =>
      simp only [step] at hs
      split at hs <;> cases hs
      exact h.log
  | trashSession qrToken =>
      cases hs
      exact h.log
  | renewSession qrToken expiresAt view addUploads =>
      cases hs
      exact h.log
  | apiUpload c qrToken file =>
      simp only [step] at hs
      split at hs <;> cases hs
      exact h.log
  | select c =>
      obtain ⟨next, hnext, rfl⟩ := Option.map_eq_some_iff.mp hs
      exact log_proceed h.log fun _ hr => (answers_of_select hnext hr).unexpired h
  | validate c result =>
      obtain ⟨next, hnext, rfl⟩ := Option.map_eq_some_iff.mp hs
      exact log_proceed h.log fun _ hr => (answers_of_validated hnext hr).unexpired h
  | update c =>
      obtain ⟨x, hx, rfl⟩ := Option.map_eq_some_iff.mp hs
      exact log_proceed (w := w.write x.1) h.log fun _ hr => (answers_of_update hx hr).unexpired h
  | put c =>
      simp only [step] at hs
      split at hs <;> cases hs
      exact h.log
  | error c =>
      obtain ⟨next, hnext, rfl⟩ := Option.map_eq_some_iff.mp hs
      exact log_proceed h.log fun _ hr => (answers_of_failed hnext hr).unexpired h

theorem unexpired_step [DecidableEq δ] {svc : Service} {w w' : World δ} {a : Act δ}
    (h : Unexpired w) (ha : ¬a.expired) (hs : step svc w a = some w') : Unexpired w' where
  calls := by
    intro c refusal hrefused
    rcases call_of_effect (effect_of_step hs) c with hcall | hcall | hcame
    · exact h.calls c refusal (hcall ▸ hrefused)
    · rw [hcall] at hrefused
      cases hrefused
    · generalize w'.calls c = call at hcame hrefused
      cases hcame with
      | failed req refusal' hc =>
          cases hrefused
          exact ha
      | counting req refusal' sess hc hsess =>
          cases hrefused
          exact h.calls c _ (by rw [hc]; rfl)
      | asked | found | validated | unclaimed | own | won | lost | passed | reached | put
      | inserted => cases hrefused
  log := log_of_step h hs

/-- **`api_upload` refuses a device for a date only where its fast path does.** -/
theorem unexpired_of_run [DecidableEq δ] {svc : Service} {acts : List (Act δ)} {w : World δ}
    (hrun : run (step svc) World.start acts = some w)
    (hacts : Guarded (step svc) (fun _ a => ¬a.expired) World.start acts) :
    ∀ e ∈ w.log, ¬e.2.expired :=
  (inv_of_guarded (step svc) Unexpired (fun _ _ _ h ha hs => unexpired_step h ha hs)
    ⟨fun _ _ h => (by cases h), fun _ h => absurd h List.not_mem_nil⟩ hacts hrun).log

end Responses

/-! ## The retention of a row -/

/-- The last token that was signed for a device. -/
def lastToken (w : Devices.World) (id : Nat) : Option Devices.DeviceToken :=
  w.signed.find? (·.deviceId == id)

/-- `validate-device` accepts the token, and `api_upload` refuses it for no date. -/
def MayUpload (acfg : Devices.Config) (cfg : Settings) (w : Devices.World) (pod : Pod) (c : Nat)
    (qrToken : Str) (tok : Devices.DeviceToken) : Prop :=
  Devices.Accepts acfg w c tok ∧
    ¬RefusedForExpiry cfg pod w.now qrToken (.signed (payloadOf tok))

/-- **The retention of an active row decides** exactly where the one that is frozen in its last
token has not passed, its QR code has not ended and the pod has recorded no expiry. -/
theorem retention_decides_iff {acfg : Devices.Config} {cfg : Settings} {acts : List Devices.Act}
    {w : Devices.World} {c : Nat} {d : Devices.Device} {tok : Devices.DeviceToken}
    (hrun : run (Devices.step acfg) Devices.World.start acts = some w) (hc : w.calls c = .idle)
    (hd : d ∈ w.devices) (hstatus : d.status = .active) (hretention : w.now < d.retentionExpiresAt)
    (htok : lastToken w d.id = some tok) (pod : Pod) :
    MayUpload acfg cfg w pod c d.qrToken tok ↔
      tok.fresh w.now ∧ w.codeLives d.qrToken ∧ ¬HeardExpired (pod (payloadOf tok).deviceId) := by
  have hmem : tok ∈ w.signed := List.mem_of_find?_eq_some htok
  have hfound := List.find?_some htok
  have hid : tok.deviceId = d.id := eq_of_beq hfound
  obtain ⟨hadmits, hnamed⟩ := Devices.admits_of_run hrun hd hstatus hretention hmem hid
  have haccepts := @Devices.accepts_iff acfg w c tok d hc hmem hnamed.1 hadmits
  constructor
  · rintro ⟨hyes, hnot⟩
    obtain ⟨hfresh, hlives⟩ := haccepts.mp hyes
    refine ⟨hfresh, hlives, fun hheard => hnot ?_⟩
    rw [hadmits.qrToken]
    exact (refused_iff_heard (readToken_of_fresh hfresh)).mpr hheard
  · rintro ⟨hfresh, hlives, hnot⟩
    refine ⟨haccepts.mpr ⟨hfresh, hlives⟩, fun hrefused => hnot ?_⟩
    rw [hadmits.qrToken] at hrefused
    exact (refused_iff_heard (readToken_of_fresh hfresh)).mp hrefused

/-- The row of device 0 of `oneConfirmed`. -/
def confirmedRow : Devices.Device where
  id := 0
  userSub := ['u']
  qrToken := ['q']
  simpleCode := ['c']
  deviceKey := ['a']
  fpHash := none
  status := .active
  confirmedAt := some 0
  purgeAt := none
  retentionExpiresAt := 168 * 3600
  lastSeenAt := some 0
  createdAt := 0

/-- What a state has that device 0 has just been confirmed in. -/
theorem facts_of_confirmed {w : Devices.World} {now : Nat}
    (h : (w.calls 0, w.devices, w.signed, w.now, w.codes) =
      (.idle, [confirmedRow], [Devices.tokenOf 0], now, [⟨['u'], ['c'], ['q'], 300⟩])) :
    w.calls 0 = .idle ∧ confirmedRow ∈ w.devices ∧
      lastToken w confirmedRow.id = some (Devices.tokenOf 0) ∧ w.now = now ∧
        w.code ['q'] = some ⟨['u'], ['c'], ['q'], 300⟩ := by
  obtain ⟨hcall, h⟩ := Prod.mk.inj h
  obtain ⟨hdevices, h⟩ := Prod.mk.inj h
  obtain ⟨hsigned, h⟩ := Prod.mk.inj h
  obtain ⟨hnow, hcodes⟩ := Prod.mk.inj h
  refine ⟨hcall, ?_, ?_, hnow, ?_⟩
  · rw [hdevices]
    exact List.mem_singleton.mpr rfl
  · unfold lastToken
    rw [hsigned]
    rfl
  · unfold Devices.World.code
    rw [hcodes]
    rfl

theorem confirmed_may_upload : ∃ w, run (Devices.step .standard) Devices.World.start
    Devices.oneConfirmed = some w ∧
      MayUpload .standard .standard w (fun _ => none) 0 ['q'] (Devices.tokenOf 0) := by
  obtain ⟨w, hw⟩ : ∃ w, run (Devices.step .standard) Devices.World.start
      Devices.oneConfirmed = some w := ⟨_, rfl⟩
  have hstate : (run (Devices.step .standard) Devices.World.start Devices.oneConfirmed).map
      (fun w => (w.calls 0, w.devices, w.signed, w.now, w.codes)) =
        some (.idle, [confirmedRow], [Devices.tokenOf 0], 0, [⟨['u'], ['c'], ['q'], 300⟩]) := rfl
  rw [hw] at hstate
  obtain ⟨hcall, hmem, htok, hnow, hcode⟩ := facts_of_confirmed (Option.some.inj hstate)
  refine ⟨w, hw, (retention_decides_iff hw hcall hmem rfl ?_ htok fun _ => none).mpr
    ⟨?_, ⟨_, hcode, ?_⟩, ?_⟩⟩
  · rw [hnow]
    decide
  · rw [hnow]
    exact .inr (by decide)
  · rw [hnow]
    decide
  · rintro ⟨s, hs, -⟩
    cases hs

/-- **The QR code decides**: of an enrolment for a week, it leaves the five minutes that the code
lives. -/
theorem code_decides :
    ¬∀ acts w (c : Nat) d tok, run (Devices.step .standard) Devices.World.start acts = some w →
      w.calls c = .idle → d ∈ w.devices → d.status = .active → w.now < d.retentionExpiresAt →
      lastToken w d.id = some tok →
      MayUpload .standard .standard w (fun _ => none) c d.qrToken tok := by
  intro h
  obtain ⟨w, hw⟩ : ∃ w, run (Devices.step .standard) Devices.World.start
      (Devices.oneConfirmed ++ [.wait 400]) = some w := ⟨_, rfl⟩
  have hstate : (run (Devices.step .standard) Devices.World.start
      (Devices.oneConfirmed ++ [.wait 400])).map
        (fun w => (w.calls 0, w.devices, w.signed, w.now, w.codes)) =
      some (.idle, [confirmedRow], [Devices.tokenOf 0], 400, [⟨['u'], ['c'], ['q'], 300⟩]) := rfl
  rw [hw] at hstate
  obtain ⟨hcall, hmem, htok, hnow, hcode⟩ := facts_of_confirmed (Option.some.inj hstate)
  have hretention : w.now < confirmedRow.retentionExpiresAt := by
    rw [hnow]
    decide
  have hmay := h _ w 0 confirmedRow (Devices.tokenOf 0) hw hcall hmem rfl hretention htok
  rw [retention_decides_iff hw hcall hmem rfl hretention htok] at hmay
  obtain ⟨code, hfound, hle⟩ := hmay.2.1
  rw [show confirmedRow.qrToken = ['q'] from rfl, hcode] at hfound
  cases hfound
  rw [hnow] at hle
  exact absurd hle (by decide)

end MesReunions.Upload
