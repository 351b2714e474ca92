import MesReunions.Upload.Retention

/-!
# A change of device

The rule of one device per code is kept twice: by the authority in the status of its rows, and
by the upload portal in the claim of a session.

* `Zones` — both of them, under one clock. The fast path links them: a request has the device of
  a token that the authority has signed.
* `agreeing` — a device is confirmed only where the session is unclaimed or its own, and a
  session is claimed only where no other device is confirmed.
* **`confirmed_not_refused`** — in such a run a confirmed device is not refused as another's.
* **`changed_and_refused`** — a revocation in the portal leaves the claim where it is.
-/

namespace MesReunions.Upload

open TSys

/-! ## The two zones -/

structure Zones where
  authority : Devices.World
  upload : World Str

def Zones.start : Zones := ⟨.start, .start⟩

inductive ZoneAct where
  | wait (seconds : Nat)
  | authority (a : Devices.Act)
  | upload (a : Act Str)
  /-- The fast path, with the token that is shown and what the pod knows of its device. -/
  | validate (c : Nat) (tok : Option Devices.DeviceToken) (state : Option ValidationState)

/-- A token verifies when the authority has signed it. -/
def shownTo (signed : List Devices.DeviceToken) : Option Devices.DeviceToken → Shown
  | none => .missing
  | some tok => if tok ∈ signed then .signed (payloadOf tok) else .forged

/-- What the fast path gives to `api_upload`. -/
def fastPath (cfg : Settings) (now : Nat) (qrToken : Str) (shown : Shown)
    (state : Option ValidationState) : Except Refusal (Option Str) :=
  (validateDeviceFastPath cfg (fun _ => state) now qrToken shown).map fun out => some out.1

structure Config where
  authority : Devices.Config
  settings : Settings
  service : Service

def Config.standard : Config := ⟨.standard, .standard, .standard⟩

def Zones.step (cfg : Config) (z : Zones) : ZoneAct → Option Zones
  | .wait seconds =>
      some ⟨{ z.authority with now := z.authority.now + seconds },
        { z.upload with now := z.upload.now + seconds }⟩
  | .authority a =>
      match a with
      | .wait _ => none
      | a => (Devices.step cfg.authority z.authority a).map fun w => { z with authority := w }
  | .upload a =>
      match a with
      | .wait _ => none
      | .validate _ _ => none
      | a => (Upload.step cfg.service z.upload a).map fun w => { z with upload := w }
  | .validate c tok state =>
      match z.upload.calls c with
      | .validate req =>
          let result := fastPath cfg.settings z.upload.now req.session
            (shownTo z.authority.signed tok) state
          (Upload.step cfg.service z.upload (.validate c result)).map fun w =>
            { z with upload := w }
      | _ => none

/-! ## The property -/

/-- The step refuses an upload of device `d` as that of another device, while `d` is the
confirmed device of the code. -/
def RefusesConfirmed (z z' : Zones) (d : Devices.Device) : Prop :=
  d ∈ z.authority.devices ∧ d.confirmed = true ∧
    ∃ c, z'.upload.attempts = .claim ⟨c, d.qrToken, some (strOfNat d.id), .claimedByOtherDevice⟩ ::
      z.upload.attempts

/-- The claim follows the enrolment. -/
def Follows (z : Zones) (_ : ZoneAct) (z' : Zones) : Prop := ∀ d, ¬RefusesConfirmed z z' d

/-- Where a device is confirmed and where a session is claimed. -/
def agreeing (z : Zones) : ZoneAct → Bool
  | .authority (.commit c) =>
      match z.authority.calls c with
      | .validateCommit _ rec _ =>
          rec.status != .pending || (z.upload.claimed rec.qrToken).all (· == strOfNat rec.id)
      | _ => true
  | .upload (.update c) =>
      match z.upload.calls c with
      | .claimUpdate req device _ => z.authority.devices.all fun d =>
          !(d.qrToken == req.session && d.confirmed) || strOfNat d.id == device
      | _ => true
  | _ => true

/-! ## The parts of a step -/

section Parts

variable {cfg : Config} {z z' : Zones} {a : ZoneAct}

theorem authority_of_step (hs : Zones.step cfg z a = some z') :
    z'.authority = z.authority ∨ ∃ b, Devices.Effect cfg.authority z.authority b z'.authority ∧
      ∀ c, b = .commit c → a = .authority (.commit c) := by
  cases a with
  | wait seconds =>
      cases hs
      exact .inr ⟨.wait seconds, Devices.effect_of_step rfl, fun c h => by cases h⟩
  | authority b =>
      simp only [Zones.step] at hs
      split at hs
      · cases hs
      · obtain ⟨w, hw, rfl⟩ := Option.map_eq_some_iff.mp hs
        refine .inr ⟨b, Devices.effect_of_step hw, fun c h => ?_⟩
        rw [h]
  | upload b =>
      simp only [Zones.step] at hs
      split at hs
      · cases hs
      · cases hs
      · obtain ⟨w, -, rfl⟩ := Option.map_eq_some_iff.mp hs
        exact .inl rfl
  | validate c tok state =>
      simp only [Zones.step] at hs
      split at hs
      · obtain ⟨w, -, rfl⟩ := Option.map_eq_some_iff.mp hs
        exact .inl rfl
      · cases hs

theorem upload_of_step (hs : Zones.step cfg z a = some z') :
    z'.upload = z.upload ∨ ∃ b, Effect cfg.service z.upload b z'.upload ∧
      ∀ c, b = .update c → a = .upload (.update c) := by
  cases a with
  | wait seconds =>
      cases hs
      exact .inr ⟨.wait seconds, .waited seconds, fun c h => by cases h⟩
  | authority b =>
      simp only [Zones.step] at hs
      split at hs
      · cases hs
      · obtain ⟨w, -, rfl⟩ := Option.map_eq_some_iff.mp hs
        exact .inl rfl
  | upload b =>
      simp only [Zones.step] at hs
      split at hs
      · cases hs
      · cases hs
      · obtain ⟨w, hw, rfl⟩ := Option.map_eq_some_iff.mp hs
        refine .inr ⟨b, effect_of_step hw, fun c h => ?_⟩
        rw [h]
  | validate c tok state =>
      simp only [Zones.step] at hs
      split at hs
      · obtain ⟨w, hw, rfl⟩ := Option.map_eq_some_iff.mp hs
        exact .inr ⟨_, effect_of_step hw, fun c h => by cases h⟩
      · cases hs

end Parts

/-! ## The invariant -/

/-- A session that is claimed has no confirmed device but the one that claimed it. -/
structure ChangeInv (z : Zones) : Prop where
  born : ∃ f, Devices.Born f z.authority
  /-- A request that is about to claim a session has read it unclaimed. -/
  unclaimed : ∀ c req device sess, z.upload.calls c = .claimUpdate req device sess ∨
    z.upload.calls c = .claimReread req device sess → sess.claimedByDeviceId = none
  agree : ∀ q x, z.upload.claimed q = some x → ∀ id, Devices.Confirmed z.authority q id →
    strOfNat id = x

theorem changeInv_start : ChangeInv Zones.start where
  born := ⟨fun _ => ⟨[], []⟩, Devices.born_start _⟩
  unclaimed := by
    rintro c req device sess (h | h) <;> cases h
  agree := fun _ _ h => by cases h

theorem unclaimed_of_effect {svc : Service} {w w' : World Str} {a : Act Str}
    (heff : Effect svc w a w')
    (h : ∀ c req device sess, w.calls c = .claimUpdate req device sess ∨
      w.calls c = .claimReread req device sess → sess.claimedByDeviceId = none) :
    ∀ c req device sess, w'.calls c = .claimUpdate req device sess ∨
      w'.calls c = .claimReread req device sess → sess.claimedByDeviceId = none := by
  intro c req device sess hcall
  rcases call_of_effect heff c with hsame | hidle | hcame
  · rw [hsame] at hcall
    exact h c req device sess hcall
  · rw [hidle] at hcall
    rcases hcall with hcall | hcall <;> cases hcall
  · rcases hcall with hcall | hcall
    · rw [hcall] at hcame
      cases hcame with
      | unclaimed _ _ _ hc hsess hnone => exact hnone
    · rw [hcall] at hcame
      cases hcame with
      | lost _ _ _ hc hrow => exact h c req device sess (.inl hc)

section Step

variable {cfg : Config} {z z' : Zones} {a : ZoneAct}

/-- A device that is confirmed after a step was so, or the session is free for it. -/
theorem confirmed_of_step (h : ChangeInv z) (hact : agreeing z a = true)
    (hs : Zones.step cfg z a = some z') {q : Str} {id : Nat}
    (hconf : Devices.Confirmed z'.authority q id) :
    Devices.Confirmed z.authority q id ∨ (∃ c, a = .authority (.commit c)) ∧
      ∀ x, z.upload.claimed q = some x → x = strOfNat id := by
  rcases authority_of_step hs with hsame | ⟨b, heff, hb⟩
  · rw [hsame] at hconf
    exact .inl hconf
  · obtain ⟨f, hborn⟩ := h.born
    rcases Devices.confirmed_of_effect hborn heff hconf with
      hold | ⟨c, tok, rec, now, hcommit, hc, hpending, rfl, rfl⟩
    · exact .inl hold
    · have ha := hb c hcommit
      subst ha
      refine .inr ⟨⟨c, rfl⟩, fun x hx => ?_⟩
      simp only [agreeing, hc, hpending, hx, Option.all_some, bne_self_eq_false,
        Bool.false_or] at hact
      exact eq_of_beq hact

/-- A claim after a step was there, or no other device is confirmed. -/
theorem claimed_of_step (hact : agreeing z a = true) (hs : Zones.step cfg z a = some z')
    {q x : Str} (hclaimed : z'.upload.claimed q = some x) :
    z.upload.claimed q = some x ∨ (∃ c, a = .upload (.update c)) ∧
      ∀ id, Devices.Confirmed z.authority q id → strOfNat id = x := by
  rcases upload_of_step hs with hsame | ⟨b, heff, hb⟩
  · rw [hsame] at hclaimed
    exact .inl hclaimed
  · rcases claimed_of_effect heff q with hsame | ⟨-, c, req, device, sess, hupdate, hc, rfl, hnew⟩
    · rw [hsame] at hclaimed
      exact .inl hclaimed
    · have ha := hb c hupdate
      subst ha
      rw [hclaimed] at hnew
      cases hnew
      refine .inr ⟨⟨c, rfl⟩, ?_⟩
      rintro id ⟨d, hd, hqr, hconf, rfl⟩
      simp only [agreeing, hc, List.all_eq_true] at hact
      have hdevice := hact d hd
      rw [hqr, hconf] at hdevice
      simp only [beq_self_eq_true, Bool.and_true, Bool.not_true, Bool.false_or] at hdevice
      exact eq_of_beq hdevice

theorem changeInv_step (h : ChangeInv z) (hact : agreeing z a = true)
    (hs : Zones.step cfg z a = some z') : ChangeInv z' where
  born := by
    obtain ⟨f, hborn⟩ := h.born
    rcases authority_of_step hs with hsame | ⟨b, heff, -⟩
    · rw [hsame]
      exact ⟨f, hborn⟩
    · obtain ⟨f', hborn', -, -⟩ := Devices.born_step hborn heff
      exact ⟨f', hborn'⟩
  unclaimed := by
    rcases upload_of_step hs with hsame | ⟨b, heff, -⟩
    · rw [hsame]
      exact h.unclaimed
    · exact unclaimed_of_effect heff h.unclaimed
  agree := by
    intro q x hclaimed id hconf
    rcases claimed_of_step hact hs hclaimed with hold | ⟨⟨c, ha⟩, hfree⟩
    · rcases confirmed_of_step h hact hs hconf with hconf | ⟨-, hfree⟩
      · exact h.agree q x hold id hconf
      · exact (hfree x hold).symm
    · -- one step does not both claim and confirm
      rcases confirmed_of_step h hact hs hconf with hconf | ⟨⟨c', ha'⟩, -⟩
      · exact hfree id hconf
      · rw [ha] at ha'
        cases ha'

/-- A confirmed device meets no claim but its own. -/
theorem follows_step (h : ChangeInv z) (hs : Zones.step cfg z a = some z') : Follows z a z' := by
  rintro d ⟨hd, hconf, c, hattempt⟩
  -- whoever has claimed the session is this device
  have hown : ∀ other, z.upload.claimed d.qrToken = some other → strOfNat d.id = other :=
    fun other hother => h.agree d.qrToken other hother d.id ⟨d, hd, rfl, hconf, rfl⟩
  rcases upload_of_step hs with hsame | ⟨b, heff, -⟩
  · rw [hsame] at hattempt
    exact List.cons_ne_self _ _ hattempt.symm
  · rcases attempt_of_effect heff with hsame | ⟨e, he, hattempted⟩
    · rw [hsame] at hattempt
      exact List.cons_ne_self _ _ hattempt.symm
    · rw [he] at hattempt
      obtain ⟨rfl, -⟩ := List.cons.inj hattempt
      generalize hsession : d.qrToken = session at hattempted hown
      cases hattempted with
      | refused _ req device other hc hclaimed hne => exact hne (hown other hclaimed).symm
      | refusedAgain _ req device sess hc hother =>
          have hheld := h.unclaimed c req _ sess (.inr hc)
          cases hrow : z.upload.sessions req.session with
          | none =>
              rw [hrow] at hother
              cases hother
          | some row =>
              rw [hrow] at hother
              simp only [SessionFactory.refetch, Option.map_some, Option.any_some] at hother
              split at hother
              · -- the instance was refreshed
                obtain ⟨other, hclaimed, hne⟩ := ofOther_iff.mp hother
                exact hne (hown other (by rw [World.claimed, hrow]; exact hclaimed)).symm
              · rw [Session.ofOther, hheld] at hother
                cases hother
      | ignored _ e hok hother => exact hother rfl

end Step

/-- **A confirmed device is not refused as another's**, in a run whose steps agree. -/
theorem confirmed_not_refused {cfg : Config} {acts : List ZoneAct}
    (h : Guarded (Zones.step cfg) (fun z a => agreeing z a = true) Zones.start acts) :
    Along (Zones.step cfg) Follows Zones.start acts :=
  along_of_guarded (Zones.step cfg) ChangeInv
    (fun _ _ _ hinv hact hs => ⟨follows_step hinv hs, changeInv_step hinv hact hs⟩)
    changeInv_start h

/-- A device uploads to the session of the code, up to its claim. -/
def claimingAs (c id : Nat) : List ZoneAct :=
  [.upload (.apiUpload c ['q'] none), .upload (.select c),
    .validate c (some (Devices.tokenOf id)) none, .upload (.select c)]

/-- Device 0 is confirmed for the code. -/
def firstConfirmed : List ZoneAct :=
  .upload (.createSession ['q'] ['c'] 5 300 0) :: Devices.oneConfirmed.map .authority

/-- Its owner revokes it, and device 1 takes its place. -/
def replacing : List Devices.Act :=
  [.request 0 (.revokeDevice 0 (some ['u'])), .query 0 none, .commit 0] ++
    Devices.enrolling 1 ['q'] ['b'] ++ Devices.checking 1 (Devices.tokenOf 1) ++ [.commit 1]

def replaced : List ZoneAct := replacing.map .authority

/-- The change comes before the first upload. -/
def changedInTime : List ZoneAct :=
  firstConfirmed ++ replaced ++ claimingAs 0 1 ++ [.upload (.update 0), .upload (.update 0)]

theorem changed_in_time : ∃ z, run (Zones.step .standard) .start changedInTime = some z ∧
    z.upload.attempts = [.claim ⟨0, ['q'], some ['1'], .ok⟩] ∧
      Along (Zones.step .standard) Follows .start changedInTime := by
  obtain ⟨z, hz⟩ : ∃ z, run (Zones.step .standard) .start changedInTime = some z := ⟨_, rfl⟩
  have hattempts : (run (Zones.step .standard) .start changedInTime).map (·.upload.attempts) =
      some [.claim ⟨0, ['q'], some ['1'], .ok⟩] := by decide
  rw [hz] at hattempts
  exact ⟨z, hz, Option.some.inj hattempts, confirmed_not_refused (by decide)⟩

/-- The change comes after it. -/
def changedTooLate : List ZoneAct :=
  firstConfirmed ++ claimingAs 0 0 ++ [.upload (.update 0), .upload (.update 0)] ++ replaced ++
    (claimingAs 1 1).dropLast

/-- **The new device is refused**: its owner has revoked the old one in the portal, and the
session is still claimed by it. -/
theorem changed_and_refused :
    ∃ z z' old new, run (Zones.step .standard) .start changedTooLate = some z ∧
      z.authority.devices = [old, new] ∧ old.id = 0 ∧ old.status = .revoked ∧
      new.qrToken = old.qrToken ∧ Zones.step .standard z (.upload (.select 1)) = some z' ∧
      RefusesConfirmed z z' new := by
  obtain ⟨z, hz⟩ : ∃ z, run (Zones.step .standard) .start changedTooLate = some z := ⟨_, rfl⟩
  have hdevices : (run (Zones.step .standard) .start changedTooLate).map (·.authority.devices) =
      some [{ confirmedRow with status := .revoked },
        { confirmedRow with id := 1, deviceKey := ['b'] }] := rfl
  have hattempts : (run (Zones.step .standard) .start changedTooLate).bind
      (fun z => (Zones.step .standard z (.upload (.select 1))).map (·.upload.attempts)) =
        (run (Zones.step .standard) .start changedTooLate).map fun z =>
          .claim ⟨1, ['q'], some ['1'], .claimedByOtherDevice⟩ :: z.upload.attempts := rfl
  rw [hz] at hdevices hattempts
  have hdevices : z.authority.devices = _ := Option.some.inj hdevices
  obtain ⟨z', hz', hlast⟩ := Option.map_eq_some_iff.mp hattempts
  refine ⟨z, z', _, _, hz, hdevices, rfl, rfl, rfl, hz', ?_, rfl, 1, hlast⟩
  rw [hdevices]
  exact List.mem_cons_of_mem _ List.mem_cons_self

end MesReunions.Upload
