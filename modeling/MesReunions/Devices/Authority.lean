import MesReunions.Base.TSys
import MesReunions.Devices.Enrollment

/-!
# The device-token authority

Any number of requests over one database, at READ COMMITTED. Each `SELECT` is a step, and so
is each `UPDATE`, `INSERT` or `DELETE` with the commit that follows it: what it wrote is seen
by no one before the commit, and the rows it wrote are locked until then. A request may
stall between any two of its steps, or fail there.

* `World.begin` — what a route does before its first statement;
* `World.query` — the `SELECT` a request is at, and where its answer leads;
* `World.commit` — the write a request is at.

A `.first()` without an order takes any of the rows that match, so the step says which.
Ids (`uuid4`) are new ones. A token verifies when it is one that was signed.
-/

namespace MesReunions.Devices

/-- A response. -/
inductive Answer where
  /-- `{"error": …}` with its status, and a message if there is one -/
  | error (status : Nat) (error : String) (message : Option String := none)
  /-- `{"valid": false, "reason": …}` with its status -/
  | invalid (status : Nat) (reason : String)
  | enrolled (token : DeviceToken) (status : Status) (reason : EnrollReason)
  /-- `{"valid": true, …}`, to the token that was shown -/
  | valid (shown : DeviceToken) (status : Status) (refreshed : Option DeviceToken)
  | revoked (count : Nat)
  | deleted
  | extended (expiresAt : Nat)
  deriving DecidableEq

/-- What is asked for. Without a user, a revocation is one of the administrator. -/
inductive Request where
  | enrollDevice (req : Enrollment)
  | validateDevice (tok : DeviceToken)
  | revokeDevice (id : Nat) (userSub : Option Str)
  | deleteDevice (id : Nat) (userSub : Str)
  | revokeAllDevices (userSub : Option Str)
  | extendToken (userSub qrToken : Str) (ttlMinutes : Option Int)
  | deleteSession (simpleCode userSub : Str)

/-- Where a request is: the statement it comes to next, and what it has read. -/
inductive Phase where
  | idle
  | purgePending (req : Enrollment)
  | enrollCode (req : Enrollment) (now : Nat)
  | enrollSameKey (req : Enrollment) (now : Nat) (code : IssuedToken)
  | enrollFusion (req : Enrollment) (now : Nat) (code : IssuedToken)
  | enrollRebind (req : Enrollment) (now : Nat) (code : IssuedToken)
  | enrollConfirmed (req : Enrollment) (now : Nat) (code : IssuedToken)
  | enrollUpdate (req : Enrollment) (now : Nat) (rec : Device) (reason : EnrollReason)
  | enrollInsert (req : Enrollment) (now : Nat) (code : IssuedToken)
  | validateDevice (tok : DeviceToken)
  | validateCode (tok : DeviceToken) (rec : Device) (now : Nat)
  | validateOther (tok : DeviceToken) (rec : Device) (now : Nat)
  | validateCommit (tok : DeviceToken) (rec : Device) (now : Nat)
  | revokeDevice (id : Nat) (userSub : Option Str)
  | revokeCommit (rec : Device)
  | deleteDevice (id : Nat) (userSub : Str)
  | deleteCommit (rec : Device)
  | revokeAll (userSub : Option Str)
  | extendCode (userSub qrToken : Str) (ttl : Nat)
  | extendCommit (code : IssuedToken) (ttl now : Nat)
  | deleteSession (simpleCode userSub : Str)
  | deleteSessionCommit (code : IssuedToken)

structure World where
  now : Nat
  codes : List IssuedToken
  devices : List Device
  /-- The next new id. -/
  next : Nat
  /-- The device tokens that were signed. -/
  signed : List DeviceToken
  calls : Nat → Phase
  /-- The responses, the last one first. -/
  log : List (Nat × Answer)

def World.start : World := ⟨0, [], [], 0, [], fun _ => .idle, []⟩

/-- `filter(IssuedToken.qr_token == qr_token).first()` -/
def World.code (w : World) (qrToken : Str) : Option IssuedToken :=
  w.codes.find? (·.qrToken == qrToken)

/-- `filter(DeviceEnrollment.id == device_id).first()` -/
def World.device (w : World) (id : Nat) : Option Device := w.devices.find? (·.id == id)

/-- `filter(p).first()`: one of the rows that match, or none when none does. -/
def first (rows : List Device) (p : Device → Bool) : Option Nat → Option (Option Device)
  | none => if rows.any p then none else some none
  | some id => (rows.find? fun d => p d && d.id == id).map some

/-- `filter(p).order_by(created_at.desc())`: the rows that may come first. -/
def newest (rows : List Device) (p : Device → Bool) (d : Device) : Bool :=
  p d && rows.all fun x => !p x || decide (x.createdAt ≤ d.createdAt)

/-- `UPDATE … SET f WHERE p` -/
def updateWhere (p : Device → Bool) (f : Device → Device) (rows : List Device) : List Device :=
  rows.map fun d => if p d then f d else d

/-- A request goes on, or is answered. -/
def World.proceed (w : World) (c : Nat) : Phase ⊕ Answer → World
  | .inl p => { w with calls := Function.update w.calls c p }
  | .inr a => { w with calls := Function.update w.calls c .idle, log := (c, a) :: w.log }

@[simp] theorem proceed_calls {w : World} {c : Nat} (p : Phase) :
    (w.proceed c (.inl p)).calls c = p :=
  Function.update_self ..

@[simp] theorem proceed_answer_calls {w : World} {c : Nat} (a : Answer) :
    (w.proceed c (.inr a)).calls c = .idle :=
  Function.update_self ..

/-! ## Before the first statement -/

def enrollDevice (req : Enrollment) : Phase ⊕ Answer :=
  let req := { req with
    qrToken := Str.strip req.qrToken
    deviceKey := Str.strip req.deviceKey }
  if req.qrToken = [] ∨ req.deviceKey = [] then
    .inr (.error 400 "qr_token and device_key are required")
  else
    .inl (.purgePending req)

def validateDevice (signed : List DeviceToken) (now : Nat) (tok : DeviceToken) :
    Phase ⊕ Answer :=
  if tok ∉ signed then .inr (.invalid 401 "invalid_signature")
  else if Str.strip tok.qrToken = [] then .inr (.invalid 400 "invalid_payload")
  else if tok.retentionUntil ≠ 0 ∧ tok.retentionUntil < now then
    .inr (.invalid 410 "retention_expired")
  else .inl (.validateDevice tok)

/-- The minutes that `extend_token_7d` adds, in seconds. -/
def extension (cfg : Config) : Option Int → Nat
  | none => cfg.retention
  | some minutes => (min (max minutes 1) cfg.codeTtlMax).toNat * 60

def World.begin (w : World) (cfg : Config) : Request → Phase ⊕ Answer
  | .enrollDevice req => enrollDevice req
  | .validateDevice tok => validateDevice w.signed w.now tok
  | .revokeDevice id userSub =>
      if userSub.map Str.strip = some [] then .inr (.error 400 "user_sub is required")
      else .inl (.revokeDevice id (userSub.map Str.strip))
  | .deleteDevice id userSub =>
      if Str.strip userSub = [] then .inr (.error 400 "user_sub is required")
      else .inl (.deleteDevice id (Str.strip userSub))
  | .revokeAllDevices userSub =>
      if userSub.map Str.strip = some [] then .inr (.error 400 "user_sub is required")
      else .inl (.revokeAll (userSub.map Str.strip))
  | .extendToken userSub qrToken ttlMinutes =>
      if Str.strip userSub = [] ∨ Str.strip qrToken = [] then
        .inr (.error 400 "user_sub and qr_token are required")
      else .inl (.extendCode (Str.strip userSub) (Str.strip qrToken) (extension cfg ttlMinutes))
  | .deleteSession simpleCode userSub =>
      if Str.strip userSub = [] then .inr (.error 400 "user_sub is required")
      else .inl (.deleteSession simpleCode (Str.strip userSub))

/-! ## Reads -/

/-- The row that an owner's request is about. -/
def World.owned (w : World) (id : Nat) (userSub : Option Str) (next : Device → Phase) :
    Phase ⊕ Answer :=
  match w.device id with
  | none => .inr (.error 404 "not_found")
  | some rec =>
      if userSub.all (· == rec.userSub) then .inl (next rec)
      else .inr (.error 404 "not_found")

def World.query (w : World) (cfg : Config) (pick : Option Nat) : Phase → Option (Phase ⊕ Answer)
  | .enrollCode req now => some <|
      match w.code req.qrToken with
      | none => .inr (.error 404 "invalid_qr_token")
      | some code =>
          if code.expiresAt < now then .inr (.error 410 "qr_token_expired")
          else .inl (.enrollSameKey req now code)
  -- 1. Idempotent re-enroll
  | .enrollSameKey req now code =>
      (first w.devices (·.keyed req.qrToken req.deviceKey) pick).map fun
        | some rec =>
            if rec.status = .revoked then .inr (.error 403 "device_revoked")
            else .inl (.enrollUpdate req now rec .idempotent)
        | none =>
            if req.fpHash.isSome then .inl (.enrollFusion req now code)
            else .inl (.enrollConfirmed req now code)
  -- 2. Fusion (browser → PWA install)
  | .enrollFusion req now code =>
      let twin (d : Device) : Bool := d.qrToken == req.qrToken && d.fpHash == req.fpHash &&
        d.status != .revoked && now < d.createdAt + cfg.fusionWindow
      (first w.devices (newest w.devices twin) pick).map fun
        | some rec => .inl (.enrollUpdate req now rec .fusedFpWindow)
        | none => .inl (.enrollRebind req now code)
  -- 2b. Rebind by fingerprint
  | .enrollRebind req now code =>
      let lost (d : Device) : Bool :=
        d.qrToken == req.qrToken && d.fpHash == req.fpHash && d.confirmed
      (first w.devices lost pick).map fun
        | some rec => .inl (.enrollUpdate req now rec .rebindFp)
        | none => .inl (.enrollConfirmed req now code)
  -- 3. Reject if a confirmed device already owns this qr_token
  | .enrollConfirmed req now code => some <|
      if w.devices.any fun d => d.qrToken == req.qrToken && d.confirmed then
        .inr (.error 409 "session_already_bound" (some ("Cette session est deja liee a un autre " ++
          "appareil. Pour changer d'appareil, revoquez l'enrolement depuis le portail mydevices.")))
      else .inl (.enrollInsert req now code)
  | .validateDevice tok => some <|
      match w.device tok.deviceId with
      | none => .inr (.invalid 404 "not_found")
      | some rec =>
          if rec.status = .revoked then .inr (.invalid 403 "revoked")
          else if rec.qrToken ≠ Str.strip tok.qrToken then .inr (.invalid 403 "token_mismatch")
          else if rec.retentionExpiresAt < w.now then .inr (.invalid 410 "retention_expired")
          else .inl (.validateCode tok rec w.now)
  | .validateCode tok rec now => some <|
      match w.code (Str.strip tok.qrToken) with
      | none => .inr (.invalid 410 "qr_expired")
      | some code =>
          if code.expiresAt < now then .inr (.invalid 410 "qr_expired")
          else if rec.status = .pending then .inl (.validateOther tok rec now)
          else .inl (.validateCommit tok rec now)
  -- the first device to reach this point owns the qr_token
  | .validateOther tok rec now => some <|
      if w.devices.any fun d =>
          d.qrToken == Str.strip tok.qrToken && d.confirmed && d.id != rec.id then
        .inr (.invalid 409 "session_already_bound")
      else .inl (.validateCommit tok rec now)
  | .revokeDevice id userSub => some (w.owned id userSub .revokeCommit)
  | .deleteDevice id userSub => some (w.owned id (some userSub) .deleteCommit)
  | .extendCode userSub qrToken ttl => some <|
      match w.code qrToken with
      | none => .inr (.error 404 "not_found")
      | some code =>
          if code.userSub ≠ userSub then .inr (.error 403 "forbidden")
          else .inl (.extendCommit code ttl w.now)
  | .deleteSession simpleCode userSub => some <|
      match w.codes.find? (·.simpleCode == simpleCode) with
      | none => .inr (.error 404 "not_found")
      | some code =>
          if code.userSub ≠ userSub then .inr (.error 404 "not_found")
          else .inl (.deleteSessionCommit code)
  | _ => none

/-! ## Writes -/

/-- The `UPDATE` of a loaded row; the row may be gone by then (`StaleDataError`). -/
def World.update (w : World) (c : Nat) (rec : Device) (f : Device → Device)
    (signed : List DeviceToken) (answer : Answer) : World :=
  match w.device rec.id with
  | none => w.proceed c (.inr (.error 500 "internal_error"))
  | some _ =>
      { w with
        devices := updateWhere (·.id == rec.id) f w.devices
        signed := signed ++ w.signed }.proceed c (.inr answer)

/-- The rows of a user, or of every user. -/
def covers (userSub : Option Str) (d : Device) : Bool := userSub.all (· == d.userSub)

def World.commit (w : World) (cfg : Config) (c : Nat) : Phase → Option World
  | .purgePending req =>
      some ({ w with devices := w.devices.filter fun d => !d.expired w.now }.proceed c
        (.inl (.enrollCode req w.now)))
  | .enrollUpdate req now rec reason =>
      let tok := enrolledToken cfg now w.now rec
      some (w.update c rec (·.reenrolled rec cfg req now reason) [tok]
        (.enrolled tok rec.status reason))
  | .enrollInsert req now code =>
      let device := newDevice cfg req now code w.next w.now
      let tok := enrolledToken cfg now w.now device
      some ({ w with
        devices := w.devices ++ [device]
        next := w.next + 1
        signed := tok :: w.signed }.proceed c (.inr (.enrolled tok .pending .fresh)))
  | .validateCommit tok rec now =>
      let status := if rec.status = .pending then .active else rec.status
      some (w.update c rec (·.validated rec now) (tok.refreshed rec).toList
        (.valid tok status (tok.refreshed rec)))
  | .revokeCommit rec => some (w.update c rec (·.revokedAs rec) [] (.revoked 1))
  | .deleteCommit rec =>
      some ({ w with devices := w.devices.filter (·.id != rec.id) }.proceed c (.inr .deleted))
  | .revokeAll userSub =>
      some ({ w with devices := updateWhere (covers userSub) (·.revokedIfActive) w.devices }.proceed
        c (.inr (.revoked (w.devices.countP fun d => covers userSub d && d.status == Status.active))))
  | .extendCommit code ttl now => some <|
      match w.code code.qrToken with
      | none => w.proceed c (.inr (.error 500 "internal_error"))
      | some _ =>
          let expiresAt := max code.expiresAt now + ttl
          { w with
            codes := w.codes.map fun (x : IssuedToken) =>
              if x.qrToken = code.qrToken then { x with expiresAt := expiresAt } else x
            devices := updateWhere (·.qrToken == code.qrToken) (·.renewed cfg now)
              w.devices }.proceed c (.inr (.extended expiresAt))
  | .deleteSessionCommit code =>
      some ({ w with
        codes := w.codes.filter (·.qrToken != code.qrToken)
        devices := w.devices.filter (·.simpleCode != code.simpleCode) }.proceed c (.inr .deleted))
  | _ => none

/-- An exception of the database. That of the purge is caught. -/
def World.fail (w : World) (c : Nat) : Phase → Option World
  | .idle => none
  | .purgePending req => some (w.proceed c (.inl (.enrollCode req w.now)))
  | _ => some (w.proceed c (.inr (.error 500 "internal_error")))

/-! ## Steps -/

inductive Act where
  | wait (seconds : Nat)
  | issueToken (userSub simpleCode qrToken : Str) (ttlMinutes : Nat)
  /-- The purge of the internal zone takes an old code. -/
  | purgeToken (qrToken : Str)
  /-- `GET /api/v1/devices` purges what is pending and expired. -/
  | listDevices
  | request (c : Nat) (req : Request)
  | query (c : Nat) (pick : Option Nat)
  | commit (c : Nat)
  | fail (c : Nat)

/-- The request that takes the step. -/
def Act.caller : Act → Option Nat
  | .request c _ => some c
  | .query c _ => some c
  | .commit c => some c
  | .fail c => some c
  | _ => none

/-- A code may be purged 24 hours after its end when no device came, and after 90 days. -/
def World.purgeable (w : World) (code : IssuedToken) : Bool :=
  code.expiresAt + 24 * 3600 < w.now && w.devices.all (·.simpleCode != code.simpleCode) ||
    code.expiresAt + 90 * 24 * 3600 < w.now

def step (cfg : Config) (w : World) : Act → Option World
  | .wait seconds => some { w with now := w.now + seconds }
  | .issueToken userSub simpleCode qrToken ttlMinutes =>
      if (1 ≤ ttlMinutes ∧ ttlMinutes ≤ cfg.codeTtlMax) ∧
          w.codes.all fun x => x.simpleCode != simpleCode && x.qrToken != qrToken then
        some { w with
          codes := w.codes ++ [⟨userSub, simpleCode, qrToken, w.now + ttlMinutes * 60⟩] }
      else none
  | .purgeToken qrToken =>
      match w.code qrToken with
      | none => none
      | some code =>
          if w.purgeable code then
            some { w with
              codes := w.codes.filter (·.qrToken != qrToken)
              devices := w.devices.filter fun d =>
                d.simpleCode != code.simpleCode || d.lastSeenAt.isSome }
          else none
  | .listDevices => some { w with devices := w.devices.filter fun d => !d.expired w.now }
  | .request c req =>
      match w.calls c with
      | .idle => some (w.proceed c (w.begin cfg req))
      | _ => none
  | .query c pick => (w.query cfg pick (w.calls c)).map (w.proceed c)
  | .commit c => w.commit cfg c (w.calls c)
  | .fail c => w.fail c (w.calls c)

end MesReunions.Devices
