import MesReunions.Base.Orm
import MesReunions.Base.Str

/-!
# Enrolments of devices

`issued_tokens`, `device_enrollments` and the payload of a signed device token, as
`services/device-token-authority/app/main.py` reads and writes them:

* the conditions its queries share, `Device.confirmed` and `Device.expired`;
* what each route writes to a row: `Device.reenrolled` and `newDevice` (`enroll_device`),
  `Device.validated` (`validate_device`), `Device.revokedAs`, `Device.renewed`.

A writer that loads a row and commits it later takes the row as it was loaded and the row as
it is now. Times are in seconds. Device names, user agents, the texts of the fingerprints and
the reasons of the revocations are left out; a fingerprint is there by its `fp_hash`.
-/

namespace MesReunions.Devices

/-- `status` -/
inductive Status where
  | pending
  | active
  | revoked
  deriving DecidableEq

/-- The settings of the service, in seconds except where they say otherwise. -/
structure Config where
  /-- `DEVICE_TOKEN_RETENTION_HOURS` -/
  retention : Nat
  /-- `DEVICE_FUSION_WINDOW_MINUTES` -/
  fusionWindow : Nat
  /-- `DEVICE_PENDING_PURGE_SECONDS` -/
  pendingPurge : Nat
  /-- `CODE_TTL_MAX_MINUTES`, in minutes. -/
  codeTtlMax : Nat

/-- The settings when the environment gives none. -/
def Config.standard : Config := ⟨168 * 3600, 15 * 60, 120, 60⟩

/-- A row of `issued_tokens`: a QR code. -/
structure IssuedToken where
  userSub : Str
  simpleCode : Str
  qrToken : Str
  expiresAt : Nat
  deriving DecidableEq

/-- A row of `device_enrollments`. -/
structure Device where
  id : Nat
  userSub : Str
  qrToken : Str
  simpleCode : Str
  deviceKey : Str
  fpHash : Option Str
  status : Status
  confirmedAt : Option Nat
  purgeAt : Option Nat
  retentionExpiresAt : Nat
  lastSeenAt : Option Nat
  createdAt : Nat
  deriving DecidableEq

/-- The payload of a device token. -/
structure DeviceToken where
  deviceId : Nat
  userSub : Str
  qrToken : Str
  simpleCode : Str
  retentionUntil : Nat
  iat : Nat
  deriving DecidableEq

/-- What `enroll_device` takes from its request. The hash of the fingerprint is `none` where
`compute_fp_hash` returns the empty string. -/
structure Enrollment where
  qrToken : Str
  deviceKey : Str
  fpHash : Option Str
  deriving DecidableEq

/-- `enroll_reason` -/
inductive EnrollReason where
  | fresh
  | idempotent
  | fusedFpWindow
  | rebindFp
  deriving DecidableEq

/-! ## Conditions -/

/-- `status == "active"` and `confirmed_at IS NOT NULL`. -/
def Device.confirmed (d : Device) : Bool := d.status == .active && d.confirmedAt.isSome

/-- What `purge_expired_pending` deletes. -/
def Device.expired (d : Device) (now : Nat) : Bool :=
  d.status == .pending && d.purgeAt.any (· < now)

/-- The row of a QR code under a key. -/
def Device.keyed (d : Device) (qrToken deviceKey : Str) : Bool :=
  d.qrToken == qrToken && d.deviceKey == deviceKey

/-! ## Writers -/

/-- A column of 255 characters takes `device_key[:255]`. -/
def storedKey (deviceKey : Str) : Str := deviceKey.take 255

/-- `enroll_device` on a row it found; a rebind rotates the key. -/
def Device.reenrolled (d loaded : Device) (cfg : Config) (req : Enrollment) (now : Nat)
    (reason : EnrollReason) : Device :=
  { d with
    deviceKey := match reason with
      | .rebindFp => written loaded.deviceKey (storedKey req.deviceKey) d.deviceKey
      | _ => d.deviceKey
    fpHash := if loaded.fpHash.isNone && req.fpHash.isSome then req.fpHash else d.fpHash
    lastSeenAt := written loaded.lastSeenAt (some now) d.lastSeenAt
    retentionExpiresAt :=
      written loaded.retentionExpiresAt (now + cfg.retention) d.retentionExpiresAt
    purgeAt := match loaded.status with
      | .pending => written loaded.purgeAt (some (now + cfg.pendingPurge)) d.purgeAt
      | _ => d.purgeAt }

/-- The pending row of a first enrolment; `created_at` is the time of the `INSERT`. -/
def newDevice (cfg : Config) (req : Enrollment) (now : Nat) (code : IssuedToken)
    (id createdAt : Nat) : Device where
  id := id
  userSub := code.userSub
  qrToken := code.qrToken
  simpleCode := code.simpleCode
  deviceKey := storedKey req.deviceKey
  fpHash := req.fpHash
  status := .pending
  confirmedAt := none
  purgeAt := some (now + cfg.pendingPurge)
  retentionExpiresAt := now + cfg.retention
  lastSeenAt := some now
  createdAt := createdAt

/-- `validate_device`: a row that was loaded as pending becomes active. -/
def Device.validated (d loaded : Device) (now : Nat) : Device :=
  match loaded.status with
  | .pending =>
      { d with
        status := .active
        confirmedAt := written loaded.confirmedAt (some now) d.confirmedAt
        purgeAt := written loaded.purgeAt none d.purgeAt
        lastSeenAt := written loaded.lastSeenAt (some now) d.lastSeenAt }
  | _ => { d with lastSeenAt := written loaded.lastSeenAt (some now) d.lastSeenAt }

/-- `revoke_device`, and `revoke-one` of the admin console. -/
def Device.revokedAs (d loaded : Device) : Device :=
  { d with status := written loaded.status .revoked d.status }

/-- The `UPDATE` of the two `revoke-all` routes, of one row. -/
def Device.revokedIfActive (d : Device) : Device :=
  if d.status = .active then { d with status := .revoked } else d

/-- The `UPDATE` of `extend_token_7d`, of one row. -/
def Device.renewed (d : Device) (cfg : Config) (now : Nat) : Device :=
  if d.status = .active then { d with retentionExpiresAt := now + cfg.retention } else d

/-- The token `enroll_device` signs for a row, as it holds it after the commit. -/
def enrolledToken (cfg : Config) (now iat : Nat) (d : Device) : DeviceToken where
  deviceId := d.id
  userSub := d.userSub
  qrToken := d.qrToken
  simpleCode := d.simpleCode
  retentionUntil := now + cfg.retention
  iat := iat

/-- `refreshed_device_token`: the same payload, where the retention has moved. -/
def DeviceToken.refreshed (tok : DeviceToken) (loaded : Device) : Option DeviceToken :=
  if tok.retentionUntil = loaded.retentionExpiresAt then none
  else some { tok with retentionUntil := loaded.retentionExpiresAt }

/-! ## What no writer touches -/

/-- The columns that are written once. -/
structure Origin where
  userSub : Str
  qrToken : Str

def Device.origin (d : Device) : Origin := ⟨d.userSub, d.qrToken⟩

def DeviceToken.origin (tok : DeviceToken) : Origin := ⟨tok.userSub, tok.qrToken⟩

section Writers

variable (cfg : Config) (req : Enrollment) (now : Nat) (reason : EnrollReason)
  (loaded d : Device)

@[simp] theorem reenrolled_id : (d.reenrolled loaded cfg req now reason).id = d.id := rfl

@[simp] theorem reenrolled_origin :
    (d.reenrolled loaded cfg req now reason).origin = d.origin := rfl

@[simp] theorem reenrolled_status :
    (d.reenrolled loaded cfg req now reason).status = d.status := rfl

@[simp] theorem reenrolled_confirmedAt :
    (d.reenrolled loaded cfg req now reason).confirmedAt = d.confirmedAt := rfl

@[simp] theorem validated_id : (d.validated loaded now).id = d.id := by
  unfold Device.validated
  split <;> rfl

@[simp] theorem validated_origin : (d.validated loaded now).origin = d.origin := by
  unfold Device.validated
  split <;> rfl

@[simp] theorem validated_deviceKey : (d.validated loaded now).deviceKey = d.deviceKey := by
  unfold Device.validated
  split <;> rfl

@[simp] theorem revokedAs_id : (d.revokedAs loaded).id = d.id := rfl

@[simp] theorem revokedAs_origin : (d.revokedAs loaded).origin = d.origin := rfl

@[simp] theorem revokedAs_deviceKey : (d.revokedAs loaded).deviceKey = d.deviceKey := rfl

@[simp] theorem revokedIfActive_id : d.revokedIfActive.id = d.id := by
  unfold Device.revokedIfActive
  split <;> rfl

@[simp] theorem revokedIfActive_origin : d.revokedIfActive.origin = d.origin := by
  unfold Device.revokedIfActive
  split <;> rfl

@[simp] theorem revokedIfActive_deviceKey : d.revokedIfActive.deviceKey = d.deviceKey := by
  unfold Device.revokedIfActive
  split <;> rfl

@[simp] theorem renewed_id : (d.renewed cfg now).id = d.id := by
  unfold Device.renewed
  split <;> rfl

@[simp] theorem renewed_origin : (d.renewed cfg now).origin = d.origin := by
  unfold Device.renewed
  split <;> rfl

@[simp] theorem renewed_deviceKey : (d.renewed cfg now).deviceKey = d.deviceKey := by
  unfold Device.renewed
  split <;> rfl

@[simp] theorem renewed_status : (d.renewed cfg now).status = d.status := by
  unfold Device.renewed
  split <;> rfl

@[simp] theorem renewed_confirmedAt : (d.renewed cfg now).confirmedAt = d.confirmedAt := by
  unfold Device.renewed
  split <;> rfl

/-- Only a rebind gives a row another key: that of the request. -/
theorem reenrolled_deviceKey :
    (d.reenrolled loaded cfg req now reason).deviceKey = d.deviceKey ∨
      reason = .rebindFp ∧
        (d.reenrolled loaded cfg req now reason).deviceKey = storedKey req.deviceKey := by
  cases reason with
  | rebindFp =>
      rcases written_eq loaded.deviceKey (storedKey req.deviceKey) d.deviceKey with h | h
      · exact .inr ⟨rfl, h⟩
      · exact .inl h
  | fresh | idempotent | fusedFpWindow => exact .inl rfl

/-- Only a row that was loaded as pending changes its status. -/
theorem validated_status :
    (d.validated loaded now).status = d.status ∧
        (d.validated loaded now).confirmedAt = d.confirmedAt ∨
      loaded.status = .pending ∧ (d.validated loaded now).status = .active := by
  unfold Device.validated
  split
  · rename_i h
    exact .inr ⟨h, rfl⟩
  · exact .inl ⟨rfl, rfl⟩

theorem revokedAs_status :
    (d.revokedAs loaded).status = d.status ∨ (d.revokedAs loaded).status = .revoked :=
  (written_eq loaded.status .revoked d.status).symm

theorem revokedIfActive_status :
    d.revokedIfActive = d ∧ d.status ≠ .active ∨
      d.status = .active ∧ d.revokedIfActive.status = .revoked := by
  unfold Device.revokedIfActive
  split
  · rename_i h
    exact .inr ⟨h, rfl⟩
  · rename_i h
    exact .inl ⟨rfl, h⟩

end Writers

end MesReunions.Devices
