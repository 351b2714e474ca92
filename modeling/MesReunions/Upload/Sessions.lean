import MesReunions.Base.TSys
import MesReunions.Upload.Validation

/-!
# Uploads to a session

`api_upload` of `services/mobile-upload-pwa/app/main.py` with what it calls,
`_register_qr_failed_attempt` and `_claim_device_for_session`: any number of requests over
`upload_sessions` and `uploaded_files`, at READ COMMITTED. Each `SELECT` is a step, and so is
each write with the commit that follows it.

An ORM session that queries a row it already holds gives the instance it holds. With
`expire_on_commit=False` (`create_session_factory`) no commit refreshes it, so the second look
of `_claim_device_for_session` shows the values of the first one.

A session is known by its `qr_token`, which is unique and never changes. Device ids are of any
type; the empty string is `none`. What the checks of the file say comes with the request.
-/

namespace MesReunions.Upload

universe u

/-- `SessionStatus` -/
inductive SessionStatus where
  | active
  | expired
  | completed
  deriving DecidableEq

/-- A row of `upload_sessions`. -/
structure Session (δ : Type u) where
  simpleCode : Str
  qrToken : Str
  status : SessionStatus
  maxUploads : Nat
  uploadCount : Nat
  expiresAt : Nat
  statusViewExpiresAt : Option Nat
  trashedAt : Option Nat
  failedAttempts : Nat
  lockedAt : Option Nat
  claimedByDeviceId : Option δ
  deriving DecidableEq

/-- `sessionmaker(…)` -/
structure SessionFactory where
  expireOnCommit : Bool

/-- `create_session_factory` -/
def createSessionFactory : SessionFactory := ⟨false⟩

/-- The settings of the service. -/
structure Service where
  factory : SessionFactory
  /-- `QR_CODE_MAX_FAILED_ATTEMPTS`, which is `max(1, …)`. -/
  maxFailedAttempts : Nat
  positive : 0 < maxFailedAttempts

def Service.standard : Service := ⟨createSessionFactory, 20, by decide⟩

/-- What `_claim_device_for_session` returns. -/
inductive Verdict where
  | noDeviceId
  | notFound
  | claimedByOtherDevice
  | ok
  | claimErrorIgnored
  deriving DecidableEq

def Verdict.result : Verdict → Bool × String
  | .noDeviceId => (true, "no_device_id")
  | .notFound => (false, "not_found")
  | .claimedByOtherDevice => (false, "claimed_by_other_device")
  | .ok => (true, "ok")
  | .claimErrorIgnored => (true, "claim_error_ignored")

/-- A response of `api_upload`. -/
inductive Response where
  | error (status : Nat) (error : String) (deviceReason : Option Str := none)
  | uploaded (remaining : Nat)
  deriving DecidableEq

/-- What `api_upload` holds once it has `session_obj`. -/
structure Request (δ : Type u) where
  session : Str
  found : Session δ
  /-- What the checks of the file say, where they do not pass. -/
  file : Option String

/-- The statement a request comes to next. -/
inductive Call (δ : Type u) where
  | idle
  | find (qrToken : Str) (file : Option String)
  | validate (req : Request δ)
  | failedRead (req : Request δ) (refusal : Refusal)
  | failedCommit (req : Request δ) (refusal : Refusal) (sess : Session δ)
  | claimRead (req : Request δ) (device : δ)
  | claimUpdate (req : Request δ) (device : δ) (sess : Session δ)
  | claimReread (req : Request δ) (device : δ) (sess : Session δ)
  | claimReset (req : Request δ) (device : δ)
  | store (req : Request δ)
  | insert (req : Request δ)
  | commit (req : Request δ) (row : Session δ)

/-- The request, up to the end of its claim. -/
def Call.claiming {δ : Type u} : Call δ → Option (Request δ)
  | .validate req => some req
  | .claimRead req _ => some req
  | .claimUpdate req _ _ => some req
  | .claimReread req _ _ => some req
  | .claimReset req _ => some req
  | _ => none

/-- The session of a request that has seen it unlocked and may still be accepted. -/
def Call.uploading {δ : Type u} : Call δ → Option Str
  | .store req => some req.session
  | .insert req => some req.session
  | .commit req _ => some req.session
  | call => call.claiming.map (·.session)

/-- The session of a request. -/
def Call.session {δ : Type u} : Call δ → Option Str
  | .failedRead req _ => some req.session
  | .failedCommit req _ _ => some req.session
  | call => call.uploading

/-- A `_claim_device_for_session` that has returned. -/
structure Return (δ : Type u) where
  call : Nat
  session : Str
  device : Option δ
  verdict : Verdict
  deriving DecidableEq

/-- An attempt that has gone as far as its claim, or was refused by the fast path. -/
inductive Attempt (δ : Type u) where
  | claim (claim : Return δ)
  | failed (call : Nat) (session : Str)
  deriving DecidableEq

structure World (δ : Type u) where
  now : Nat
  sessions : Str → Option (Session δ)
  /-- The rows of `uploaded_files`, by their session, the last one first. -/
  files : List Str
  calls : Nat → Call δ
  /-- The attempts, the last one first. -/
  attempts : List (Attempt δ)
  /-- The responses, the last one first. -/
  log : List (Nat × Response)

def World.start {δ : Type u} : World δ := ⟨0, fun _ => none, [], fun _ => .idle, [], []⟩

variable {δ : Type u}

/-! ## Conditions and writers -/

/-- `is_session_valid`: what is wrong with the session, if anything. -/
def isSessionValid (now : Nat) : Option (Session δ) → Option String
  | none => some "Code invalide ou introuvable."
  | some sess =>
      let hint :=
        "Veuillez renouveler votre token (durée + téléchargements) dans l'interface admin."
      let max := sess.maxUploads
      if sess.expiresAt < now then some s!"Token expiré. {hint}"
      else if sess.status ≠ .active then some s!"Token révoqué ou inactif. {hint}"
      else if sess.maxUploads ≤ sess.uploadCount then
        some s!"Nombre maximal de téléchargements atteint ({max}/{max}). {hint}"
      else none

/-- `can_view_status` -/
def canViewStatus (now : Nat) : Option (Session δ) → Bool
  | none => false
  | some sess => sess.statusViewExpiresAt.all (now < ·)

/-- `sess.failed_attempts = … + 1`, and the lock from the threshold on. -/
def Session.registered (row loaded : Session δ) (svc : Service) (now : Nat) : Session δ :=
  { row with
    failedAttempts := loaded.failedAttempts + 1
    lockedAt :=
      if svc.maxFailedAttempts ≤ loaded.failedAttempts + 1 ∧ loaded.lockedAt = none then some now
      else row.lockedAt }

/-- `sess.claimed_by_device_id and sess.claimed_by_device_id != device_id` -/
def Session.ofOther [DecidableEq δ] (sess : Session δ) (device : δ) : Bool :=
  sess.claimedByDeviceId.any (· != device)

/-- The instance that a second query returns: the one that is held, refreshed where the
commit has expired it. -/
def SessionFactory.refetch (factory : SessionFactory) (row : Option (Session δ))
    (held : Session δ) : Option (Session δ) :=
  row.map fun row => if factory.expireOnCommit then row else held

/-- `api_upload` after `_claim_device_for_session`: up to the upload to S3, or a response. -/
def Request.afterClaim (req : Request δ) (verdict : Verdict) : Call δ ⊕ Response :=
  let max := req.found.maxUploads
  if verdict.result.1 = false then
    .inr (.error 409 "Ce code est déjà associé à un autre appareil."
      (some verdict.result.2.toList))
  else if req.found.status ≠ .active then .inr (.error 400 "Token révoqué ou inactif.")
  else if req.found.maxUploads ≤ req.found.uploadCount then
    .inr (.error 400 s!"Nombre maximal de téléchargements atteint ({max}/{max}).")
  else
    match req.file with
    | some error => .inr (.error 400 error)
    | none => .inl (.store req)

/-! ## Steps of a request -/

/-- Where a request goes. -/
inductive Next (δ : Type u) where
  | goto (call : Call δ)
  | answer (response : Response)
  /-- The attempt has failed. -/
  | refuse (req : Request δ) (refusal : Refusal)
  /-- `_claim_device_for_session` returns, and `api_upload` goes on. -/
  | verdict (req : Request δ) (device : Option δ) (verdict : Verdict)

/-- What an `UPDATE` sets, and the row of `uploaded_files` that comes with it. -/
structure Write (δ : Type u) where
  session : Str
  set : Session δ → Session δ
  file : Bool

/-- The response of an attempt that the fast path refused. -/
def Refusal.response (refusal : Refusal) : Response :=
  .error 401 refusal.message (some refusal.reason)

def World.goto (w : World δ) (c : Nat) (call : Call δ) : World δ :=
  { w with calls := Function.update w.calls c call }

def World.answer (w : World δ) (c : Nat) (response : Response) : World δ :=
  { w with calls := Function.update w.calls c .idle, log := (c, response) :: w.log }

def World.proceed (w : World δ) (c : Nat) : Next δ → World δ
  | .goto call => w.goto c call
  | .answer response => w.answer c response
  | .refuse req refusal =>
      { w with attempts := .failed c req.session :: w.attempts }.answer c refusal.response
  | .verdict req device verdict =>
      let w := { w with attempts := .claim ⟨c, req.session, device, verdict⟩ :: w.attempts }
      match req.afterClaim verdict with
      | .inl call => w.goto c call
      | .inr response => w.answer c response

def World.write (w : World δ) (write : Write δ) : World δ :=
  { w with
    sessions := Function.update w.sessions write.session
      ((w.sessions write.session).map write.set)
    files := if write.file then write.session :: w.files else w.files }

/-- The `SELECT` a request is at. -/
def World.select [DecidableEq δ] (svc : Service) (w : World δ) : Call δ → Option (Next δ)
  | .find qrToken file => some <|
      match w.sessions qrToken with
      | none => .answer (.error 400 "Code invalide ou introuvable.")
      | some sess =>
          if sess.trashedAt.isSome ∨ sess.lockedAt.isSome then
            .answer (.error 400 "Code invalide ou introuvable.")
          else .goto (.validate ⟨qrToken, sess, file⟩)
  | .failedRead req refusal => some <|
      match w.sessions req.session with
      | none => .refuse req refusal
      | some sess => .goto (.failedCommit req refusal sess)
  | .claimRead req device => some <|
      match w.sessions req.session with
      | none => .verdict req (some device) .notFound
      | some sess =>
          if sess.ofOther device then .verdict req (some device) .claimedByOtherDevice
          else if sess.claimedByDeviceId.isNone then .goto (.claimUpdate req device sess)
          else .goto (.claimReset req device)
  | .claimReread req device sess => some <|
      if (svc.factory.refetch (w.sessions req.session) sess).any (·.ofOther device) then
        .verdict req (some device) .claimedByOtherDevice
      else .goto (.claimReset req device)
  | .insert req => some <|
      match w.sessions req.session with
      | none => .answer (.error 500 "Internal Server Error")
      | some row => .goto (.commit req row)
  | _ => none

/-- What the fast path decides. -/
def World.validated (result : Except Refusal (Option δ)) : Call δ → Option (Next δ)
  | .validate req => some <|
      match result with
      | .error refusal => .goto (.failedRead req refusal)
      | .ok none => .verdict req none .noDeviceId
      | .ok (some device) => .goto (.claimRead req device)
  | _ => none

/-- The write a request is at, and its commit. -/
def World.update (svc : Service) (w : World δ) : Call δ → Option (Write δ × Next δ)
  | .failedCommit req refusal sess =>
      some (⟨req.session, (·.registered sess svc w.now), false⟩, .refuse req refusal)
  | .claimUpdate req device sess => some <|
      if (w.sessions req.session).any (·.claimedByDeviceId.isNone) then
        (⟨req.session, fun row => { row with claimedByDeviceId := some device }, false⟩,
          .goto (.claimReset req device))
      else (⟨req.session, id, false⟩, .goto (.claimReread req device sess))
  | .claimReset req device =>
      some (⟨req.session, fun row => { row with failedAttempts := 0 }, false⟩,
        .verdict req (some device) .ok)
  | .commit req row =>
      some (⟨req.session, fun current => { current with uploadCount := row.uploadCount + 1 }, true⟩,
        .answer (.uploaded (row.maxUploads - (row.uploadCount + 1))))
  | _ => none

/-- An exception, of the database or of S3. That of a claim is ignored. -/
def World.failed : Call δ → Option (Next δ)
  | .find _ _ => some (.answer (.error 500 "Internal Server Error"))
  | .failedRead req refusal => some (.refuse req refusal)
  | .failedCommit req refusal _ => some (.refuse req refusal)
  | .claimRead req device => some (.verdict req (some device) .claimErrorIgnored)
  | .claimUpdate req device _ => some (.verdict req (some device) .claimErrorIgnored)
  | .claimReread req device _ => some (.verdict req (some device) .claimErrorIgnored)
  | .claimReset req device => some (.verdict req (some device) .claimErrorIgnored)
  | .store _ => some (.answer (.error 500 "Erreur lors de l'upload. Réessayez."))
  | .insert _ => some (.answer (.error 500 "Internal Server Error"))
  | .commit _ _ => some (.answer (.error 500 "Internal Server Error"))
  | _ => none

/-! ## Steps -/

inductive Act (δ : Type u) where
  | wait (seconds : Nat)
  /-- The portal creates a session, -/
  | createSession (qrToken simpleCode : Str) (maxUploads ttl view : Nat)
  /-- puts it in the bin, -/
  | trashSession (qrToken : Str)
  /-- and renews it. -/
  | renewSession (qrToken : Str) (expiresAt statusViewExpiresAt addUploads : Nat)
  /-- `POST /api/upload/<qr_token>` -/
  | apiUpload (c : Nat) (qrToken : Str) (file : Option String)
  | select (c : Nat)
  /-- `_validate_device_fast_path` -/
  | validate (c : Nat) (result : Except Refusal (Option δ))
  | update (c : Nat)
  /-- `store_audio_to_s3` -/
  | put (c : Nat)
  | error (c : Nat)

/-- The request that takes the step. -/
def Act.caller : Act δ → Option Nat
  | .apiUpload c _ _ => some c
  | .select c => some c
  | .validate c _ => some c
  | .update c => some c
  | .put c => some c
  | .error c => some c
  | _ => none

/-- A session as `api_generate` creates it. -/
def newSession (qrToken simpleCode : Str) (maxUploads expiresAt view : Nat) : Session δ where
  simpleCode := simpleCode
  qrToken := qrToken
  status := .active
  maxUploads := maxUploads
  uploadCount := 0
  expiresAt := expiresAt
  statusViewExpiresAt := some (expiresAt + view)
  trashedAt := none
  failedAttempts := 0
  lockedAt := none
  claimedByDeviceId := none

/-- `api_renew_token_7d` -/
def Session.renewed (row : Session δ) (expiresAt statusViewExpiresAt addUploads : Nat) :
    Session δ :=
  { row with
    expiresAt := expiresAt
    statusViewExpiresAt := some statusViewExpiresAt
    status := .active
    maxUploads := if 0 < addUploads then min 1000 (row.maxUploads + addUploads)
      else row.maxUploads }

variable [DecidableEq δ]

def step (svc : Service) (w : World δ) : Act δ → Option (World δ)
  | .wait seconds => some { w with now := w.now + seconds }
  | .createSession qrToken simpleCode maxUploads ttl view =>
      match w.sessions qrToken with
      | some _ => none
      | none =>
          let sess := newSession qrToken simpleCode maxUploads (w.now + ttl) view
          some { w with sessions := Function.update w.sessions qrToken (some sess) }
  | .trashSession qrToken =>
      some (w.write ⟨qrToken, fun row => { row with trashedAt := some w.now }, false⟩)
  | .renewSession qrToken expiresAt statusViewExpiresAt addUploads =>
      some (w.write ⟨qrToken, (·.renewed expiresAt statusViewExpiresAt addUploads), false⟩)
  | .apiUpload c qrToken file =>
      match w.calls c with
      | .idle => some (w.goto c (.find qrToken file))
      | _ => none
  | .select c => (w.select svc (w.calls c)).map (w.proceed c)
  | .validate c result => (World.validated result (w.calls c)).map (w.proceed c)
  | .update c => (w.update svc (w.calls c)).map fun x => (w.write x.1).proceed c x.2
  | .put c =>
      match w.calls c with
      | .store req => some (w.goto c (.insert req))
      | _ => none
  | .error c => (World.failed (w.calls c)).map (w.proceed c)

end MesReunions.Upload
