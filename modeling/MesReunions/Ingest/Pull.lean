import MesReunions.Queue.Drain

/-!
# Pulling an audio file into the internal zone

`services/dmz-to-internal-bridge/app/puller.py`: `_perform_pull` copies the file,
commits a `UserAudioFile` row and only then hands the audio to the transcription
backend; `_drain_internal_pull_callback` is what the queue helper calls.

S3 copies and database commits succeed. What the services behind a dispatch
answer is the parameter `Env`, one for each attempt made for an audio.
Notifications to the portal never raise and change nothing here.
-/

namespace MesReunions.Ingest

open MesReunions.Queue

/-- The exceptions a pull can meet. -/
inductive IngestError where
  | valueError
  | typeError
  | mcrAuth
  | mcrApplicative
  | mcrTransient
  | keventAuth
  | keventApplicative
  | keventTransient
  | other
  deriving DecidableEq

/-- Raised again so that the retry counter of the queue takes over. -/
def IngestError.isTransient : IngestError → Bool
  | .mcrTransient => true
  | .keventTransient => true
  | _ => false

/-- `UserAudioFile.transcription_status` -/
inductive Status where
  | pending
  | disabled
  | mcrPushFailed
  | mcrAuthFailed
  | mcrRejected
  | mcrPushed
  | keventTranscribing
  | keventFailed
  | keventCompleted
  deriving DecidableEq

/-- A `UserAudioFile` row. -/
structure Row where
  id : Nat
  storedFilename : Str
  transcriptionStatus : Status

/-- What the services behind one dispatch answer. -/
structure Env where
  mcrConfigured : Bool
  ciphertext : Bool
  decrypts : Bool
  exchangeRefresh : Except IngestError Unit
  createMeeting : Except IngestError Unit
  generatePresigned : Except IngestError Unit
  uploadBinary : Except IngestError Unit
  keventConfigured : Bool
  transcribe : Except IngestError Unit
  enqueue : Except IngestError Unit

/-- The deployment. `lower` is `str.lower`, `format` is how an f-string shows a
value, and `env key n` is what answers attempt `n` for the audio stored at `key`. -/
structure Config where
  transcriptionBackend : Str
  lower : Str → Str
  format : Json → Str
  env : Str → Nat → Env

/-- The database, and a record of the dispatches for each audio. -/
structure Puller where
  rows : List Row
  nextId : Nat
  /-- The audios handed to a backend, one entry for each attempt. -/
  attempts : List Str
  /-- The audios a backend took: pushed to MCR, or transcribed by Kevent. -/
  dispatched : List Str

abbrev Act := EStateM IngestError Puller

/-! ## Dispatch -/

def setStatus (id : Nat) (status : Status) : Act Unit := modify fun s =>
  { s with rows := s.rows.map fun r =>
      if r.id = id then { r with transcriptionStatus := status } else r }

def noteAttempt (key : Str) : Act Unit := modify fun s =>
  { s with attempts := s.attempts ++ [key] }

def noteDispatched (key : Str) : Act Unit := modify fun s =>
  { s with dispatched := s.dispatched ++ [key] }

/-- `_build_mcr_client()` gives a client. -/
def buildMcrClient (cfg : Config) (env : Env) : Bool :=
  cfg.transcriptionBackend == "mcr".toList && env.mcrConfigured

/-- `_build_kevent_client()` gives a client. -/
def buildKeventClient (cfg : Config) (env : Env) : Bool :=
  cfg.transcriptionBackend == "kevent".toList && env.keventConfigured

/-- `_push_to_mcr(...)`. An authentication error also deletes the stored token. -/
def pushToMcr (cfg : Config) (env : Env) (id : Nat) (key : Str) : Act Unit :=
  if !buildMcrClient cfg env then setStatus id .mcrPushFailed
  else if !env.ciphertext then setStatus id .mcrAuthFailed
  else if !env.decrypts then setStatus id .mcrAuthFailed
  else match env.exchangeRefresh with
    | .error .mcrAuth => setStatus id .mcrAuthFailed
    | .error e => throw e
    | .ok () =>
        match env.createMeeting >>= fun _ => env.generatePresigned >>= fun _ =>
            env.uploadBinary with
        | .error .mcrAuth => setStatus id .mcrAuthFailed
        | .error .mcrApplicative => setStatus id .mcrRejected
        | .error e => throw e
        | .ok () => do
            noteDispatched key
            setStatus id .mcrPushed

/-- `_transcribe_via_kevent(...)`. What follows the transcript is best effort and
raises nothing. -/
def transcribeViaKevent (cfg : Config) (env : Env) (id : Nat) (key : Str) : Act Unit :=
  if !buildKeventClient cfg env then setStatus id .keventFailed
  else match env.transcribe with
    | .error .keventAuth => setStatus id .keventFailed
    | .error .keventApplicative => setStatus id .keventFailed
    | .error e => throw e
    | .ok () => do
        noteDispatched key
        setStatus id .keventCompleted

/-- `(TRANSCRIPTION_BACKEND or "stub").strip().lower()` -/
def backend (cfg : Config) : Str :=
  cfg.lower (Str.strip
    (if cfg.transcriptionBackend = [] then "stub".toList else cfg.transcriptionBackend))

/-- The three backends of `_perform_pull`. -/
def dispatch (cfg : Config) (env : Env) (id : Nat) (key : Str) : Act Unit :=
  if backend cfg = "mcr".toList then pushToMcr cfg env id key
  else if backend cfg = "kevent".toList then do
    setStatus id .keventTranscribing
    -- `except KeventTransientError: raise`
    transcribeViaKevent cfg env id key
  else match env.enqueue with
    | .ok () => setStatus id .pending
    | .error _ => pure ()

/-! ## The pull -/

def required : List Str :=
  ["file_id".toList, "user_sub".toList, "simple_code".toList, "transcoded_filename".toList]

def field (payload : List (Str × Json)) (name : String) : Json :=
  (Json.get? payload name.toList).getD .null

/-- `f"{user_sub}/{simple_code}/{transcoded_filename}"` -/
def internalKey (cfg : Config) (payload : List (Str × Json)) : Str :=
  cfg.format (field payload "user_sub") ++ '/' :: cfg.format (field payload "simple_code") ++
    '/' :: cfg.format (field payload "transcoded_filename")

/-- `extract_meeting_datetime(payload.get("original_filename") or transcoded_filename
or "")` raises on what is true but no string. -/
def filenameIsText (payload : List (Str × Json)) : Bool :=
  let original := field payload "original_filename"
  let name := if original.truthy then original else field payload "transcoded_filename"
  match name with
  | .str _ => true
  | v => !v.truthy

inductive PullStatus where
  | alreadyPulled
  | pulled

/-- `db.add(audio_file)`, then the commit. -/
def commitRow (key : Str) (autoTranscribe : Bool) : Act Nat := fun s =>
  .ok s.nextId
    { s with rows := s.rows ++ [⟨s.nextId, key, if autoTranscribe then .pending else .disabled⟩]
             nextId := s.nextId + 1 }

/-- `_perform_pull(payload)` -/
def performPull (cfg : Config) (payload : List (Str × Json)) : Act PullStatus :=
  if required.any fun f => (Json.get? payload f).isNone then throw .valueError
  else do
    let autoTranscribe := (field payload "auto_transcribe").truthy
    let key := internalKey cfg payload
    let s ← get
    if (s.rows.find? fun r => r.storedFilename == key).isSome then
      return .alreadyPulled
    else if !filenameIsText payload then throw .typeError
    else
      let id ← commitRow key autoTranscribe
      if autoTranscribe then
        noteAttempt key
        dispatch cfg (cfg.env key (s.attempts.count key)) id key
      return .pulled

/-- `except ValueError: return True`, `except Exception: return False`. -/
def verdict : EStateM.Result IngestError Puller PullStatus →
    EStateM.Result IngestError Puller Bool
  | .ok _ s => .ok true s
  | .error .valueError s => .ok true s
  | .error _ s => .ok false s

/-- `_drain_internal_pull_callback(message)`. The queue helper has already failed
on a message that is no object. -/
def drainInternalPullCallback (cfg : Config) (message : Json) : Act Bool := fun s =>
  match message with
  | .obj payload => verdict (performPull cfg payload s)
  | _ => .ok false s

/-- `_drain_internal_pull_queue()`: the helper with no `on_give_up`. -/
def pullPolicy (cfg : Config) (loads : Bytes → Option Json) (maxRetries : Int) :
    Policy IngestError Puller where
  loads := loads
  callback := drainInternalPullCallback cfg
  maxRetries := maxRetries
  onGiveUp := none

end MesReunions.Ingest
