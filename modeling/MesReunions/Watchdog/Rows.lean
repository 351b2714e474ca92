import Mathlib.Logic.Function.Basic
import MesReunions.Base.Orm

/-!
# The rows the pipeline watchdog looks at

`user_audio_files`, as `services/dmz-to-internal-bridge/app` reads and writes it:

* the two predicates of `pipeline_watchdog.py`, `Row.stuck` (`_scan_stuck`) and
  `Row.overCap` (`_mark_capped_as_failed`);
* the row writers of `pipeline_watchdog.py`, `puller.py`, `mcr_importer.py` and of
  `mark_audio_reprocessed` in `services/device-token-authority/app/main.py`.

A writer that loads a row and commits it later takes the row as it was loaded and the row
as it is now: SQLAlchemy only writes the attributes that differ from what was loaded.
The texts of a transcription, the histories and the timing columns are left out.
-/

namespace MesReunions.Watchdog

/-- `transcription_status` -/
inductive Status where
  | pending
  | transferring
  | transcoding
  | keventQueued
  | keventTranscribing
  | keventProcessing
  | keventReprocessing
  | mcrImportPending
  | keventFailed
  | failed
  | mcrImportFailed
  | keventCompleted
  | keventPartiallyCompleted
  | mcrTranscriptOnly
  deriving DecidableEq

/-- `last_error_kind` -/
inductive ErrorKind where
  | mcrUnavailableOnSource
  | s3ObjectPurged
  | s3NoAudioPath
  | capExceeded
  | workerCrash
  | keventClientUnavailable
  | keventAuthFailed
  | keventApplicative
  | llmChainPartial
  | mcrOidcAuth
  | mcrOidcOther
  | mcrAuthFailed
  | mcrAudioError
  | mcrAudio404
  | mcrTranscriptError
  deriving DecidableEq

/-- `origin` -/
inductive Origin where
  | upload
  | mcrImport
  deriving DecidableEq

/-- A row. Times and durations are in ticks of one clock. -/
structure Row where
  userSub : String
  origin : Origin
  storedFilename : String
  transcriptionStatus : Status
  createdAt : Nat
  lastActivityAt : Option Nat
  pipelineClaimAt : Option Nat
  reprocessVersion : Int
  lastErrorKind : Option ErrorKind
  deriving DecidableEq

abbrev Table := Nat → Option Row

/-- `filter(id == audio_id, user_sub == user_sub).first()` -/
def Table.find (t : Table) (audio : Nat) (userSub : String) : Option Row :=
  (t audio).filter (·.userSub == userSub)

/-- The environment of `pipeline_watchdog.py`. -/
structure Config where
  staleThreshold : Nat
  claimLease : Nat
  scanBatchLimit : Nat
  maxAge : Nat
  maxAutoRetries : Nat

/-- The values without an environment variable, in seconds. -/
def Config.standard : Config where
  staleThreshold := 300
  claimLease := 90
  scanBatchLimit := 20
  maxAge := 168 * 3600
  maxAutoRetries := 5

/-! ## The predicates of the watchdog -/

/-- `NON_TERMINAL_STATUSES` -/
def nonTerminalStatuses : List Status :=
  [.pending, .transferring, .transcoding, .keventQueued, .keventTranscribing, .keventProcessing,
    .keventReprocessing, .mcrImportPending]

/-- `RETRYABLE_TERMINAL_STATUSES` -/
def retryableTerminalStatuses : List Status := [.keventFailed, .failed, .mcrImportFailed]

/-- The kinds that `_scan_stuck` leaves out. -/
def notRetryable : List ErrorKind := [.mcrUnavailableOnSource, .s3ObjectPurged, .s3NoAudioPath]

/-- `t IS NULL OR t < :now - span` -/
def before (t : Option Nat) (span now : Nat) : Bool :=
  match t with
  | none => true
  | some t => decide (t + span < now)

/-- Who calls `scan_and_resume`: the loop of a pod, or the endpoint `resume-stuck-jobs`. -/
inductive Caller where
  | watchdog
  | request (userSub : Option String) (limit : Nat) (includeFailed : Bool)
  deriving DecidableEq

def Caller.includeFailed : Caller → Bool
  | .watchdog => false
  | .request _ _ includeFailed => includeFailed

def Caller.userSub : Caller → Option String
  | .watchdog => none
  | .request userSub _ _ => userSub

/-- The `limit` of a request is `max(1, min(50, limit))`. -/
def Caller.limit (cfg : Config) : Caller → Nat
  | .watchdog => cfg.scanBatchLimit
  | .request _ limit _ => max 1 (min 50 limit)

def Row.stale (cfg : Config) (r : Row) (now : Nat) : Bool :=
  before r.lastActivityAt cfg.staleThreshold now

/-- `pipeline_claim_at IS NULL OR pipeline_claim_at < :claim_cutoff` -/
def Row.claimFree (cfg : Config) (r : Row) (now : Nat) : Bool :=
  before r.pipelineClaimAt cfg.claimLease now

def Row.retryable (r : Row) : Bool :=
  match r.lastErrorKind with
  | none => true
  | some kind => !notRetryable.contains kind

/-- The `WHERE` of `_scan_stuck`. -/
def Row.stuck (cfg : Config) (caller : Caller) (r : Row) (now : Nat) : Bool :=
  (nonTerminalStatuses.contains r.transcriptionStatus ||
    (caller.includeFailed && retryableTerminalStatuses.contains r.transcriptionStatus)) &&
  (caller.includeFailed || r.stale cfg now) &&
  decide (now < r.createdAt + cfg.maxAge) &&
  r.claimFree cfg now &&
  r.retryable &&
  (caller.includeFailed || decide (r.reprocessVersion < cfg.maxAutoRetries)) &&
  (match caller.userSub with
    | none => true
    | some userSub => userSub == "" || r.userSub == userSub)

/-- The `WHERE` of `_mark_capped_as_failed`. -/
def Row.overCap (cfg : Config) (r : Row) (now : Nat) : Bool :=
  nonTerminalStatuses.contains r.transcriptionStatus &&
  decide (cfg.maxAutoRetries ≤ r.reprocessVersion) &&
  r.stale cfg now

/-- The `SET` of `_mark_capped_as_failed`. -/
def Row.markCapped (r : Row) (now : Nat) : Row :=
  { r with transcriptionStatus := .keventFailed, lastActivityAt := some now,
           pipelineClaimAt := none, lastErrorKind := some .capExceeded }

/-- `_mark_capped_as_failed(session_factory)` -/
def markCappedAsFailed (cfg : Config) (t : Table) (now : Nat) : Table := fun a =>
  (t a).map fun r => if r.overCap cfg now then r.markCapped now else r

/-- The `SET` of `_try_claim`. -/
def Row.claimed (r : Row) (now : Nat) : Row := { r with pipelineClaimAt := some now }

/-! ## Writers -/

/-- `_set_user_audio_status(audio_file_id, status, ...)`; `kind` is `last_error_kind` where the
call names it. -/
def Row.setUserAudioStatus (r : Row) (now : Nat) (status : Status)
    (kind : Option (Option ErrorKind)) : Row :=
  { r with transcriptionStatus := status, lastActivityAt := some now,
           lastErrorKind := kind.getD r.lastErrorKind }

/-- `_touch_last_activity(audio_file_id)`; an edit of the text does the same. -/
def Row.touchLastActivity (r : Row) (now : Nat) : Row := { r with lastActivityAt := some now }

/-- `_persist_terminal_error(db, uaf, kind=..., message=...)` -/
def Row.persistTerminalError (current loaded : Row) (now : Nat) (kind : ErrorKind) : Row :=
  { current with
    transcriptionStatus :=
      written loaded.transcriptionStatus .keventFailed current.transcriptionStatus
    lastActivityAt := some now
    lastErrorKind := written loaded.lastErrorKind (some kind) current.lastErrorKind
    pipelineClaimAt := written loaded.pipelineClaimAt none current.pipelineClaimAt }

/-- What `_reset_and_resubmit_kevent_pipeline`, `_resume_mcr_import` and `reprocess_audio`
commit: a status, an activity and the next version. The claim stays. -/
def Row.resetTo (current loaded : Row) (now : Nat) (status : Status) : Row :=
  { current with
    transcriptionStatus := written loaded.transcriptionStatus status current.transcriptionStatus
    lastActivityAt := some now
    reprocessVersion := loaded.reprocessVersion + 1 }

/-- The two ways `resume_one` may go. -/
inductive Path where
  | kevent
  | mcr
  deriving DecidableEq

/-- The status a resumption commits. -/
def Path.status : Path → Status
  | .kevent => .keventQueued
  | .mcr => .mcrImportPending

/-- `resume_one`: an MCR row without an audio is published again, any other goes through
Kevent. -/
def Row.path (r : Row) : Path :=
  if r.origin = .mcrImport ∧ r.storedFilename = "" then .mcr else .kevent

/-- What the manual actions do to a row. -/
inductive Manual where
  | fullReprocess
  | reprocess
  | markReprocessed (version : Int)
  deriving DecidableEq

/-- The version a manual action commits; `data.get("version") or version + 1`. -/
def Manual.version (m : Manual) (loaded : Int) : Int :=
  match m with
  | .markReprocessed version => if version = 0 then loaded + 1 else version
  | _ => loaded + 1

/-- The commit of `full_reprocess_audio`, `reprocess_audio` or `mark_audio_reprocessed`.
`full_reprocess_audio` writes no activity. -/
def Row.manual (current loaded : Row) (now : Nat) : Manual → Row
  | .fullReprocess =>
      { current with
        transcriptionStatus :=
          written loaded.transcriptionStatus .keventQueued current.transcriptionStatus
        reprocessVersion := loaded.reprocessVersion + 1 }
  | .reprocess => current.resetTo loaded now .keventReprocessing
  | .markReprocessed version =>
      { current with
        reprocessVersion := written loaded.reprocessVersion
          ((Manual.markReprocessed version).version loaded.reprocessVersion)
          current.reprocessVersion }

/-- The steps of `mcr_importer._handle_message` on a row that exists. -/
inductive McrWork where
  /-- The message is taken up. -/
  | requeue
  | setFailed (kind : ErrorKind)
  | audio (storedFilename : String)
  | transcript
  deriving DecidableEq

def Row.mcrWork (r : Row) (now : Nat) : McrWork → Row
  | .requeue =>
      if r.transcriptionStatus = .pending then r
      else { r with transcriptionStatus := .mcrImportPending, lastActivityAt := some now }
  | .setFailed kind =>
      { r with transcriptionStatus := .mcrImportFailed, lastActivityAt := some now,
               lastErrorKind := some kind }
  | .audio storedFilename =>
      { r with storedFilename := storedFilename, transcriptionStatus := .pending,
               lastActivityAt := some now }
  | .transcript =>
      { r with transcriptionStatus := .mcrTranscriptOnly, lastActivityAt := some now }

/-- Where a row comes from: `_perform_pull`, the two `materialize` endpoints, or
`_handle_message`. -/
inductive Source where
  | upload (storedFilename : String)
  | materializeAudio (storedFilename : String)
  | materialize
  | mcrImport
  deriving DecidableEq

/-- The row as it is inserted. An uploaded one has no activity yet. -/
def Source.row (src : Source) (userSub : String) (now : Nat) : Row where
  userSub := userSub
  origin := match src with
    | .mcrImport => .mcrImport
    | _ => .upload
  storedFilename := match src with
    | .upload name => name
    | .materializeAudio name => name
    | _ => ""
  transcriptionStatus := match src with
    | .upload _ => .pending
    | .materializeAudio _ => .keventQueued
    | .materialize => .keventProcessing
    | .mcrImport => .mcrImportPending
  createdAt := now
  lastActivityAt := match src with
    | .upload _ => none
    | _ => some now
  pipelineClaimAt := none
  reprocessVersion := 0
  lastErrorKind := none

def Source.isUpload : Source → Bool
  | .upload _ => true
  | _ => false

/-- The thread that creates the row goes on to transcribe it. -/
def Source.transcribes : Source → Bool
  | .upload _ => true
  | .materializeAudio _ => true
  | _ => false

/-! ## What the predicates say -/

theorem before_of_lt {t span now : Nat} (h : before (some t) span now = true) :
    t + span < now := of_decide_eq_true h

theorem before_some {t : Option Nat} {u span now : Nat} (ht : t = some u) (hu : now ≤ u + span) :
    before t span now = false := by
  subst ht
  exact decide_eq_false (by omega)

section Stuck

variable {cfg : Config} {caller : Caller} {r : Row} {now : Nat}

theorem claimFree_of_stuck (h : r.stuck cfg caller now = true) : r.claimFree cfg now = true := by
  simp only [Row.stuck, Bool.and_eq_true] at h
  exact h.1.1.1.2

theorem stale_of_stuck (h : r.stuck cfg caller now = true) :
    caller.includeFailed = true ∨ r.stale cfg now = true := by
  simp only [Row.stuck, Bool.and_eq_true, Bool.or_eq_true] at h
  exact h.1.1.1.1.1.2

theorem version_of_stuck (h : r.stuck cfg caller now = true) :
    caller.includeFailed = true ∨ r.reprocessVersion < cfg.maxAutoRetries := by
  simp only [Row.stuck, Bool.and_eq_true, Bool.or_eq_true, decide_eq_true_eq] at h
  exact h.1.2

/-- The cap is for rows with no version left. -/
theorem not_overCap_of_lt (h : r.reprocessVersion < cfg.maxAutoRetries) :
    r.overCap cfg now = false := by
  have hnot : ¬ (cfg.maxAutoRetries : Int) ≤ r.reprocessVersion := by omega
  unfold Row.overCap
  rw [decide_eq_false hnot, Bool.and_false, Bool.false_and]

/-- A claim that is not free is younger than the lease. -/
theorem claimed_of_not_free (h : r.claimFree cfg now = false) :
    ∃ t, r.pipelineClaimAt = some t ∧ now ≤ t + cfg.claimLease := by
  unfold Row.claimFree before at h
  split at h
  · cases h
  · rename_i t ht
    exact ⟨t, ht, by have := of_decide_eq_false h; omega⟩

end Stuck

end MesReunions.Watchdog
