import MesReunions.Base.TSys
import MesReunions.Watchdog.Rows

/-!
# Pods, requests and pipelines

Any number of threads over one table: runs of `scan_and_resume` (from the loop of a pod or
from `resume-stuck-jobs`), manual requests, transcription pipelines, chains of LLM steps
and the MCR importer. Each statement, with the clock it reads just before, is one step; a
thread may stall or die between any two of them.

Which of the rows that match a scan returns, and in what order, is left open. So is when
the importer and the chains of LLM steps work on a row: their messages may be delivered
again at any time.
-/

namespace MesReunions.Watchdog

/-- What a run of `scan_and_resume` has in hand. -/
inductive Phase where
  /-- Between two candidates. -/
  | next
  /-- `_try_claim` was won. -/
  | claimed (audio : Nat) (userSub : String)
  /-- `resume_one` chose the way to go. -/
  | routed (audio : Nat) (userSub : String) (path : Path)
  /-- The row was loaded; nothing is committed yet. -/
  | loaded (audio : Nat) (path : Path) (row : Row)
  /-- The reset is committed; the pipeline or the message is still to come. -/
  | committed (audio : Nat) (path : Path)
  deriving DecidableEq

/-- The row a run is at. -/
def Phase.audio : Phase → Option Nat
  | .next => none
  | .claimed a _ => some a
  | .routed a _ _ => some a
  | .loaded a _ _ => some a
  | .committed a _ => some a

/-- A run of `scan_and_resume`. -/
structure Call where
  caller : Caller
  scannedAt : Nat
  todo : List (Nat × String)
  phase : Phase
  deriving DecidableEq

def Call.idle : Call := ⟨.watchdog, 0, [], .next⟩

/-- A manual request that has loaded its row. -/
structure Request where
  action : Manual
  audio : Nat
  row : Row
  /-- `full_reprocess_audio` has committed and is about to start its thread. -/
  committed : Bool
  deriving DecidableEq

/-- A thread that transcribes a row. -/
structure Pipe where
  audio : Nat
  /-- It is the thread of the upload, whose transient errors go back to the queue. -/
  upload : Bool
  deriving DecidableEq

structure World where
  now : Nat
  rows : Table
  calls : Nat → Call
  requests : Nat → Option Request
  pipes : Nat → Option Pipe

/-- No row yet. -/
def World.start : World where
  now := 0
  rows := fun _ => none
  calls := fun _ => .idle
  requests := fun _ => none
  pipes := fun _ => none

/-- The probe of the audio in S3. -/
inductive Probe where
  | found
  | purged
  | unreachable
  deriving DecidableEq

/-- The statuses a pipeline writes on its way. -/
inductive Progress where
  | transcribing
  | queued
  | processing
  deriving DecidableEq

def Progress.status : Progress → Status
  | .transcribing => .keventTranscribing
  | .queued => .keventQueued
  | .processing => .keventProcessing

/-- How `_transcribe_via_kevent` ends, in the thread that runs it. -/
inductive End where
  | completed
  /-- No diarization, or no name for a speaker; the chain of LLM steps went through. -/
  | partially
  /-- A step of the chain failed, with or without a text for `last_error_message`. -/
  | chainPartial (message : Bool)
  /-- No language model is configured: the chain of LLM steps names no error. -/
  | unassisted (diarized : Bool)
  | clientUnavailable
  | authFailed
  | applicative
  /-- An exception out of the pipeline. -/
  | raised
  /-- The process died. -/
  | lost
  deriving DecidableEq

/-- The status and the `last_error_kind` that an end writes, if it writes any. -/
def End.write (upload : Bool) : End → Option (Status × Option (Option ErrorKind))
  | .completed => some (.keventCompleted, some none)
  | .partially => some (.keventPartiallyCompleted, some none)
  | .chainPartial message =>
      some (.keventPartiallyCompleted, if message then some (some .llmChainPartial) else none)
  | .unassisted diarized =>
      some (if diarized then .keventCompleted else .keventPartiallyCompleted, none)
  | .clientUnavailable => some (.keventFailed, some (some .keventClientUnavailable))
  | .authFailed => some (.keventFailed, some (some .keventAuthFailed))
  | .applicative => some (.keventFailed, some (some .keventApplicative))
  | .raised => if upload then none else some (.keventFailed, some (some .workerCrash))
  | .lost => none

/-- The row after a pipeline ended. -/
def Row.ended (r : Row) (now : Nat) (upload : Bool) (e : End) : Row :=
  match e.write upload with
  | none => r
  | some (status, kind) => r.setUserAudioStatus now status kind

/-- How a chain of LLM steps ends on a transcript that is there: the one of `reprocess_audio`,
of an MCR transcript or of `materialize`. -/
inductive ChainEnd where
  | completed
  | chainPartial (message : Bool)
  | unassisted
  | reprocessCrash
  | mcrCrash
  | materializeCrash
  deriving DecidableEq

def ChainEnd.write : ChainEnd → Status × Option (Option ErrorKind)
  | .completed => (.keventCompleted, some none)
  | .chainPartial message =>
      (.keventPartiallyCompleted, if message then some (some .llmChainPartial) else none)
  | .unassisted => (.keventCompleted, none)
  | .reprocessCrash => (.keventPartiallyCompleted, some (some .workerCrash))
  | .mcrCrash => (.keventPartiallyCompleted, none)
  | .materializeCrash => (.keventFailed, none)

inductive Act where
  | wait (d : Nat)
  | create (a : Nat) (src : Source) (userSub : String) (p : Nat)
  -- `scan_and_resume`
  | scan (c : Nat) (caller : Caller) (found : List (Nat × String))
  | tryClaim (c : Nat) (ok : Bool)
  | inspect (c : Nat) (ok : Bool)
  | load (c : Nat)
  | commit (c : Nat) (probe : Probe) (ok : Bool)
  | submit (c p : Nat)
  | leave (c : Nat)
  -- `_mark_capped_as_failed`
  | markCapped
  -- manual requests
  | ask (q : Nat) (action : Manual) (a : Nat) (userSub : String)
  | answer (q : Nat)
  | launch (q p : Nat)
  | abandon (q : Nat)
  -- pipelines, chains of LLM steps, the MCR importer, edits of the text
  | progress (p : Nat) (g : Progress)
  | poll (p : Nat)
  | finish (p : Nat) (e : End)
  | chain (a : Nat) (e : ChainEnd)
  | mcr (a : Nat) (work : McrWork)
  | edit (a : Nat)

def World.setCall (s : World) (c : Nat) (k : Call) : World :=
  { s with calls := Function.update s.calls c k }

def World.setRow (s : World) (a : Nat) (r : Row) : World :=
  { s with rows := Function.update s.rows a (some r) }

/-- A single-row `UPDATE`, which does nothing where there is no row. -/
def World.modify (s : World) (a : Nat) (f : Row → Row) : World :=
  match s.rows a with
  | none => s
  | some r => s.setRow a (f r)

/-- What a loaded row and the probe of its audio lead to. -/
inductive Resolution where
  | terminal (kind : ErrorKind)
  | later
  | reset
  deriving DecidableEq

/-- The checks before the reset; `_resume_mcr_import` makes none. -/
def resolve (path : Path) (loaded : Row) (probe : Probe) : Resolution :=
  match path with
  | .mcr => .reset
  | .kevent =>
      if loaded.storedFilename = "" then .terminal .s3NoAudioPath
      else match probe with
        | .found => .reset
        | .purged => .terminal .s3ObjectPurged
        | .unreachable => .later

/-- The candidates a scan may return. -/
def World.mayFind (cfg : Config) (s : World) (caller : Caller) (found : List (Nat × String)) :
    Bool :=
  decide ((found.map (·.1)).Nodup) && decide (found.length ≤ caller.limit cfg) &&
  found.all fun x => (s.rows.find x.1 x.2).any fun r => r.stuck cfg caller s.now

def step (cfg : Config) (s : World) : Act → Option World
  | .wait d => some { s with now := s.now + d }
  | .create a src userSub p =>
      if s.rows a = none ∧ s.pipes p = none then
        let s' := s.setRow a (src.row userSub s.now)
        some (if src.transcribes then
          { s' with pipes := Function.update s'.pipes p (some ⟨a, src.isUpload⟩) }
          else s')
      else none
  | .scan c caller found =>
      if (s.calls c).phase = .next ∧ (s.calls c).todo = [] ∧ s.mayFind cfg caller found then
        some (s.setCall c ⟨caller, s.now, found, .next⟩)
      else none
  | .tryClaim c ok =>
      match (s.calls c).phase, (s.calls c).todo with
      | .next, (a, userSub) :: rest =>
          match s.rows a with
          | some r =>
              if ok ∧ r.claimFree cfg s.now then
                some ((s.setRow a (r.claimed s.now)).setCall c
                  { s.calls c with todo := rest, phase := .claimed a userSub })
              else some (s.setCall c { s.calls c with todo := rest })
          | none => some (s.setCall c { s.calls c with todo := rest })
      | _, _ => none
  | .inspect c ok =>
      match (s.calls c).phase with
      | .claimed a userSub =>
          let path := match s.rows.find a userSub with
            | some r => if ok then r.path else .kevent
            | none => .kevent
          some (s.setCall c { s.calls c with phase := .routed a userSub path })
      | _ => none
  | .load c =>
      match (s.calls c).phase with
      | .routed a userSub path =>
          match (match path with
            | .kevent => s.rows.find a userSub
            | .mcr => s.rows a) with
          | some r => some (s.setCall c { s.calls c with phase := .loaded a path r })
          | none => some (s.setCall c { s.calls c with phase := .next })
      | _ => none
  | .commit c probe ok =>
      match (s.calls c).phase with
      | .loaded a path loaded =>
          if ok then
            match resolve path loaded probe with
            | .reset =>
                match s.rows a with
                | some r =>
                    some ((s.setRow a (r.resetTo loaded s.now path.status)).setCall c
                      { s.calls c with phase := .committed a path })
                | none => some (s.setCall c { s.calls c with phase := .next })
            | .terminal kind =>
                some ((s.modify a (·.persistTerminalError loaded s.now kind)).setCall c
                  { s.calls c with phase := .next })
            | .later => some (s.setCall c { s.calls c with phase := .next })
          else some (s.setCall c { s.calls c with phase := .next })
      | _ => none
  | .submit c p =>
      match (s.calls c).phase with
      | .committed a .kevent =>
          if s.pipes p = none then
            some ({ s with pipes := Function.update s.pipes p (some ⟨a, false⟩) }.setCall c
              { s.calls c with phase := .next })
          else none
      | .committed _ .mcr => some (s.setCall c { s.calls c with phase := .next })
      | _ => none
  | .leave c => some (s.setCall c { s.calls c with todo := [], phase := .next })
  | .markCapped => some { s with rows := markCappedAsFailed cfg s.rows s.now }
  | .ask q action a userSub =>
      match s.requests q, s.rows.find a userSub with
      | none, some r =>
          if action = .fullReprocess ∧ r.storedFilename = "" then none
          else some { s with
            requests := Function.update s.requests q (some ⟨action, a, r, false⟩) }
      | _, _ => none
  | .answer q =>
      match s.requests q with
      | some ⟨action, a, loaded, false⟩ =>
          match s.rows a with
          | some r =>
              some { s.setRow a (r.manual loaded s.now action) with
                requests := Function.update s.requests q
                  (if action = .fullReprocess then some ⟨action, a, loaded, true⟩ else none) }
          | none => some { s with requests := Function.update s.requests q none }
      | _ => none
  | .launch q p =>
      match s.requests q with
      | some ⟨_, a, _, true⟩ =>
          if s.pipes p = none then
            some { s with
              pipes := Function.update s.pipes p (some ⟨a, false⟩)
              requests := Function.update s.requests q none }
          else none
      | _ => none
  | .abandon q => some { s with requests := Function.update s.requests q none }
  | .progress p g =>
      match s.pipes p with
      | some pipe => some (s.modify pipe.audio (·.setUserAudioStatus s.now g.status none))
      | none => none
  | .poll p =>
      match s.pipes p with
      | some pipe => some (s.modify pipe.audio (·.touchLastActivity s.now))
      | none => none
  | .finish p e =>
      match s.pipes p with
      | some pipe =>
          let s' := s.modify pipe.audio (·.ended s.now pipe.upload e)
          some { s' with pipes := Function.update s'.pipes p none }
      | none => none
  | .chain a e => some (s.modify a (·.setUserAudioStatus s.now e.write.1 e.write.2))
  | .mcr a work =>
      if (s.rows a).any (·.origin == .mcrImport) then
        some (s.modify a (·.mcrWork s.now work))
      else none
  | .edit a => some (s.modify a (·.touchLastActivity s.now))

end MesReunions.Watchdog
