import MesReunions.Base.Orm
import MesReunions.Llm.Chain

/-!
# Who writes the status of a recording

The writers of `transcription_status` in `services/dmz-to-internal-bridge/app` and in
`transcription-relay`, with the error and the times they write beside it:

* `Row.setUserAudioStatus` — `_set_user_audio_status`, by which most of them go;
* `PipelineRun.returned` — the end of `_transcribe_via_kevent`, from its diarization, the naming
  of its speakers and the chain of LLM steps;
* `Work` — all of them; `Work.assign` is what one does to the row it has loaded.

A session commits the attributes it has changed, and no others.
-/

namespace MesReunions.Outcome

open Llm

/-! ## The row -/

/-- `transcription_status` -/
inductive Status where
  | disabled
  | pending
  | processing
  | completed
  | failed
  | keventTranscribing
  | keventQueued
  | keventProcessing
  | keventReprocessing
  | keventCompleted
  | keventPartiallyCompleted
  | keventFailed
  | mcrImportPending
  | mcrImportFailed
  | mcrTranscriptOnly
  | mcrPushFailed
  | mcrAuthFailed
  | mcrRejected
  | mcrPushed
  deriving DecidableEq

/-- What a row of `user_audio_files` says of its transcription. -/
structure Row where
  transcriptionStatus : Status
  lastErrorKind : Option Str := none
  lastErrorMessage : Option Str := none
  lastErrorAt : Option Nat := none
  lastActivityAt : Option Nat := none
  transcriptionStartedAt : Option Nat := none
  transcriptionCompletedAt : Option Nat := none
  deriving DecidableEq

/-- The row after a session that loaded `loaded` and made it `new` commits. -/
def Row.commit (current loaded new : Row) : Row where
  transcriptionStatus :=
    written loaded.transcriptionStatus new.transcriptionStatus current.transcriptionStatus
  lastErrorKind := written loaded.lastErrorKind new.lastErrorKind current.lastErrorKind
  lastErrorMessage := written loaded.lastErrorMessage new.lastErrorMessage current.lastErrorMessage
  lastErrorAt := written loaded.lastErrorAt new.lastErrorAt current.lastErrorAt
  lastActivityAt := written loaded.lastActivityAt new.lastActivityAt current.lastActivityAt
  transcriptionStartedAt :=
    written loaded.transcriptionStartedAt new.transcriptionStartedAt current.transcriptionStartedAt
  transcriptionCompletedAt := written loaded.transcriptionCompletedAt
    new.transcriptionCompletedAt current.transcriptionCompletedAt

/-- Where a row comes from. -/
inductive Source where
  /-- `_perform_pull` -/
  | pulled (autoTranscribe : Bool)
  /-- `mcr_importer._handle_message` -/
  | mcrImport
  | materialize
  | materializeAudio
  deriving DecidableEq

def Source.row (now : Nat) : Source → Row
  | .pulled autoTranscribe => { transcriptionStatus := if autoTranscribe then .pending else .disabled }
  | .mcrImport => { transcriptionStatus := .mcrImportPending, lastActivityAt := some now }
  | .materialize =>
      { transcriptionStatus := .keventProcessing, lastActivityAt := some now,
        transcriptionStartedAt := some now }
  | .materializeAudio =>
      { transcriptionStatus := .keventQueued, lastActivityAt := some now,
        transcriptionStartedAt := some now }

/-! ## `_set_user_audio_status` -/

/-- `last_error_kind` and `last_error_message`, where the call names them. -/
structure ErrorFields where
  kind : Option (Option Str) := none
  message : Option (Option Str) := none

/-- A value that is named, and true. -/
def truthy : Option (Option Str) → Bool
  | some (some s) => !s.isEmpty
  | _ => false

/-- `_ACTIVE_STATES` -/
def activeStates : List Status := [.keventQueued, .keventProcessing, .keventTranscribing]

/-- `_TERMINAL_STATES` -/
def terminalStates : List Status :=
  [.keventCompleted, .keventPartiallyCompleted, .keventFailed, .completed, .failed]

/-- `_set_user_audio_status(audio_file_id, status, **fields)` -/
def Row.setUserAudioStatus (r : Row) (now : Nat) (status : Status) (fields : ErrorFields) : Row where
  transcriptionStatus := status
  lastErrorKind := fields.kind.getD r.lastErrorKind
  lastErrorMessage := (fields.message.map (·.map (·.take 4000))).getD r.lastErrorMessage
  lastErrorAt :=
    if truthy fields.kind || truthy fields.message then some now
    else if fields.kind = some none ∧ fields.message = some none then none
    else r.lastErrorAt
  lastActivityAt := some now
  transcriptionStartedAt :=
    if activeStates.contains status && r.transcriptionStartedAt.isNone then some now
    else r.transcriptionStartedAt
  transcriptionCompletedAt :=
    if terminalStates.contains status && r.transcriptionCompletedAt.isNone then some now
    else r.transcriptionCompletedAt

/-- A call that names a kind and a message. -/
def ErrorFields.named (kind message : Str) : ErrorFields :=
  { kind := some (some kind), message := some (some message) }

/-- The error in the `updates` of a chain. -/
def ErrorFields.ofUpdates (u : Updates) : ErrorFields where
  kind := u.lastError.map (·.map (·.1))
  message := u.lastError.map (·.map (·.2))

/-! ## The ends of a run -/

/-- The status that goes with `status_delta`. -/
def ofChain : ChainStatus → Status
  | .completed => .keventCompleted
  | .partiallyCompleted => .keventPartiallyCompleted

/-- A chain on a transcript that is there: the one of `reprocess_audio`, of
`materialize_external_source` or, with a model, of an MCR transcript. -/
structure ChainRun where
  cfg : ChainConfig
  base : Str
  llm : Option Model
  glossary : List Str
  includeMetadata : Bool

def ChainRun.returned (c : ChainRun) : Updates × ChainStatus :=
  runLlmChainForAudio c.cfg c.base c.llm c.glossary c.includeMetadata

/-- Step 2 of `_transcribe_via_kevent`: `merged` is what `merge_to_markdown` makes of it, and
`renamed` what it makes of it with the names; `none` is an exception. -/
inductive Diarization where
  | off
  | failed
  | done (merged renamed : Option Str)
  deriving DecidableEq

/-- A transcription that came back, and what follows it. -/
structure PipelineRun where
  cfg : ChainConfig
  text : Str
  diarization : Diarization
  /-- `KEVENT_SPEAKER_NAMING_ENABLED` -/
  namingEnabled : Bool
  /-- `extract_speaker_names` found a name. -/
  named : Bool
  llm : Option Model
  glossary : List Str

namespace PipelineRun

variable (p : PipelineRun)

/-- `speaker_tagged and KEVENT_SPEAKER_NAMING_ENABLED and llm is not None` -/
def asksNames : Bool :=
  match p.diarization with
  | .done (some merged) _ => !merged.isEmpty && p.namingEnabled && p.llm.isSome
  | _ => false

def speakerTagged : Option Str :=
  match p.diarization with
  | .done merged renamed => if p.asksNames && p.named then renamed.orElse fun _ => merged else merged
  | _ => none

/-- The chain, on `speaker_tagged or text`. -/
def chain : ChainRun where
  cfg := p.cfg
  base := match p.speakerTagged with
    | some tagged => if tagged = [] then p.text else tagged
    | none => p.text
  llm := p.llm
  glossary := p.glossary
  includeMetadata := true

/-- The updates and `final_status`. -/
def returned : Updates × Status :=
  let finalStatus : Status :=
    if p.diarization = .failed then .keventPartiallyCompleted else .keventCompleted
  let finalStatus := if p.asksNames && !p.named then .keventPartiallyCompleted else finalStatus
  (p.chain.returned.1,
    match p.chain.returned.2 with
    | .partiallyCompleted => .keventPartiallyCompleted
    | .completed => finalStatus)

end PipelineRun

/-! ## The writers -/

/-- The statuses of a pipeline on its way. -/
inductive Progress where
  | transcribing
  | queued
  | processing
  deriving DecidableEq

def Progress.status : Progress → Status
  | .transcribing => .keventTranscribing
  | .queued => .keventQueued
  | .processing => .keventProcessing

/-- The callers of the chain that catch what it raises. -/
inductive ChainCaller where
  | reprocess
  | mcr
  | materialize
  deriving DecidableEq

/-- `_push_to_mcr` -/
inductive McrPush where
  | pushFailed
  | authFailed
  | rejected
  | pushed
  deriving DecidableEq

def McrPush.status : McrPush → Status
  | .pushFailed => .mcrPushFailed
  | .authFailed => .mcrAuthFailed
  | .rejected => .mcrRejected
  | .pushed => .mcrPushed

/-- The stub of `transcription-relay`. -/
inductive Relay where
  | started
  | succeeded
  | failed
  deriving DecidableEq

inductive Work where
  | progress (g : Progress)
  | pipeline (p : PipelineRun)
  | chain (c : ChainRun)
  | chainCrashed (caller : ChainCaller)
  /-- A pipeline that fails or crashes: `kevent_failed`, with a kind. -/
  | pipelineFailed (kind message : Str)
  /-- The reset of `_reset_and_resubmit_kevent_pipeline`. -/
  | resubmit
  | fullReprocess
  | reprocess
  /-- The reset of `_resume_mcr_import`. -/
  | mcrResume
  /-- `_persist_terminal_error` -/
  | terminalError (kind message : Str)
  /-- `_handle_message`, on a row that exists. -/
  | mcrTakeUp
  /-- `_set_failed` -/
  | mcrFailed (kind : Str) (message : Option Str)
  | mcrAudio
  | mcrTranscript
  | mcrPush (p : McrPush)
  /-- The stub backend. -/
  | enqueued
  | relay (r : Relay)

/-- What a session makes of the row it has loaded. -/
def Work.assign (r : Row) (now : Nat) : Work → Row
  | .progress g => r.setUserAudioStatus now g.status {}
  | .pipeline p => r.setUserAudioStatus now p.returned.2 (.ofUpdates p.returned.1)
  | .chain c => r.setUserAudioStatus now (ofChain c.returned.2) (.ofUpdates c.returned.1)
  | .chainCrashed .reprocess => r.setUserAudioStatus now .keventPartiallyCompleted
      (.named "worker_crash".toList
        ("La régénération du compte-rendu a crashé. " ++
          "Cliquez Re-générer pour relancer.").toList)
  | .chainCrashed .mcr => r.setUserAudioStatus now .keventPartiallyCompleted {}
  | .chainCrashed .materialize => r.setUserAudioStatus now .keventFailed {}
  | .pipelineFailed kind message => r.setUserAudioStatus now .keventFailed (.named kind message)
  | .resubmit =>
      { r with
        transcriptionStatus := .keventQueued
        transcriptionStartedAt := some now
        transcriptionCompletedAt := none
        lastActivityAt := some now }
  | .fullReprocess =>
      { r with
        transcriptionStatus := .keventQueued
        transcriptionStartedAt := none
        transcriptionCompletedAt := none }
  | .reprocess => { r with transcriptionStatus := .keventReprocessing, lastActivityAt := some now }
  | .mcrResume => { r with transcriptionStatus := .mcrImportPending, lastActivityAt := some now }
  | .terminalError kind message =>
      { r with
        transcriptionStatus := .keventFailed
        transcriptionCompletedAt := r.transcriptionCompletedAt.or (some now)
        lastActivityAt := some now
        lastErrorAt := some now
        lastErrorKind := some kind
        lastErrorMessage := some (message.take 4000) }
  | .mcrTakeUp =>
      if r.transcriptionStatus = .pending then r
      else { r with transcriptionStatus := .mcrImportPending, lastActivityAt := some now }
  | .mcrFailed kind message =>
      { r with
        transcriptionStatus := .mcrImportFailed
        lastActivityAt := some now
        lastErrorAt := some now
        lastErrorKind := some kind
        lastErrorMessage := match message with
          | some text => if text = [] then r.lastErrorMessage else some (text.take 4000)
          | none => r.lastErrorMessage }
  | .mcrAudio => { r with transcriptionStatus := .pending, lastActivityAt := some now }
  | .mcrTranscript =>
      { r with
        transcriptionStatus := .mcrTranscriptOnly
        transcriptionCompletedAt := some now
        lastActivityAt := some now }
  | .mcrPush p => r.setUserAudioStatus now p.status {}
  | .enqueued => r.setUserAudioStatus now .pending {}
  | .relay .started =>
      { r with transcriptionStatus := .processing, transcriptionStartedAt := some now }
  | .relay .succeeded =>
      { r with transcriptionStatus := .completed, transcriptionCompletedAt := some now }
  | .relay .failed => { r with transcriptionStatus := .failed }

/-- `NON_TERMINAL_STATUSES` -/
def nonTerminalStatuses : List Status :=
  [.pending, .keventQueued, .keventTranscribing, .keventProcessing, .keventReprocessing,
    .mcrImportPending]

/-- The `SET` of `_mark_capped_as_failed`. -/
def Row.markCapped (r : Row) (now : Nat) (message : Str) : Row :=
  { r with
    transcriptionStatus := .keventFailed
    transcriptionCompletedAt := r.transcriptionCompletedAt.or (some now)
    lastActivityAt := some now
    lastErrorAt := some now
    lastErrorKind := some "cap_exceeded".toList
    lastErrorMessage := some message }

/-! ## What a run comes to -/

/-- A step of the chain is not `ok`. -/
def ChainRun.fails (c : ChainRun) : Bool :=
  match c.llm with
  | none => false
  | some llm => (Chain.mk c.cfg llm c.base c.glossary c.includeMetadata).final.stepResults.any
      fun r => decide (r.2 ≠ .ok)

/-- The diarization failed, or no speaker got a name. -/
def PipelineRun.lacks (p : PipelineRun) : Bool :=
  decide (p.diarization = .failed) || (p.asksNames && !p.named)

/-- Without a model, the chain says that all went well and names no error. -/
theorem ChainRun.returned_none {c : ChainRun} (h : c.llm = none) :
    c.fails = false ∧ c.returned = ({}, .completed) := by
  rw [ChainRun.fails, ChainRun.returned, h]
  exact ⟨rfl, rfl⟩

/-- A chain with a model names its error, or clears it. -/
theorem ChainRun.returned_some {c : ChainRun} (h : c.llm.isSome = true) :
    (c.fails = true ∧ c.returned.2 = .partiallyCompleted ∧
      ∃ msg, c.returned.1.lastError = some (some ("llm_chain_partial".toList, msg))) ∨
    (c.fails = false ∧ c.returned.2 = .completed ∧ c.returned.1.lastError = some none) := by
  obtain ⟨llm, hllm⟩ := Option.isSome_iff_exists.mp h
  have htold : (Chain.mk c.cfg llm c.base c.glossary c.includeMetadata).final.statusDelta =
      .partiallyCompleted ↔ _ := Chain.told_final
  have herror := runLlmChainForAudio_error c.cfg c.base (some llm) c.glossary c.includeMetadata
  have hstatus : (runLlmChainForAudio c.cfg c.base (some llm) c.glossary c.includeMetadata).2 =
      (Chain.mk c.cfg llm c.base c.glossary c.includeMetadata).final.statusDelta :=
    ChainState.finish_status
  have hfails : c.fails = true ↔ (runLlmChainForAudio c.cfg c.base (some llm) c.glossary
      c.includeMetadata).2 = .partiallyCompleted := by
    rw [hstatus, htold, ChainRun.fails, hllm]
    simp
  rw [ChainRun.returned, hllm]
  cases hdelta : (runLlmChainForAudio c.cfg c.base (some llm) c.glossary c.includeMetadata).2 with
  | partiallyCompleted =>
      simp only [hdelta] at herror
      obtain ⟨msg, -, hmsg⟩ := herror
      exact .inl ⟨hfails.mpr hdelta, rfl, msg, hmsg⟩
  | completed =>
      simp only [hdelta] at herror
      refine .inr ⟨Bool.eq_false_iff.mpr fun hc => ?_, rfl, herror⟩
      have hpart := hfails.mp hc
      rw [hdelta] at hpart
      cases hpart

theorem PipelineRun.returned_status {p : PipelineRun} : p.returned.2 =
    match p.chain.returned.2 with
    | .partiallyCompleted => .keventPartiallyCompleted
    | .completed => if p.lacks then .keventPartiallyCompleted else .keventCompleted := by
  rw [PipelineRun.returned]
  cases hchain : p.chain.returned.2 with
  | partiallyCompleted => rfl
  | completed =>
      simp only [PipelineRun.lacks]
      by_cases hfailed : p.diarization = .failed
      · simp [hfailed]
      · by_cases hnames : (p.asksNames && !p.named) = true
        · simp [hnames]
        · simp [hfailed, hnames]

end MesReunions.Outcome
