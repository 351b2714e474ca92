import Mathlib.Logic.Function.Basic

/-!
# Meetings and audio files

The tables `meetings` and `user_audio_files` of the internal zone, and what each endpoint of the
two services writes to the columns that link them: `meetings.user_audio_file_id` and
`user_audio_files.meeting_id`. A session commits once or not at all, so an endpoint is one step.

* A refusal (400, 404, 500) is a step that writes nothing.
* The rows are numbered in the order of their creation; the ids of the source are fresh UUIDs.
* Both columns are foreign keys with `ON DELETE SET NULL` (`migrations/internal/012`).
-/

namespace MesReunions.Meetings

universe u

structure Meeting (υ : Type u) where
  userSub : υ
  userAudioFileId : Option Nat
  preparationId : Option Nat
  videoSourceId : Option Int
  videoIngestJobId : Option Int
  /-- `trashed_at` is set. -/
  trashed : Bool

structure UserAudioFile (υ : Type u) where
  userSub : υ
  meetingId : Option Nat
  externalVideoSourceId : Option Int

structure Db (υ : Type u) where
  meetings : Nat → Option (Meeting υ)
  audios : Nat → Option (UserAudioFile υ)
  /-- The owner of each preparation that is not in the trash. -/
  preparations : Nat → Option υ
  nextMeeting : Nat
  nextAudio : Nat

variable {υ : Type u}

namespace Db

def start : Db υ := ⟨fun _ => none, fun _ => none, fun _ => none, 0, 0⟩

def writeMeeting (db : Db υ) (i : Nat) (m : Meeting υ) : Db υ :=
  { db with meetings := Function.update db.meetings i (some m) }

def writeAudio (db : Db υ) (j : Nat) (a : UserAudioFile υ) : Db υ :=
  { db with audios := Function.update db.audios j (some a) }

/-- `db.add(m); db.flush()`: the row gets `db.nextMeeting`. -/
def addMeeting (db : Db υ) (m : Meeting υ) : Db υ :=
  { db.writeMeeting db.nextMeeting m with nextMeeting := db.nextMeeting + 1 }

/-- `db.add(uaf); db.flush()`: the row gets `db.nextAudio`. -/
def addAudio (db : Db υ) (a : UserAudioFile υ) : Db υ :=
  { db.writeAudio db.nextAudio a with nextAudio := db.nextAudio + 1 }

/-- A meeting is deleted, and with it the pointers to it. -/
def deleteMeeting (db : Db υ) (i : Nat) : Db υ :=
  { db with
    meetings := Function.update db.meetings i none
    audios := fun j => (db.audios j).map fun a =>
      if a.meetingId = some i then { a with meetingId := none } else a }

/-- An audio file is deleted, and with it the pointers to it. -/
def deleteAudio (db : Db υ) (j : Nat) : Db υ :=
  { db with
    audios := Function.update db.audios j none
    meetings := fun i => (db.meetings i).map fun m =>
      if m.userAudioFileId = some j then { m with userAudioFileId := none } else m }

/-- A preparation is deleted, and with it the pointers to it. -/
def deletePreparation (db : Db υ) (p : Nat) : Db υ :=
  { db with
    preparations := Function.update db.preparations p none
    meetings := fun i => (db.meetings i).map fun m =>
      if m.preparationId = some p then { m with preparationId := none } else m }

variable [DecidableEq υ]

/-- The meeting `i` of `user`, in the trash or not. -/
def meeting? (db : Db υ) (user : υ) (i : Nat) : Option (Meeting υ) :=
  (db.meetings i).filter fun m => m.userSub = user

/-- The meeting `i` of `user`, where it is not in the trash. -/
def liveMeeting? (db : Db υ) (user : υ) (i : Nat) : Option (Meeting υ) :=
  (db.meetings i).filter fun m => m.userSub = user ∧ m.trashed = false

def audio? (db : Db υ) (user : υ) (j : Nat) : Option (UserAudioFile υ) :=
  (db.audios j).filter fun a => a.userSub = user

/-- `UPDATE user_audio_files SET meeting_id = … WHERE id = j AND user_sub = user`. -/
def setMeetingId (db : Db υ) (user : υ) (j : Nat) (i : Option Nat) : Db υ :=
  match db.audio? user j with
  | some a => db.writeAudio j { a with meetingId := i }
  | none => db

/-- The preparation that a request names is one of the user's, not in the trash. -/
def prepared (db : Db υ) (user : υ) (p : Option Nat) : Bool :=
  p.all fun p => db.preparations p = some user

end Db

/-! ## device-token-authority -/

variable [DecidableEq υ]

/-- `create_meeting` has a live meeting for this job already. -/
def jobTaken (db : Db υ) (user : υ) (job : Option Int) : Bool :=
  job.isSome && (List.range db.nextMeeting).any fun i =>
    (db.liveMeeting? user i).any fun m => m.videoIngestJobId = job

def createMeeting (db : Db υ) (user : υ) (audio prep : Option Nat) (source job : Option Int) :
    Db υ :=
  if audio.all (fun j => (db.audio? user j).isSome) = false then db
  else if db.prepared user prep = false then db
  else if jobTaken db user job then db
  else
    let i := db.nextMeeting
    let db := db.addMeeting ⟨user, audio, prep, source, job, false⟩
    match audio with
    | some j => db.setMeetingId user j (some i)
    | none => db

def linkVideoToMeeting (db : Db υ) (user : υ) (i : Nat) (source : Int) (job : Option Int) : Db υ :=
  match db.liveMeeting? user i with
  | none => db
  | some m =>
      db.writeMeeting i { m with
        videoSourceId := m.videoSourceId.or (some source)
        videoIngestJobId := m.videoIngestJobId.or job }

def linkMeetingToPreparation (db : Db υ) (user : υ) (i : Nat) (prep : Option Nat) : Db υ :=
  match db.liveMeeting? user i with
  | none => db
  | some m =>
      if db.prepared user prep then db.writeMeeting i { m with preparationId := prep } else db

/-- The audio that meeting `i` leaves is unhooked, where it still points to `i`. -/
def unhook (db : Db υ) (user : υ) (i : Nat) : Option Nat → Db υ
  | none => db
  | some prev =>
      match db.audio? user prev with
      | none => db
      | some a => if a.meetingId = some i then db.writeAudio prev { a with meetingId := none } else db

def linkMeetingToAudio (db : Db υ) (user : υ) (i : Nat) (audio : Option Nat) : Db υ :=
  match db.liveMeeting? user i with
  | none => db
  | some m =>
      if audio.all (fun j => (db.audio? user j).isSome) = false then db
      else
        let db := (unhook db user i m.userAudioFileId).writeMeeting i
          { m with userAudioFileId := audio }
        match audio with
        | some j => db.setMeetingId user j (some i)
        | none => db

def linkAudioToPreparation (db : Db υ) (user : υ) (j : Nat) (prep : Option Nat) : Db υ :=
  match db.audio? user j with
  | none => db
  | some a =>
      if db.prepared user prep = false then db
      else
        match a.meetingId with
        | none =>
            (db.addMeeting ⟨user, some j, prep, none, none, false⟩).writeAudio j
              { a with meetingId := some db.nextMeeting }
        | some i =>
            match db.meeting? user i with
            | some m => db.writeMeeting i { m with preparationId := prep }
            | none =>
                (db.addMeeting ⟨user, some j, prep, none, none, false⟩).writeAudio j
                  { a with meetingId := some db.nextMeeting }

def trashMeeting (db : Db υ) (user : υ) (i : Nat) : Db υ :=
  match db.liveMeeting? user i with
  | some m => db.writeMeeting i { m with trashed := true }
  | none => db

def restoreMeeting (db : Db υ) (user : υ) (i : Nat) : Db υ :=
  match db.meeting? user i with
  | some m => if m.trashed then db.writeMeeting i { m with trashed := false } else db
  | none => db

/-- `hard_delete_meeting`, and what `purge_meetings` does to each of its rows. -/
def hardDeleteMeeting (db : Db υ) (user : υ) (i : Nat) : Db υ :=
  match db.meeting? user i with
  | some m => if m.trashed then db.deleteMeeting i else db
  | none => db

/-! ## dmz-to-internal-bridge -/

/-- `_perform_pull`. `link` is the preparation that `auto_link_audio_to_preparation` has found,
which only the backend `kevent` looks for. -/
def performPull (db : Db υ) (user : υ) (link : Option Nat) : Db υ :=
  let j := db.nextAudio
  let i := db.nextMeeting
  let db := (db.addAudio ⟨user, none, none⟩).addMeeting ⟨user, some j, none, none, none, false⟩
  match link with
  | none => db
  | some p =>
      (db.writeMeeting i ⟨user, some j, some p, none, none, false⟩).writeAudio j
        ⟨user, some i, none⟩

/-- `_handle_message` of the importer creates a row of its own. -/
def mcrImport (db : Db υ) (user : υ) : Db υ := db.addAudio ⟨user, none, none⟩

/-- What both `materialize` endpoints write to the meeting of the request. -/
def Meeting.attach (m : Meeting υ) (j : Nat) (source job : Option Int) : Meeting υ :=
  { m with
    userAudioFileId := m.userAudioFileId.or (some j)
    videoSourceId := m.videoSourceId.or source
    videoIngestJobId := m.videoIngestJobId.or job }

/-- Audio `j` of `user` comes from `source`. -/
def fromSource (db : Db υ) (user : υ) (source : Int) (j : Nat) : Bool :=
  (db.audio? user j).any fun a => a.externalVideoSourceId = some source

/-- `existing` may be the answer to the query for an audio of `user` from `source`. -/
def answersSource (db : Db υ) (user : υ) (source : Option Int) : Option Nat → Bool
  | some j => source.any fun s => fromSource db user s j
  | none => source.all fun s => (List.range db.nextAudio).all fun j => !fromSource db user s j

/-- The audio exists: `materialize_external_source` links the meeting of the request to it. -/
def relink (db : Db υ) (i j : Nat) (source job : Option Int) : Db υ :=
  match db.meetings i, db.audios j with
  | some m, some a =>
      (db.writeMeeting i (m.attach j source job)).writeAudio j
        { a with meetingId := a.meetingId.or (some i) }
  -- Without a meeting `i` there is nothing to write, or the foreign key refuses it.
  | _, _ => db

def materialize (db : Db υ) (user : υ) (source : Option Int) (meeting : Option Nat)
    (job : Option Int) : Option Nat → Db υ
  | some j =>
      match meeting with
      | some i => relink db i j source job
      | none => db
  | none =>
      match meeting with
      | none => db.addAudio ⟨user, none, source⟩
      | some i =>
          match db.meetings i with
          | none => db
          | some m =>
              (db.addAudio ⟨user, some i, source⟩).writeMeeting i
                (m.attach db.nextAudio source job)

def materializeAudio (db : Db υ) (user : υ) (source : Option Int) (meeting : Option Nat)
    (job : Option Int) : Option Nat → Db υ
  | some _ => db
  | none =>
      match meeting with
      | none => db.addAudio ⟨user, none, source⟩
      | some i =>
          match db.meetings i with
          | none => db.addAudio ⟨user, none, source⟩
          | some m =>
              (db.addAudio ⟨user, none, source⟩).writeMeeting i (m.attach db.nextAudio source job)

/-! ## The system -/

inductive Action (υ : Type u) where
  | createMeeting (user : υ) (audio prep : Option Nat) (source job : Option Int)
  | linkVideoToMeeting (user : υ) (i : Nat) (source : Int) (job : Option Int)
  | linkMeetingToPreparation (user : υ) (i : Nat) (prep : Option Nat)
  | linkMeetingToAudio (user : υ) (i : Nat) (audio : Option Nat)
  | linkAudioToPreparation (user : υ) (j : Nat) (prep : Option Nat)
  | trashMeeting (user : υ) (i : Nat)
  | restoreMeeting (user : υ) (i : Nat)
  | hardDeleteMeeting (user : υ) (i : Nat)
  | performPull (user : υ) (link : Option Nat)
  | mcrImport (user : υ)
  | materialize (user : υ) (source : Option Int) (meeting : Option Nat) (job : Option Int)
      (existing : Option Nat)
  | materializeAudio (user : υ) (source : Option Int) (meeting : Option Nat) (job : Option Int)
      (existing : Option Nat)
  /-- `run_internal_purge_once`, one of its rows. -/
  | purgeAudio (j : Nat)
  /-- The endpoints of the preparations, at one of them. -/
  | preparation (p : Nat) (owner : Option υ)
  | deletePreparation (p : Nat)

def step (db : Db υ) : Action υ → Option (Db υ)
  | .createMeeting user audio prep source job => some (createMeeting db user audio prep source job)
  | .linkVideoToMeeting user i source job => some (linkVideoToMeeting db user i source job)
  | .linkMeetingToPreparation user i prep => some (linkMeetingToPreparation db user i prep)
  | .linkMeetingToAudio user i audio => some (linkMeetingToAudio db user i audio)
  | .linkAudioToPreparation user j prep => some (linkAudioToPreparation db user j prep)
  | .trashMeeting user i => some (trashMeeting db user i)
  | .restoreMeeting user i => some (restoreMeeting db user i)
  | .hardDeleteMeeting user i => some (hardDeleteMeeting db user i)
  | .performPull user link =>
      if db.prepared user link then some (performPull db user link) else none
  | .mcrImport user => some (mcrImport db user)
  | .materialize user source meeting job existing =>
      if answersSource db user source existing
      then some (materialize db user source meeting job existing) else none
  | .materializeAudio user source meeting job existing =>
      if answersSource db user source existing
      then some (materializeAudio db user source meeting job existing) else none
  | .purgeAudio j => some (db.deleteAudio j)
  | .preparation p owner =>
      some { db with preparations := Function.update db.preparations p owner }
  | .deletePreparation p => some (db.deletePreparation p)

end MesReunions.Meetings
