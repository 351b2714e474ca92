import MesReunions.Base.Fields
import MesReunions.Base.Ranking
import MesReunions.Base.TSys
import MesReunions.Purges.Purges
import MesReunions.Recurrence.Next

/-!
# The recordings of a user, and their trash

The endpoints of `mesreunions-web` (`sessions/routes.py`) on `upload_sessions` and `uploaded_files`,
and those of the device authority on the rows of `user_audio_files` of a session.

* `Db` — the tables of both zones, the store, and the internal deletions that are under way.
* `api…` — the endpoints, from the tables to the tables and the answer.
* `step` — a request, a purge, or something that happens to the tables meanwhile.
* **`does_answer`** — what a request does to the tables.
* **`sessions_purgeTrash`**, **`files_purgeTrash`** — what a purge leaves.
-/

namespace MesReunions.Portal.Trash

open Str Json Purges Recurrence Ranking

/-! ## The tables -/

/-- A row of `upload_sessions`. -/
structure Session extends UploadSession where
  active : Bool
  uploadCount : Nat
  maxUploads : Nat
  createdAt : Nat
  updatedAt : Nat
  deriving DecidableEq

/-- A row of `uploaded_files`. -/
structure File extends UploadedFile where
  originalFilename : Str
  deriving DecidableEq

/-- A row of `user_audio_files`. -/
structure Audio extends AudioFile where
  userSub : Str
  originalSessionCode : Str
  originalFilename : Str
  suggestedFilename : Option Str
  meetingDatetime : Option Aware
  deriving DecidableEq

/-- The body of `DELETE /api/v1/files/by-session`. -/
structure Cleanup where
  userSub : Str
  simpleCode : Str
  originalFilename : Str
  deriving DecidableEq

/-- Times are in seconds. `cleanups` are the internal deletions that were asked for and that are not
answered. -/
structure Db where
  now : Nat
  sessions : List Session
  files : List File
  audio : List Audio
  storage : Storage Blob
  cleanups : List Cleanup

/-- `TRASH_RETENTION_DAYS`, `MY_SESSIONS_CAP`, `secure_filename` and `datetime.fromisoformat`. -/
structure Config where
  trashRetentionDays : Nat
  mySessionsCap : Nat
  secureFilename : Str → Str
  fromisoformat : Str → Option Moment

/-- A day, in seconds. -/
def day : Nat := 86400

/-- The rows, as the purges see them. -/
def Db.world (db : Db) : World where
  audioFiles := db.audio.map (·.toAudioFile)
  uploadedFiles := db.files.map (·.toUploadedFile)
  sessions := db.sessions.map (·.toUploadSession)
  storage := db.storage

/-- The rows that a purge has left. -/
def Db.keep (db : Db) (w : World) : Db :=
  { db with
    sessions := db.sessions.filter fun s => s.toUploadSession ∈ w.sessions
    files := db.files.filter fun f => f.toUploadedFile ∈ w.uploadedFiles
    audio := db.audio.filter fun a => a.toAudioFile ∈ w.audioFiles
    storage := w.storage }

/-- The user has a session with that id. -/
def Db.owns (db : Db) (userSub : Str) (sessionId : Nat) : Bool :=
  db.sessions.any fun s => s.id = sessionId && s.userSub = userSub

/-- The user has a session with that id, which is not in the trash. -/
def Db.ownsLive (db : Db) (userSub : Str) (sessionId : Nat) : Bool :=
  db.sessions.any fun s => s.id = sessionId && s.userSub = userSub && s.trashedAt.isNone

/-- `get_owned_file(db, user_sub, file_id)` -/
def getOwnedFile (db : Db) (userSub : Str) (fileId : Nat) : Option File :=
  db.files.find? fun f => f.id = fileId && f.trashedAt.isNone && db.ownsLive userSub f.sessionId

/-- A file of the trash, whether its session is there too or not. -/
def trashedFile (db : Db) (userSub : Str) (fileId : Nat) : Option File :=
  db.files.find? fun f => f.id = fileId && f.trashedAt.isSome && db.owns userSub f.sessionId

/-- A session of the user, in the trash or not. -/
def sessionOf (db : Db) (userSub simpleCode : Str) (trashed : Bool) : Option Session :=
  db.sessions.find? fun s =>
    s.userSub = userSub && s.simpleCode = simpleCode && s.trashedAt.isSome == trashed

/-- `s.uploads` -/
def uploadsOf (db : Db) (s : Session) : List File := db.files.filter fun f => f.sessionId = s.id

/-- `f.trashed_at = …` -/
def Db.setFile (db : Db) (fileId : Nat) (trashedAt : Option Nat) : Db :=
  { db with
    files := db.files.map fun f =>
      if f.id = fileId then { f with trashedAt := trashedAt } else f }

/-- `s.trashed_at = …`; a row that is written has a new `updated_at`. -/
def Db.setSessions (db : Db) (p : Session → Bool) (trashedAt : Option Nat) : Db :=
  { db with
    sessions := db.sessions.map fun s =>
      if p s then { s with trashedAt := trashedAt, updatedAt := db.now } else s }

/-! ## The internal zone -/

/-- The rows that `(user_sub, simple_code, original_filename)` selects. -/
def bySession (userSub simpleCode originalFilename : Str) (a : Audio) : Bool :=
  a.userSub = strip userSub && a.originalSessionCode = strip simpleCode &&
    a.originalFilename = strip originalFilename

/-- One of the three is missing. -/
def anyMissing (userSub simpleCode originalFilename : Str) : Bool :=
  strip userSub = [] || strip simpleCode = [] || strip originalFilename = []

/-- `for af in rows: …`, when there are rows. -/
def Db.setAudio (db : Db) (p : Audio → Bool) (g : Audio → Audio) : Except (Nat × String) Db :=
  if db.audio.any p then
    .ok { db with audio := db.audio.map fun a => if p a then g a else a }
  else .error (404, "not_found")

/-- `delete_file_by_session()` -/
def deleteFileBySession (db : Db) (c : Cleanup) : Db :=
  if anyMissing c.userSub c.simpleCode c.originalFilename then db
  else
    { db with
      audio := db.audio.filter fun a =>
        !bySession c.userSub c.simpleCode c.originalFilename a }

/-- `rename_file_by_session()` -/
def renameFileBySession (db : Db) (userSub simpleCode originalFilename newTitle : Str) :
    Except (Nat × String) (Db × Str) :=
  if anyMissing userSub simpleCode originalFilename || decide (strip newTitle = []) then
    .error (400, "user_sub, simple_code, original_filename and new_title are required")
  else
    (db.setAudio (bySession userSub simpleCode originalFilename) fun a =>
      { a with suggestedFilename := some ((strip newTitle).take 500) }).map
      fun db' => (db', (strip newTitle).take 500)

/-- `new_dt` of `set_meeting_datetime_by_session()`. -/
def parseMeetingDatetime (cfg : Config) : Option Str → Except (Nat × String) (Option Aware)
  | none => .ok none
  | some raw =>
      if strip raw = [] then
        .error (400, "meeting_datetime must be an ISO 8601 string or null")
      else
        match cfg.fromisoformat ((strip raw).flatMap fun c =>
            if c = 'Z' then "+00:00".toList else [c]) with
        | none => .error (400, "meeting_datetime not parseable as ISO 8601")
        | some t => .ok (some t.toAware)

/-- `set_meeting_datetime_by_session()` -/
def setMeetingDatetimeBySession (cfg : Config) (db : Db)
    (userSub simpleCode originalFilename : Str) (raw : Option Str) :
    Except (Nat × String) (Db × Option Aware) :=
  if anyMissing userSub simpleCode originalFilename then
    .error (400, "user_sub, simple_code and original_filename are required")
  else do
    let newDt ← parseMeetingDatetime cfg raw
    let db' ← db.setAudio (bySession userSub simpleCode originalFilename) fun a =>
      { a with meetingDatetime := newDt }
    pure (db', newDt)

/-! ## What is answered -/

/-- An upload in `/api/my-sessions`. -/
structure ListedUpload where
  id : Nat
  uafId : Option Nat
  originalFilename : Str
  createdAt : Nat
  meetingDatetime : Option Aware
  sourceAvailable : Bool
  transcodedAvailable : Bool

/-- A session in `/api/my-sessions`. -/
structure ListedSession where
  id : Nat
  simpleCode : Str
  uploadCount : Nat
  maxUploads : Nat
  createdAt : Nat
  isLocalUpload : Bool
  uploads : List ListedUpload

/-- A file in `/api/my-trash`. -/
structure TrashedFile where
  id : Nat
  originalFilename : Str
  simpleCode : Option Str
  trashedAt : Option Nat
  daysLeft : Option Nat

/-- A session in `/api/my-trash`. -/
structure TrashedSession where
  id : Nat
  simpleCode : Str
  trashedAt : Option Nat
  daysLeft : Option Nat
  filesCount : Nat

inductive Reply where
  | error (status : Nat) (error : String)
  | sessions (listed : List ListedSession)
  | uploaded (fileId : Nat) (filename : Str) (remaining : Nat)
  | renamed (title : Str)
  | dated (meetingDatetime : Option Aware)
  | trash (files : List TrashedFile) (sessions : List TrashedSession)
  | restored (name : Str)
  | deleted (deletedObjects : Nat)
  | trashed (filename : Str)
  | trashedSessions (deletedSessions deletedFiles : Nat)

/-- What a request meets: whether the internal zone answers, whether the commit goes through and
whether the upload is stored, the answers of the store to its deletions, and what it draws. -/
structure Meets where
  internal : Bool
  commits : Bool
  stores : Bool
  reply : Nat → Purges.Reply
  sessionId : Nat
  suffix : Str
  fileId : Nat
  hex : Str

/-- The answers to the deletions of one request. -/
def Meets.replies (m : Meets) (db : Db) : Nat → Purges.Reply :=
  fun n => m.reply (n - db.storage.asked.length)

/-! ## `/api/my-sessions` -/

/-- `LOCAL_UPLOAD_SIMPLE_CODE_PREFIX` -/
def localPrefix : Str := "L-".toList

/-- `LOCAL_UPLOAD_MAX_PER_SESSION` -/
def localUploadMax : Nat := 9999

def Session.isLocal (s : Session) : Bool := localPrefix.isPrefixOf s.simpleCode

/-- The sessions of the user that are not in the trash. -/
def liveSessions (db : Db) (userSub : Str) : List Session :=
  db.sessions.filter fun s => s.userSub = userSub && s.trashedAt.isNone

/-- `_select_listed_sessions(db, user_sub)` -/
def selectListedSessions (cfg : Config) (db : Db) (userSub : Str) : List Session :=
  let recent := (ranked (·.updatedAt) (liveSessions db userSub)).take cfg.mySessionsCap
  let localSessions := ranked (·.updatedAt) ((liveSessions db userSub).filter Session.isLocal)
  recent ++ localSessions.filter fun s => !recent.any fun r => r.id = s.id

/-- The rows of `/api/v1/audio/meeting-datetimes` under `(code, name)`, the last one wins. -/
def bulk (db : Db) (m : Meets) (userSub : Str) (p : Audio → Bool) (code name : Str) :
    Option Audio :=
  if m.internal = true ∧ strip userSub ≠ [] then
    (db.audio.filter fun a => a.userSub = strip userSub && strip a.originalSessionCode = code &&
      strip a.originalFilename = name && code ≠ [] && name ≠ [] && p a).getLast?
  else none

def listUpload (db : Db) (m : Meets) (userSub : Str) (s : Session) (f : File) : ListedUpload where
  id := f.id
  uafId := (bulk db m userSub (fun _ => true) s.simpleCode f.originalFilename).map (·.id)
  originalFilename := f.originalFilename
  createdAt := f.createdAt
  meetingDatetime := (bulk db m userSub (·.meetingDatetime.isSome) s.simpleCode
    f.originalFilename).bind (·.meetingDatetime)
  sourceAvailable := f.storedFilename ≠ []
  transcodedAvailable := keyOf f.transcodedFilename ≠ []

def listSession (db : Db) (m : Meets) (userSub : Str) (s : Session) : ListedSession where
  id := s.id
  simpleCode := s.simpleCode
  uploadCount := s.uploadCount
  maxUploads := s.maxUploads
  createdAt := s.createdAt
  isLocalUpload := s.isLocal
  uploads := ((uploadsOf db s).filter fun f => f.trashedAt.isNone).map (listUpload db m userSub s)

/-- `api_my_sessions()` -/
def apiMySessions (cfg : Config) (db : Db) (m : Meets) (userSub : Str) : Db × Reply :=
  (db, .sessions ((selectListedSessions cfg db userSub).map (listSession db m userSub)))

/-! ## The endpoints on a file -/

/-- `api_rename_file(file_id)` -/
def apiRenameFile (db : Db) (m : Meets) (userSub : Str) (fileId : Nat) (title : Str) :
    Db × Reply :=
  if strip title = [] then (db, .error 400 "title is required")
  else if 500 < (strip title).length then (db, .error 400 "title too long")
  else
    match getOwnedFile db userSub fileId with
    | none => (db, .error 404 "file_not_found")
    | some f =>
        match db.sessions.find? fun s => s.id = f.sessionId with
        | none => (db, .error 404 "session_not_found")
        | some s =>
            if m.internal then
              match renameFileBySession db userSub s.simpleCode f.originalFilename
                  (strip title) with
              | .error (status, error) => (db, .error status error)
              | .ok (db', newTitle) => (db', .renamed newTitle)
            else (db, .error 500 "internal")

/-- `raw_dt` of `api_set_meeting_datetime`: missing, null, a string or something else. -/
def readMeetingDatetime : Option Json → Except (Nat × String) (Option Str)
  | none => .error (400, "meeting_datetime field required (string or null)")
  | some .null => .ok none
  | some (.str raw) =>
      if strip raw = [] then .error (400, "meeting_datetime must be ISO 8601 string or null")
      else .ok (some (strip raw))
  | some _ => .error (400, "meeting_datetime must be ISO 8601 string or null")

/-- `api_set_meeting_datetime(file_id)` -/
def apiSetMeetingDatetime (cfg : Config) (db : Db) (m : Meets) (userSub : Str) (fileId : Nat)
    (field : Option Json) : Db × Reply :=
  match readMeetingDatetime field with
  | .error (status, error) => (db, .error status error)
  | .ok raw =>
      match getOwnedFile db userSub fileId with
      | none => (db, .error 404 "file_not_found")
      | some f =>
          match db.sessions.find? fun s => s.id = f.sessionId with
          | none => (db, .error 404 "session_not_found")
          | some s =>
              if m.internal then
                match setMeetingDatetimeBySession cfg db userSub s.simpleCode f.originalFilename
                    raw with
                | .error (status, error) => (db, .error status error)
                | .ok (db', newDt) => (db', .dated newDt)
              else (db, .error 500 "internal")

/-- `api_delete_file(file_id)` -/
def apiDeleteFile (db : Db) (m : Meets) (userSub : Str) (fileId : Nat) : Db × Reply :=
  match getOwnedFile db userSub fileId with
  | none => (db, .error 404 "file_not_found")
  | some f =>
      if m.commits then (db.setFile fileId (some db.now), .trashed f.originalFilename)
      else (db, .error 500 "file_delete_failed")

/-- `api_restore_file(file_id)` -/
def apiRestoreFile (db : Db) (m : Meets) (userSub : Str) (fileId : Nat) : Db × Reply :=
  match trashedFile db userSub fileId with
  | none => (db, .error 404 "file_not_in_trash")
  | some f =>
      if m.commits then (db.setFile fileId none, .restored f.originalFilename)
      else (db, .error 500 "restore_failed")

/-- The objects of a file, in the order of `api_delete_file_permanently`. -/
def objectsOf (db : Db) (f : File) : List Blob :=
  f.blobs ++ (resolveTransferredStorage db.world f.toUploadedFile).toList

/-- What is asked of the internal zone once the row of a file is deleted. -/
def cleanupsOf (db : Db) (userSub : Str) (f : File) : List Cleanup :=
  match db.sessions.find? fun s => s.id = f.sessionId with
  | none => []
  | some s =>
      if s.simpleCode = [] ∨ f.originalFilename = [] then []
      else [⟨userSub, s.simpleCode, f.originalFilename⟩]

/-- The deletions that are asked for before the row goes. -/
def Db.askFor (db : Db) (m : Meets) (f : File) : Db :=
  { db with storage := deleteAll (m.replies db) (objectsOf db f) db.storage }

/-- The row is gone, and the internal zone is to be told. -/
def Db.dropFile (db : Db) (userSub : Str) (f : File) : Db :=
  { db with
    files := db.files.filter fun g => g.id ≠ f.id
    cleanups := db.cleanups ++ cleanupsOf db userSub f }

/-- `deleted_objects` -/
def deletedObjects (m : Meets) (objs : List Blob) : Nat :=
  ((List.range objs.length).filter fun n => m.reply n = .deleted).length

/-- `api_delete_file_permanently(file_id)` -/
def apiDeleteFilePermanently (db : Db) (m : Meets) (userSub : Str) (fileId : Nat) : Db × Reply :=
  match trashedFile db userSub fileId with
  | none => (db, .error 404 "file_not_in_trash")
  | some f =>
      if m.commits then
        ((db.askFor m f).dropFile userSub f, .deleted (deletedObjects m (objectsOf db f)))
      else (db.askFor m f, .error 500 "delete_failed")

/-! ## The endpoints on sessions -/

/-- `api_delete_session(simple_code)` -/
def apiDeleteSession (db : Db) (m : Meets) (userSub simpleCode : Str) : Db × Reply :=
  match sessionOf db userSub simpleCode false with
  | none => (db, .error 404 "session_not_found")
  | some s =>
      if m.commits then
        (db.setSessions (fun s' => s'.id = s.id) (some db.now),
          .trashedSessions 1 (uploadsOf db s).length)
      else (db, .error 500 "session_delete_failed")

/-- `api_restore_session(simple_code)` -/
def apiRestoreSession (db : Db) (m : Meets) (userSub simpleCode : Str) : Db × Reply :=
  match sessionOf db userSub simpleCode true with
  | none => (db, .error 404 "session_not_in_trash")
  | some s =>
      if m.commits then (db.setSessions (fun s' => s'.id = s.id) none, .restored simpleCode)
      else (db, .error 500 "restore_failed")

/-- `api_purge_my_sessions()` -/
def apiPurgeMySessions (db : Db) (m : Meets) (userSub : Str) : Db × Reply :=
  if m.commits then
    (db.setSessions (fun s => s.userSub = userSub && s.trashedAt.isNone) (some db.now),
      .trashedSessions (liveSessions db userSub).length
        ((liveSessions db userSub).flatMap (uploadsOf db)).length)
  else (db, .error 500 "Failed to purge sessions")

/-! ## `/api/my-trash` -/

/-- `purge_expired_trash(db, user_sub)` -/
def purgeTrash (cfg : Config) (db : Db) (m : Meets) (userSub : Str) : Db :=
  db.keep (purgeExpiredTrash ⟨true, m.commits, m.replies db⟩ userSub
    (db.now - cfg.trashRetentionDays * day) db.world)

/-- `max(0, TRASH_RETENTION_DAYS - (now - trashed_at).days)` -/
def daysLeft (cfg : Config) (now trashedAt : Nat) : Nat :=
  ((cfg.trashRetentionDays : Int) - ((now : Int) - trashedAt) / day).toNat

def listTrashedFile (cfg : Config) (db : Db) (f : File) : TrashedFile where
  id := f.id
  originalFilename := f.originalFilename
  simpleCode := (db.sessions.find? fun s => s.id = f.sessionId).map (·.simpleCode)
  trashedAt := f.trashedAt
  daysLeft := f.trashedAt.map (daysLeft cfg db.now)

def listTrashedSession (cfg : Config) (db : Db) (s : Session) : TrashedSession where
  id := s.id
  simpleCode := s.simpleCode
  trashedAt := s.trashedAt
  daysLeft := s.trashedAt.map (daysLeft cfg db.now)
  filesCount := (uploadsOf db s).length

/-- `api_my_trash()` -/
def apiMyTrash (cfg : Config) (db : Db) (m : Meets) (userSub : Str) : Db × Reply :=
  let db := purgeTrash cfg db m userSub
  (db, .trash
    ((ranked (·.trashedAt.getD 0) (db.files.filter fun f =>
      f.trashedAt.isSome && db.ownsLive userSub f.sessionId)).map (listTrashedFile cfg db))
    ((ranked (·.trashedAt.getD 0) (db.sessions.filter fun s =>
      s.userSub = userSub && s.trashedAt.isSome)).map (listTrashedSession cfg db)))

/-! ## `/api/my-upload` -/

/-- The session that `_get_or_create_local_upload_session(db, user)` finds. -/
def localSession (db : Db) (userSub : Str) : Option Session :=
  (ranked (·.createdAt) ((liveSessions db userSub).filter fun s =>
    s.isLocal && s.active && decide (s.uploadCount < s.maxUploads))).head?

/-- The session that it creates. -/
def newLocalSession (db : Db) (m : Meets) (userSub : Str) : Session where
  id := m.sessionId
  userSub := userSub
  simpleCode := localPrefix ++ m.suffix
  trashedAt := none
  active := true
  uploadCount := 0
  maxUploads := localUploadMax
  createdAt := db.now
  updatedAt := db.now

/-- `build_stored_filename(simple_code, original_filename)` -/
def buildStoredFilename (cfg : Config) (m : Meets) (simpleCode originalFilename : Str) : Str :=
  simpleCode ++ '_' :: (m.hex ++ '_' ::
    (if cfg.secureFilename originalFilename = [] then "audio.bin".toList
      else cfg.secureFilename originalFilename))

/-- The row of an upload. -/
def newFile (db : Db) (fileId : Nat) (s : Session) (originalFilename storedFilename : Str) :
    File where
  id := fileId
  sessionId := s.id
  storedFilename := storedFilename
  transcodedFilename := none
  createdAt := db.now
  trashedAt := none
  originalFilename := originalFilename

/-- `uploaded_file` is inserted, and `session_obj.upload_count += 1`. -/
def Db.insertFile (db : Db) (f : File) : Db :=
  { db with
    files := db.files ++ [f]
    sessions := db.sessions.map fun s =>
      if s.id = f.sessionId then { s with uploadCount := s.uploadCount + 1, updatedAt := db.now }
      else s }

/-- `store_audio_to_s3` -/
def Db.put (db : Db) (o : Blob) : Db :=
  { db with storage := { db.storage with objects := Function.update db.storage.objects o true } }

/-- `f.transcoded_filename = …` -/
def Db.setTranscoded (db : Db) (fileId : Nat) (key : Str) : Db :=
  { db with
    files := db.files.map fun f =>
      if f.id = fileId then { f with transcodedFilename := some key } else f }

/-- The session of an upload, and the tables once it is there. -/
def getOrCreateLocalUploadSession (db : Db) (m : Meets) (userSub : Str) : Db × Session :=
  match localSession db userSub with
  | some s => (db, s)
  | none =>
      let s := newLocalSession db m userSub
      ({ db with sessions := db.sessions ++ [s] }, s)

/-- `api_my_upload()`; `refusal` is what the checks of the file answer. -/
def apiMyUpload (cfg : Config) (db : Db) (m : Meets) (userSub : Str) (refusal : Option String)
    (filename : Str) : Db × Reply :=
  match refusal with
  | some error => (db, .error 400 error)
  | none =>
      let (db1, s) := getOrCreateLocalUploadSession db m userSub
      let storedName := buildStoredFilename cfg m s.simpleCode filename
      if m.stores then
        if m.commits then
          ((db1.insertFile (newFile db m.fileId s filename storedName)).put (.upload, storedName),
            .uploaded m.fileId filename (s.maxUploads - (s.uploadCount + 1)))
        else (db.put (.upload, storedName), .error 500 "internal")
      else (db, .error 500 "Erreur lors de l'upload. Réessayez.")

/-! ## The system -/

inductive Request where
  | mySessions
  | myUpload (refusal : Option String) (filename : Str)
  | renameFile (fileId : Nat) (title : Str)
  | setMeetingDatetime (fileId : Nat) (field : Option Json)
  | myTrash
  | restoreFile (fileId : Nat)
  | restoreSession (simpleCode : Str)
  | deleteFilePermanently (fileId : Nat)
  | deleteFile (fileId : Nat)
  | deleteSession (simpleCode : Str)
  | purgeMySessions

/-- What a request of a user does, and its answer. -/
def answer (cfg : Config) (db : Db) (m : Meets) (userSub : Str) : Request → Db × Reply
  | .mySessions => apiMySessions cfg db m userSub
  | .myUpload refusal filename => apiMyUpload cfg db m userSub refusal filename
  | .renameFile fileId title => apiRenameFile db m userSub fileId title
  | .setMeetingDatetime fileId field => apiSetMeetingDatetime cfg db m userSub fileId field
  | .myTrash => apiMyTrash cfg db m userSub
  | .restoreFile fileId => apiRestoreFile db m userSub fileId
  | .restoreSession simpleCode => apiRestoreSession db m userSub simpleCode
  | .deleteFilePermanently fileId => apiDeleteFilePermanently db m userSub fileId
  | .deleteFile fileId => apiDeleteFile db m userSub fileId
  | .deleteSession simpleCode => apiDeleteSession db m userSub simpleCode
  | .purgeMySessions => apiPurgeMySessions db m userSub

inductive Act where
  | wait (seconds : Nat)
  | request (userSub : Str) (r : Request) (m : Meets)
  /-- `_async_purge_expired_trash(user_sub)` -/
  | purgeTrash (userSub : Str) (m : Meets)
  /-- `run_external_purge_once()` and `run_internal_purge_once()` -/
  | externalPurge (env : Env) (cutoff : Nat)
  | internalPurge (env : Env) (cutoff : Nat)
  /-- `api_generate_code()` -/
  | generateCode (userSub simpleCode : Str) (id maxUploads : Nat)
  /-- An upload from a phone. -/
  | received (userSub : Str) (sessionId fileId : Nat) (originalFilename storedFilename : Str)
  /-- The audio of a file of the user is normalised. -/
  | transcoded (userSub : Str) (fileId : Nat) (key : Str)
  /-- A file of a user is pulled into the internal zone. -/
  | pulled (a : Audio)
  /-- The request that follows a permanent deletion arrives, or does not. -/
  | cleanup (c : Cleanup) (arrives : Bool)

/-- No session has that id or that code. -/
def IsNewSession (db : Db) (id : Nat) (simpleCode : Str) : Prop :=
  ∀ s ∈ db.sessions, s.id ≠ id ∧ s.simpleCode ≠ simpleCode

/-- No file has that id or that object. -/
def IsNewFile (db : Db) (id : Nat) (storedFilename : Str) : Prop :=
  ∀ f ∈ db.files, f.id ≠ id ∧ f.storedFilename ≠ storedFilename

/-- What is drawn is new, and what happens in other services is about rows that are there. -/
def Possible (cfg : Config) (db : Db) : Act → Prop
  | .request userSub (.myUpload none filename) m =>
      (localSession db userSub = none → IsNewSession db m.sessionId (localPrefix ++ m.suffix)) ∧
      IsNewFile db m.fileId (buildStoredFilename cfg m
        (getOrCreateLocalUploadSession db m userSub).2.simpleCode filename)
  | .generateCode _ simpleCode id _ => IsNewSession db id simpleCode
  | .received userSub sessionId fileId _ storedFilename =>
      db.owns userSub sessionId = true ∧ IsNewFile db fileId storedFilename
  | .transcoded userSub fileId key => ∀ f ∈ db.files,
      if f.id = fileId then db.owns userSub f.sessionId = true
      else f.transcodedFilename ≠ some key
  | .pulled a => ∀ b ∈ db.audio, b.id ≠ a.id
  | .cleanup c _ => c ∈ db.cleanups
  | _ => True

instance (db : Db) (id : Nat) (simpleCode : Str) : Decidable (IsNewSession db id simpleCode) := by
  unfold IsNewSession
  infer_instance

instance (db : Db) (id : Nat) (storedFilename : Str) :
    Decidable (IsNewFile db id storedFilename) := by
  unfold IsNewFile
  infer_instance

instance (cfg : Config) (db : Db) (a : Act) : Decidable (Possible cfg db a) := by
  cases a with
  | request userSub r m =>
      cases r with
      | myUpload refusal filename =>
          cases refusal <;> simp only [Possible] <;> infer_instance
      | _ => exact isTrue trivial
  | _ =>
      simp only [Possible]
      infer_instance

/-- What an action does. -/
def effect (cfg : Config) (db : Db) : Act → Db × Option Reply
  | .wait seconds => ({ db with now := db.now + seconds }, none)
  | .request userSub r m => ((answer cfg db m userSub r).1, some (answer cfg db m userSub r).2)
  | .purgeTrash userSub m => (purgeTrash cfg db m userSub, none)
  | .externalPurge env cutoff => (db.keep (runExternalPurgeOnce env cutoff db.world), none)
  | .internalPurge env cutoff => (db.keep (runInternalPurgeOnce env cutoff db.world), none)
  | .generateCode userSub simpleCode id maxUploads =>
      ({ db with sessions := db.sessions ++
        [⟨⟨id, userSub, simpleCode, none⟩, true, 0, maxUploads, db.now, db.now⟩] }, none)
  | .received _ sessionId fileId originalFilename storedFilename =>
      ((db.insertFile ⟨⟨fileId, sessionId, storedFilename, none, db.now, none⟩,
        originalFilename⟩).put (.upload, storedFilename), none)
  | .transcoded _ fileId key =>
      ((db.setTranscoded fileId key).put (.processed, key), none)
  | .pulled a => ({ db with audio := db.audio ++ [a] }, none)
  | .cleanup c arrives =>
      let db' := if arrives then deleteFileBySession db c else db
      ({ db' with cleanups := db.cleanups.erase c }, none)

/-- A step, with its answer. -/
def step (cfg : Config) (db : Db) (a : Act) : Option (Db × Option Reply) :=
  if Possible cfg db a then some (effect cfg db a) else none

/-- The state after a step. -/
def next (cfg : Config) (db : Db) (a : Act) : Option Db := (step cfg db a).map Prod.fst

/-! ## What a request does -/

/-- A request about the internal rows of a file. -/
def Amends (fileId : Nat) (r : Request) : Prop :=
  (∃ title, r = .renameFile fileId title) ∨ ∃ field, r = .setMeetingDatetime fileId field

/-- The rows of the internal zone that go by the name of a file of a session. -/
def Db.amend (db : Db) (userSub : Str) (s : Session) (f : File) (g : Audio → Audio) : Db :=
  { db with
    audio := db.audio.map fun a =>
      if bySession userSub s.simpleCode f.originalFilename a then g a else a }

/-- The tables with an upload. -/
def Db.upload (cfg : Config) (db : Db) (m : Meets) (userSub filename : Str) : Db :=
  let (db1, s) := getOrCreateLocalUploadSession db m userSub
  (db1.insertFile (newFile db m.fileId s filename
    (buildStoredFilename cfg m s.simpleCode filename))).put
      (.upload, buildStoredFilename cfg m s.simpleCode filename)

/-- What a request of a user can do to the tables. -/
inductive Does (cfg : Config) (db : Db) (m : Meets) (userSub : Str) : Request → Db → Prop where
  | nothing (r : Request) : Does cfg db m userSub r db
  | trash {fileId : Nat} {f : File} (h : getOwnedFile db userSub fileId = some f) :
      Does cfg db m userSub (.deleteFile fileId) (db.setFile fileId (some db.now))
  | restore {fileId : Nat} {f : File} (h : trashedFile db userSub fileId = some f) :
      Does cfg db m userSub (.restoreFile fileId) (db.setFile fileId none)
  | ask {fileId : Nat} {f : File} (h : trashedFile db userSub fileId = some f)
      (hcommits : m.commits = false) :
      Does cfg db m userSub (.deleteFilePermanently fileId) (db.askFor m f)
  | drop {fileId : Nat} {f : File} (h : trashedFile db userSub fileId = some f) :
      Does cfg db m userSub (.deleteFilePermanently fileId) ((db.askFor m f).dropFile userSub f)
  | trashSession {simpleCode : Str} {s : Session}
      (h : sessionOf db userSub simpleCode false = some s) :
      Does cfg db m userSub (.deleteSession simpleCode)
        (db.setSessions (fun s' => s'.id = s.id) (some db.now))
  | restoreSession {simpleCode : Str} {s : Session}
      (h : sessionOf db userSub simpleCode true = some s) :
      Does cfg db m userSub (.restoreSession simpleCode)
        (db.setSessions (fun s' => s'.id = s.id) none)
  | trashSessions : Does cfg db m userSub .purgeMySessions
      (db.setSessions (fun s => s.userSub = userSub && s.trashedAt.isNone) (some db.now))
  | amend {fileId : Nat} {r : Request} {f : File} {s : Session} {g : Audio → Audio}
      (hr : Amends fileId r) (h : getOwnedFile db userSub fileId = some f)
      (hs : (db.sessions.find? fun s => s.id = f.sessionId) = some s)
      (hg : ∀ a, (g a).toAudioFile = a.toAudioFile ∧ (g a).userSub = a.userSub ∧
        (g a).originalSessionCode = a.originalSessionCode ∧
        (g a).originalFilename = a.originalFilename) :
      Does cfg db m userSub r (db.amend userSub s f g)
  | purge : Does cfg db m userSub .myTrash (purgeTrash cfg db m userSub)
  | store {filename : Str} (hcommits : m.commits = false) (o : Str) :
      Does cfg db m userSub (.myUpload none filename) (db.put (.upload, o))
  | upload {filename : Str} :
      Does cfg db m userSub (.myUpload none filename) (db.upload cfg m userSub filename)

theorem setAudio_ok {db db' : Db} {p : Audio → Bool} {g : Audio → Audio}
    (h : db.setAudio p g = .ok db') :
    db' = { db with audio := db.audio.map fun a => if p a then g a else a } := by
  rw [Db.setAudio] at h
  split at h
  · exact (Except.ok.inj h).symm
  · cases h

theorem renameFileBySession_ok {db db' : Db} {userSub code name title title' : Str}
    (h : renameFileBySession db userSub code name title = .ok (db', title')) :
    db' = { db with
      audio := db.audio.map fun a =>
        if bySession userSub code name a then
          { a with suggestedFilename := some ((strip title).take 500) } else a } := by
  rw [renameFileBySession] at h
  split at h
  · cases h
  · cases hset : db.setAudio (bySession userSub code name) fun a =>
        { a with suggestedFilename := some ((strip title).take 500) } with
    | error e =>
        rw [hset] at h
        cases h
    | ok db1 =>
        rw [hset] at h
        cases h
        exact setAudio_ok hset

theorem setMeetingDatetimeBySession_ok {cfg : Config} {db db' : Db} {userSub code name : Str}
    {raw : Option Str} {newDt : Option Aware}
    (h : setMeetingDatetimeBySession cfg db userSub code name raw = .ok (db', newDt)) :
    db' = { db with
      audio := db.audio.map fun a =>
        if bySession userSub code name a then { a with meetingDatetime := newDt } else a } := by
  rw [setMeetingDatetimeBySession] at h
  split at h
  · cases h
  · cases hparse : parseMeetingDatetime cfg raw with
    | error e =>
        rw [hparse] at h
        cases h
    | ok newDt' =>
        rw [hparse] at h
        cases hset : db.setAudio (bySession userSub code name) fun a =>
            { a with meetingDatetime := newDt' } with
        | error e =>
            simp only [bind, Except.bind, hset] at h
            cases h
        | ok db1 =>
            simp only [bind, Except.bind, hset] at h
            cases h
            exact setAudio_ok hset

theorem does_renameFile (cfg : Config) (db : Db) (m : Meets) (userSub : Str) (fileId : Nat)
    (title : Str) :
    Does cfg db m userSub (.renameFile fileId title)
      (apiRenameFile db m userSub fileId title).1 := by
  rw [apiRenameFile]
  split
  · exact .nothing _
  · split
    · exact .nothing _
    · split
      · exact .nothing _
      · rename_i f hf
        split
        · exact .nothing _
        · rename_i s hs
          split
          · split
            · exact .nothing _
            · rename_i db' newTitle hok
              rw [renameFileBySession_ok hok]
              exact .amend (Or.inl ⟨title, rfl⟩) hf hs fun a => ⟨rfl, rfl, rfl, rfl⟩
          · exact .nothing _

theorem does_setMeetingDatetime (cfg : Config) (db : Db) (m : Meets) (userSub : Str)
    (fileId : Nat) (field : Option Json) :
    Does cfg db m userSub (.setMeetingDatetime fileId field)
      (apiSetMeetingDatetime cfg db m userSub fileId field).1 := by
  rw [apiSetMeetingDatetime]
  split
  · exact .nothing _
  · split
    · exact .nothing _
    · rename_i f hf
      split
      · exact .nothing _
      · rename_i s hs
        split
        · split
          · exact .nothing _
          · rename_i db' newDt hok
            rw [setMeetingDatetimeBySession_ok hok]
            exact .amend (Or.inr ⟨field, rfl⟩) hf hs fun a => ⟨rfl, rfl, rfl, rfl⟩
        · exact .nothing _

theorem does_myUpload (cfg : Config) (db : Db) (m : Meets) (userSub : Str)
    (refusal : Option String) (filename : Str) :
    Does cfg db m userSub (.myUpload refusal filename)
      (apiMyUpload cfg db m userSub refusal filename).1 := by
  cases refusal with
  | some error => exact .nothing _
  | none =>
      show Does cfg db m userSub (.myUpload none filename) (if m.stores then
        if m.commits then (db.upload cfg m userSub filename, _) else (db.put (.upload, _), _)
        else (db, _)).1
      split
      · split
        · exact .upload
        · rename_i hcommits
          exact .store (Bool.eq_false_iff.mpr hcommits) _
      · exact .nothing _

/-- **What a request does.** -/
theorem does_answer (cfg : Config) (db : Db) (m : Meets) (userSub : Str) (r : Request) :
    Does cfg db m userSub r (answer cfg db m userSub r).1 := by
  cases r with
  | mySessions => exact .nothing _
  | myUpload refusal filename => exact does_myUpload cfg db m userSub refusal filename
  | renameFile fileId title => exact does_renameFile cfg db m userSub fileId title
  | setMeetingDatetime fileId field => exact does_setMeetingDatetime cfg db m userSub fileId field
  | myTrash => exact .purge
  | restoreFile fileId =>
      show Does cfg db m userSub _ (apiRestoreFile db m userSub fileId).1
      rw [apiRestoreFile]
      split
      · exact .nothing _
      · rename_i f hf
        split
        · exact .restore hf
        · exact .nothing _
  | restoreSession simpleCode =>
      show Does cfg db m userSub _ (apiRestoreSession db m userSub simpleCode).1
      rw [apiRestoreSession]
      split
      · exact .nothing _
      · rename_i s hs
        split
        · exact .restoreSession hs
        · exact .nothing _
  | deleteFilePermanently fileId =>
      show Does cfg db m userSub _ (apiDeleteFilePermanently db m userSub fileId).1
      rw [apiDeleteFilePermanently]
      split
      · exact .nothing _
      · rename_i f hf
        split
        · exact .drop hf
        · rename_i hcommits
          exact .ask hf (Bool.eq_false_iff.mpr hcommits)
  | deleteFile fileId =>
      show Does cfg db m userSub _ (apiDeleteFile db m userSub fileId).1
      rw [apiDeleteFile]
      split
      · exact .nothing _
      · rename_i f hf
        split
        · exact .trash hf
        · exact .nothing _
  | deleteSession simpleCode =>
      show Does cfg db m userSub _ (apiDeleteSession db m userSub simpleCode).1
      rw [apiDeleteSession]
      split
      · exact .nothing _
      · rename_i s hs
        split
        · exact .trashSession hs
        · exact .nothing _
  | purgeMySessions =>
      show Does cfg db m userSub _ (apiPurgeMySessions db m userSub).1
      rw [apiPurgeMySessions]
      split
      · exact .trashSessions
      · exact .nothing _

/-! ## What a purge leaves -/

/-- Before that time, what is in the trash is expired. -/
def threshold (cfg : Config) (db : Db) : Nat := db.now - cfg.trashRetentionDays * day

/-- The session is in the trash of the user for too long. -/
def goesSession (cfg : Config) (db : Db) (userSub : Str) (s : Session) : Bool :=
  s.userSub = userSub && expired (threshold cfg db) s.trashedAt

/-- The file is, or its session. -/
def goesFile (cfg : Config) (db : Db) (userSub : Str) (f : File) : Bool :=
  expired (threshold cfg db) f.trashedAt && db.owns userSub f.sessionId ||
    db.sessions.any fun s => goesSession cfg db userSub s && s.id = f.sessionId

theorem any_sessions_world (db : Db) (p : UploadSession → Bool) :
    db.world.sessions.any p = db.sessions.any fun s => p s.toUploadSession := by
  rw [Db.world, List.any_map]
  rfl

theorem mem_trashedFiles_world {db : Db} {f : File} (hf : f ∈ db.files) {userSub : Str} {t : Nat} :
    f.toUploadedFile ∈ trashedFiles db.world userSub t ↔
      (expired t f.trashedAt && db.owns userSub f.sessionId) = true := by
  have howns : (db.world.sessions.any fun s =>
      decide (s.id = f.sessionId) && decide (s.userSub = userSub)) = db.owns userSub f.sessionId :=
    any_sessions_world db _
  rw [trashedFiles, List.mem_filter, howns]
  exact and_iff_right (List.mem_map_of_mem hf)

theorem mem_trashedSessions_world {db : Db} {userSub : Str} {t : Nat} {s : UploadSession} :
    s ∈ trashedSessions db.world userSub t ↔ s ∈ db.world.sessions ∧
      (s.userSub = userSub && expired t s.trashedAt) = true := by
  rw [trashedSessions, List.mem_filter]

/-- A table that is filtered by the rows that are left of it. -/
theorem filter_mem_map {α β : Type} [DecidableEq β] (xs : List α) (g : α → β) {ys : List β}
    {p : α → Bool} (h : ∀ x ∈ xs, g x ∈ ys ↔ p x = true) :
    (xs.filter fun x => g x ∈ ys) = xs.filter p :=
  List.filter_congr fun x hx => by
    rw [Bool.eq_iff_iff, decide_eq_true_iff]
    exact h x hx

theorem filter_mem_self {α β : Type} [DecidableEq β] (xs : List α) (g : α → β) :
    (xs.filter fun x => g x ∈ xs.map g) = xs :=
  List.filter_eq_self.mpr fun _ hx => decide_eq_true (List.mem_map_of_mem hx)

section Purge

variable (cfg : Config) (db : Db) (m : Meets) (userSub : Str)

/-- The sessions that a purge of the trash leaves. -/
theorem sessions_purgeTrash : (purgeTrash cfg db m userSub).sessions =
    db.sessions.filter fun s => !(m.commits && goesSession cfg db userSub s) := by
  refine filter_mem_map db.sessions _ fun s hs => ?_
  have hmem : s.toUploadSession ∈ db.world.sessions := List.mem_map_of_mem hs
  rw [purgeExpiredTrash]
  dsimp only
  split
  · rename_i hcommits
    rw [hcommits, Bool.true_and]
    show s.toUploadSession ∈ db.world.sessions.filter (fun s' =>
      s' ∉ trashedSessions db.world userSub (threshold cfg db)) ↔ _
    rw [List.mem_filter, and_iff_right hmem, decide_eq_true_iff,
      mem_trashedSessions_world, and_iff_right hmem, Bool.not_eq_true', goesSession,
      Bool.not_eq_true]
  · rename_i hcommits
    rw [Bool.eq_false_iff.mpr hcommits, Bool.false_and, Bool.not_false]
    exact iff_of_true hmem rfl

/-- The files that a purge of the trash leaves. -/
theorem files_purgeTrash : (purgeTrash cfg db m userSub).files =
    db.files.filter fun f => !(m.commits && goesFile cfg db userSub f) := by
  refine filter_mem_map db.files _ fun f hf => ?_
  have hmem : f.toUploadedFile ∈ db.world.uploadedFiles := List.mem_map_of_mem hf
  rw [purgeExpiredTrash]
  dsimp only
  split
  · rename_i hcommits
    rw [hcommits, Bool.true_and]
    show f.toUploadedFile ∈ (db.world.uploadedFiles.filter fun g =>
      g ∉ trashedFiles db.world userSub (threshold cfg db)).filter (fun g =>
        !(trashedSessions db.world userSub (threshold cfg db)).any fun s =>
          decide (g.sessionId = s.id)) ↔ _
    have hany : ((trashedSessions db.world userSub (threshold cfg db)).any fun s =>
        decide (f.sessionId = s.id)) = db.sessions.any fun s =>
          goesSession cfg db userSub s && s.id = f.sessionId := by
      rw [trashedSessions, List.any_filter, any_sessions_world]
      refine congrArg db.sessions.any (funext fun s => ?_)
      have heq : decide (f.sessionId = s.id) = decide (s.id = f.sessionId) :=
        decide_eq_decide.mpr eq_comm
      rw [goesSession, heq]
    rw [List.mem_filter, List.mem_filter, and_iff_right hmem, decide_eq_true_iff,
      mem_trashedFiles_world hf, hany, goesFile, Bool.not_or, Bool.and_eq_true (!_),
      Bool.not_eq_true, Bool.not_eq_true' (_ && _)]
  · rename_i hcommits
    rw [Bool.eq_false_iff.mpr hcommits, Bool.false_and, Bool.not_false]
    exact iff_of_true hmem rfl

theorem audio_purgeTrash : (purgeTrash cfg db m userSub).audio = db.audio := by
  refine (filter_mem_map db.audio _ fun a ha => ?_).trans (List.filter_true db.audio)
  refine iff_of_true ?_ rfl
  rw [purgeExpiredTrash]
  dsimp only
  split <;> exact List.mem_map_of_mem ha

end Purge

/-- The files that the purge of old uploads leaves. -/
theorem files_externalPurge (db : Db) (env : Env) (cutoff : Nat) :
    (db.keep (runExternalPurgeOnce env cutoff db.world)).files =
      db.files.filter fun f => !(env.lockAcquired && env.commits && f.createdAt < cutoff) := by
  refine filter_mem_map db.files _ fun f hf => ?_
  have hmem : f.toUploadedFile ∈ db.world.uploadedFiles := List.mem_map_of_mem hf
  rw [runExternalPurgeOnce]
  cases hlock : env.lockAcquired with
  | false => exact iff_of_true hmem rfl
  | true =>
      cases hcommits : env.commits with
      | false => exact iff_of_true hmem rfl
      | true =>
          show f.toUploadedFile ∈ db.world.uploadedFiles.filter _ ↔ _
          rw [List.mem_filter, and_iff_right hmem]
          rfl

theorem sessions_externalPurge (db : Db) (env : Env) (cutoff : Nat) :
    (db.keep (runExternalPurgeOnce env cutoff db.world)).sessions = db.sessions := by
  refine (filter_mem_map db.sessions _ fun s hs => ?_).trans (List.filter_true db.sessions)
  refine iff_of_true ?_ rfl
  rw [runExternalPurgeOnce]
  split <;> exact List.mem_map_of_mem hs

end MesReunions.Portal.Trash
