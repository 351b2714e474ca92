import MesReunions.Purges.Storage

/-!
# The purges

* `run_internal_purge_once` (`dmz-to-internal-bridge/app/puller.py`),
* `run_external_purge_once` (`mobile-upload-pwa/app/main.py`),
* `purge_expired_trash` (`mesreunions-web`, `sessions/service.py`), of files and of sessions.

Each one asks for the deletion of the objects of the old rows, then deletes the rows.

* **`purged_asked`** — every object of a deleted row was asked for, and outlives the row only when
  every request for it was refused; which rows go does not depend on the answers.
* **`refused_outlives`** — one refused request leaves an object without its row.
-/

namespace MesReunions.Purges

/-! ## The rows -/

inductive Bucket where
  | upload
  | processed
  | internal
  deriving DecidableEq

/-- An object of the store. -/
abbrev Blob := Bucket × Str

/-- A row of `user_audio_files`; times are in seconds. -/
structure AudioFile where
  id : Nat
  createdAt : Nat
  storedFilename : Option Str
  deriving DecidableEq

/-- A row of `uploaded_files`. -/
structure UploadedFile where
  id : Nat
  sessionId : Nat
  storedFilename : Str
  transcodedFilename : Option Str
  createdAt : Nat
  trashedAt : Option Nat
  deriving DecidableEq

/-- A row of `upload_sessions`. -/
structure UploadSession where
  id : Nat
  userSub : Str
  simpleCode : Str
  trashedAt : Option Nat
  deriving DecidableEq

/-- The tables of both zones, and the store. -/
structure World where
  audioFiles : List AudioFile
  uploadedFiles : List UploadedFile
  sessions : List UploadSession
  storage : Storage Blob

/-- What a purge meets: whether it gets its lock, whether its commit goes through, and the answers
of the store. -/
structure Env where
  lockAcquired : Bool
  commits : Bool
  reply : Nat → Reply

/-- `if key:` -/
def keyOf (key : Option Str) : List Str := key.toList.filter fun k => !k.isEmpty

/-! ## The functions -/

/-- The object of an internal row. `delete_object(cfg, None)` raises. -/
def AudioFile.blobs (f : AudioFile) : List Blob := f.storedFilename.toList.map (.internal, ·)

/-- The objects of an uploaded file, as the trash purge goes through them. -/
def UploadedFile.blobs (f : UploadedFile) : List Blob :=
  (keyOf (some f.storedFilename)).map (.upload, ·) ++
    (keyOf f.transcodedFilename).map (.processed, ·)

/-- `run_internal_purge_once()` -/
def runInternalPurgeOnce (env : Env) (cutoff : Nat) (w : World) : World :=
  if env.lockAcquired then
    let staleFiles := w.audioFiles.filter fun f => f.createdAt < cutoff
    { w with
      storage := staleFiles.foldl (fun s f => deleteAll env.reply f.blobs s) w.storage
      audioFiles := if env.commits then w.audioFiles.filter fun f => !(f.createdAt < cutoff)
        else w.audioFiles }
  else w

/-- The requests of `run_external_purge_once` for one file: the transcoded object first. -/
def externalRequests (f : UploadedFile) : List Blob :=
  (keyOf f.transcodedFilename).map (.processed, ·) ++ [(.upload, f.storedFilename)]

/-- `run_external_purge_once()` -/
def runExternalPurgeOnce (env : Env) (cutoff : Nat) (w : World) : World :=
  if env.lockAcquired then
    let staleFiles := w.uploadedFiles.filter fun f => f.createdAt < cutoff
    { w with
      storage := staleFiles.foldl (fun s f => deleteAll env.reply (externalRequests f) s) w.storage
      uploadedFiles := if env.commits then w.uploadedFiles.filter fun f => !(f.createdAt < cutoff)
        else w.uploadedFiles }
  else w

/-- `resolve_transferred_storage(db, f)` -/
def resolveTransferredStorage (w : World) (f : UploadedFile) : Option Blob :=
  match keyOf f.transcodedFilename with
  | [] => none
  | transcoded :: _ =>
      (w.sessions.find? fun s => s.id = f.sessionId).map fun s =>
        (.internal, s.userSub ++ '/' :: (s.simpleCode ++ '/' :: transcoded))

/-- In the trash for longer than `TRASH_RETENTION_DAYS`. -/
def expired (threshold : Nat) (trashedAt : Option Nat) : Bool := trashedAt.any (· < threshold)

/-- `trashed_files` -/
def trashedFiles (w : World) (userSub : Str) (threshold : Nat) : List UploadedFile :=
  w.uploadedFiles.filter fun f => expired threshold f.trashedAt &&
    w.sessions.any fun s => s.id = f.sessionId && s.userSub = userSub

/-- `trashed_sessions` -/
def trashedSessions (w : World) (userSub : Str) (threshold : Nat) : List UploadSession :=
  w.sessions.filter fun s => s.userSub = userSub && expired threshold s.trashedAt

/-- The first loop of `purge_expired_trash`: the rows go with the next query. -/
def purgeTrashedFiles (env : Env) (userSub : Str) (threshold : Nat) (w : World) : World :=
  { w with
    storage := (trashedFiles w userSub threshold).foldl (fun s f => deleteAll env.reply
      (f.blobs ++ (resolveTransferredStorage w f).toList) s) w.storage
    uploadedFiles := w.uploadedFiles.filter fun f => f ∉ trashedFiles w userSub threshold }

/-- `s.uploads` -/
def uploads (w : World) (s : UploadSession) : List UploadedFile :=
  w.uploadedFiles.filter fun f => f.sessionId = s.id

/-- The second loop: a session is deleted with its files. -/
def purgeTrashedSessions (env : Env) (userSub : Str) (threshold : Nat) (w : World) : World :=
  let gone := trashedSessions w userSub threshold
  { w with
    storage := (gone.flatMap (uploads w)).foldl (fun s f =>
      deleteAll env.reply f.blobs s) w.storage
    uploadedFiles := w.uploadedFiles.filter fun f => !gone.any fun s => f.sessionId = s.id
    sessions := w.sessions.filter fun s => s ∉ gone }

/-- `purge_expired_trash(db, user_sub)`: without its commit the store alone has changed. -/
def purgeExpiredTrash (env : Env) (userSub : Str) (threshold : Nat) (w : World) : World :=
  let w' := purgeTrashedSessions env userSub threshold (purgeTrashedFiles env userSub threshold w)
  if env.commits then w' else { w with storage := w'.storage }

/-- One run of a purge. -/
inductive Purge where
  | internal (cutoff : Nat)
  | external (cutoff : Nat)
  | trash (userSub : Str) (threshold : Nat)

def Purge.run (env : Env) : Purge → World → World
  | .internal cutoff => runInternalPurgeOnce env cutoff
  | .external cutoff => runExternalPurgeOnce env cutoff
  | .trash userSub threshold => purgeExpiredTrash env userSub threshold

/-! ## Rows and objects -/

/-- A row that refers to objects. -/
inductive FileRow where
  | audio (f : AudioFile)
  | uploaded (f : UploadedFile)
  deriving DecidableEq

def FileRow.blobs : FileRow → List Blob
  | .audio f => f.blobs
  | .uploaded f => f.blobs

def World.rows (w : World) : List FileRow :=
  w.audioFiles.map .audio ++ w.uploadedFiles.map .uploaded

/-- The row was deleted. -/
def Deleted (w w' : World) (row : FileRow) : Prop := row ∈ w.rows ∧ row ∉ w'.rows

/-- No object of a deleted row is left. -/
def NoOrphan (w w' : World) : Prop :=
  ∀ row, Deleted w w' row → ∀ o ∈ row.blobs, w'.storage.objects o = false

/-! ## What is asked for -/

/-- The requests of a run account for the store, and cover what the deleted rows refer to. -/
structure Covers (w w' : World) (requests : List (Blob × Reply)) : Prop where
  accounted : Accounted w.storage w'.storage requests
  asked : ∀ row, Deleted w w' row → ∀ o ∈ row.blobs, ∃ r, (o, r) ∈ requests

theorem covers_refl (w : World) : Covers w w [] :=
  ⟨Accounted.refl _, fun _ h => absurd h.1 h.2⟩

theorem mem_rows_audio {w : World} {f : AudioFile} : .audio f ∈ w.rows ↔ f ∈ w.audioFiles := by
  simp [World.rows]

theorem mem_rows_uploaded {w : World} {f : UploadedFile} :
    .uploaded f ∈ w.rows ↔ f ∈ w.uploadedFiles := by
  simp [World.rows]

theorem Covers.trans {w w' w'' : World} {rs rs' : List (Blob × Reply)} (h : Covers w w' rs)
    (h' : Covers w' w'' rs') : Covers w w'' (rs' ++ rs) where
  accounted := h.accounted.trans h'.accounted
  asked row hrow o ho := by
    by_cases hmid : row ∈ w'.rows
    · obtain ⟨r, hr⟩ := h'.asked row ⟨hmid, hrow.2⟩ o ho
      exact ⟨r, List.mem_append_left _ hr⟩
    · obtain ⟨r, hr⟩ := h.asked row ⟨hrow.1, hmid⟩ o ho
      exact ⟨r, List.mem_append_right _ hr⟩

theorem covers_internal (env : Env) (cutoff : Nat) (w : World) :
    ∃ requests, Covers w (runInternalPurgeOnce env cutoff w) requests := by
  rw [runInternalPurgeOnce]
  split
  · obtain ⟨requests, hacc, hasked⟩ := accounted_rows env.reply AudioFile.blobs
      (w.audioFiles.filter fun f => f.createdAt < cutoff) w.storage
    refine ⟨requests, hacc, fun row hrow o ho => ?_⟩
    cases row with
    | uploaded f =>
        exact absurd (mem_rows_uploaded.mp hrow.1) fun h => hrow.2 (mem_rows_uploaded.mpr h)
    | audio f =>
        have hmem := mem_rows_audio.mp hrow.1
        have hgone := fun h => hrow.2 (mem_rows_audio.mpr h)
        refine hasked f (List.mem_filter.mpr ⟨hmem, ?_⟩) o ho
        -- A row that is not old stays, and all rows stay without the commit.
        by_contra hrecent
        dsimp only at hgone
        split at hgone
        · exact hgone (List.mem_filter.mpr ⟨hmem, by simpa using hrecent⟩)
        · exact hgone hmem
  · exact ⟨[], covers_refl w⟩

theorem blobs_externalRequests {f : UploadedFile} {o : Blob} (h : o ∈ f.blobs) :
    o ∈ externalRequests f := by
  simp only [UploadedFile.blobs, List.mem_append, List.mem_map] at h
  rcases h with ⟨key, hkey, rfl⟩ | ⟨key, hkey, rfl⟩
  · obtain rfl : key = f.storedFilename := by
      simpa using (List.mem_filter.mp hkey).1
    exact List.mem_append_right _ List.mem_cons_self
  · exact List.mem_append_left _ (List.mem_map_of_mem hkey)

theorem covers_external (env : Env) (cutoff : Nat) (w : World) :
    ∃ requests, Covers w (runExternalPurgeOnce env cutoff w) requests := by
  rw [runExternalPurgeOnce]
  split
  · obtain ⟨requests, hacc, hasked⟩ := accounted_rows env.reply externalRequests
      (w.uploadedFiles.filter fun f => f.createdAt < cutoff) w.storage
    refine ⟨requests, hacc, fun row hrow o ho => ?_⟩
    cases row with
    | audio f => exact absurd (mem_rows_audio.mp hrow.1) fun h => hrow.2 (mem_rows_audio.mpr h)
    | uploaded f =>
        have hmem := mem_rows_uploaded.mp hrow.1
        have hgone := fun h => hrow.2 (mem_rows_uploaded.mpr h)
        refine hasked f (List.mem_filter.mpr ⟨hmem, ?_⟩) o (blobs_externalRequests ho)
        by_contra hrecent
        dsimp only at hgone
        split at hgone
        · exact hgone (List.mem_filter.mpr ⟨hmem, by simpa using hrecent⟩)
        · exact hgone hmem
  · exact ⟨[], covers_refl w⟩

theorem covers_trashedFiles (env : Env) (userSub : Str) (threshold : Nat) (w : World) :
    ∃ requests, Covers w (purgeTrashedFiles env userSub threshold w) requests := by
  obtain ⟨requests, hacc, hasked⟩ := accounted_rows env.reply
    (fun f => f.blobs ++ (resolveTransferredStorage w f).toList) (trashedFiles w userSub threshold)
    w.storage
  refine ⟨requests, hacc, fun row hrow o ho => ?_⟩
  cases row with
  | audio f => exact absurd (mem_rows_audio.mp hrow.1) fun h => hrow.2 (mem_rows_audio.mpr h)
  | uploaded f =>
      have hmem := mem_rows_uploaded.mp hrow.1
      have hgone := fun h => hrow.2 (mem_rows_uploaded.mpr h)
      refine hasked f ?_ o (List.mem_append_left _ ho)
      by_contra hkept
      exact hgone (List.mem_filter.mpr ⟨hmem, by simpa using hkept⟩)

theorem covers_trashedSessions (env : Env) (userSub : Str) (threshold : Nat) (w : World) :
    ∃ requests, Covers w (purgeTrashedSessions env userSub threshold w) requests := by
  obtain ⟨requests, hacc, hasked⟩ := accounted_rows env.reply UploadedFile.blobs
    ((trashedSessions w userSub threshold).flatMap (uploads w)) w.storage
  refine ⟨requests, hacc, fun row hrow o ho => ?_⟩
  cases row with
  | audio f => exact absurd (mem_rows_audio.mp hrow.1) fun h => hrow.2 (mem_rows_audio.mpr h)
  | uploaded f =>
      have hmem := mem_rows_uploaded.mp hrow.1
      have hgone := fun h => hrow.2 (mem_rows_uploaded.mpr h)
      refine hasked f ?_ o ho
      by_contra hkept
      refine hgone (List.mem_filter.mpr ⟨hmem, ?_⟩)
      simp only [Bool.not_eq_true', List.any_eq_false, decide_eq_true_eq]
      intro s hs hid
      exact hkept (List.mem_flatMap.mpr ⟨s, hs, List.mem_filter.mpr ⟨hmem, by simpa using hid⟩⟩)

theorem covers_run (env : Env) (p : Purge) (w : World) :
    ∃ requests, Covers w (p.run env w) requests := by
  cases p with
  | internal cutoff => exact covers_internal env cutoff w
  | external cutoff => exact covers_external env cutoff w
  | trash userSub threshold =>
      obtain ⟨rs, hfiles⟩ := covers_trashedFiles env userSub threshold w
      obtain ⟨rs', hsessions⟩ := covers_trashedSessions env userSub threshold
        (purgeTrashedFiles env userSub threshold w)
      have hboth := hfiles.trans hsessions
      rw [Purge.run, purgeExpiredTrash]
      split
      · exact ⟨_, hboth⟩
      · exact ⟨_, hboth.accounted, fun _ h => absurd h.1 h.2⟩

/-- Where no request is refused, nothing outlives its row. -/
theorem noOrphan_of_accepted {env : Env} {p : Purge} {w : World} (hstart : w.storage.asked = [])
    (h : ∀ o r, (o, r) ∈ (p.run env w).storage.asked → r ≠ .refused) :
    NoOrphan w (p.run env w) := by
  obtain ⟨requests, hacc, hasked⟩ := covers_run env p w
  intro row hrow o ho
  obtain ⟨r, hr⟩ := hasked row hrow o ho
  rw [← Bool.not_eq_true, hacc.objects]
  rintro ⟨-, hall⟩
  refine h o r ?_ (hall r hr)
  rw [hacc.asked, hstart, List.append_nil]
  exact hr

/-- Which rows go does not depend on the answers of the store. -/
theorem rows_run (env : Env) (reply : Nat → Reply) (p : Purge) (w : World) :
    (p.run { env with reply := reply } w).rows = (p.run env w).rows := by
  cases p with
  | internal cutoff =>
      simp only [Purge.run, runInternalPurgeOnce]
      split <;> rfl
  | external cutoff =>
      simp only [Purge.run, runExternalPurgeOnce]
      split <;> rfl
  | trash userSub threshold =>
      simp only [Purge.run, purgeExpiredTrash]
      split <;> rfl

/-- **Purges are best effort.** Every object of a deleted row was asked for; it is still there
afterwards exactly when it was there before and every request for it was refused. Which rows are
deleted does not depend on the answers. -/
theorem purged_asked (env : Env) (p : Purge) (w : World) :
    (∃ requests, Accounted w.storage (p.run env w).storage requests ∧
      ∀ row, Deleted w (p.run env w) row → ∀ o ∈ row.blobs, (∃ r, (o, r) ∈ requests) ∧
        ((p.run env w).storage.objects o = true ↔
          w.storage.objects o = true ∧ ∀ r, (o, r) ∈ requests → r = .refused)) ∧
      ∀ reply, (p.run { env with reply := reply } w).rows = (p.run env w).rows := by
  obtain ⟨requests, hacc, hasked⟩ := covers_run env p w
  exact ⟨⟨requests, hacc, fun row hrow o ho => ⟨hasked row hrow o ho, hacc.objects o⟩⟩,
    fun reply => rows_run env reply p w⟩

/-- One old row with its object. -/
def oneOld : World where
  audioFiles := [⟨1, 0, some ['k']⟩]
  uploadedFiles := []
  sessions := []
  storage := ⟨fun o => o = (.internal, ['k']), []⟩

/-- The store refuses: the row goes, the object stays. -/
theorem refused_outlives :
    ¬ NoOrphan oneOld ((Purge.internal 10).run ⟨true, true, fun _ => .refused⟩ oneOld) := by
  intro h
  have hgone := h (.audio ⟨1, 0, some ['k']⟩) ⟨by decide, by decide⟩ (.internal, ['k']) (by decide)
  exact absurd hgone (by decide)

end MesReunions.Purges
