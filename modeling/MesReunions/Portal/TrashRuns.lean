import MesReunions.Portal.Trash

/-!
# The recordings over time

Requests of several users, purges and uploads, one after the other.

* `Db.Sound` — ids are not shared, and nothing is in the trash since later than now.
* **`file_of_step`**, **`session_of_step`** — what becomes of a row in a step.
* **`kept_of_shown`** — what the trash shows with some days left is there until the last of them.
* **`kept_of_shown_session`** — and what a session of the trash has.
* **`listed_of_uploaded`** — a local upload is listed for as long as its user leaves it.
* **`row_of_foreign_run`** — a row of the internal zone is its user's to change.
-/

namespace MesReunions.Portal.Trash

open Str Json Purges Ranking TSys

/-! ## Reading the tables -/

theorem owns_iff {db : Db} {userSub : Str} {sessionId : Nat} : db.owns userSub sessionId = true ↔
    ∃ s ∈ db.sessions, s.id = sessionId ∧ s.userSub = userSub := by
  rw [Db.owns, List.any_eq_true]
  simp only [Bool.and_eq_true, decide_eq_true_eq]

theorem ownsLive_iff {db : Db} {userSub : Str} {sessionId : Nat} :
    db.ownsLive userSub sessionId = true ↔
      ∃ s ∈ db.sessions, (s.id = sessionId ∧ s.userSub = userSub) ∧ s.trashedAt = none := by
  rw [Db.ownsLive, List.any_eq_true]
  simp only [Bool.and_eq_true, decide_eq_true_eq, Option.isNone_iff_eq_none]

theorem getOwnedFile_some {db : Db} {userSub : Str} {fileId : Nat} {f : File}
    (h : getOwnedFile db userSub fileId = some f) :
    f ∈ db.files ∧ f.id = fileId ∧ db.ownsLive userSub f.sessionId = true := by
  have hp := List.find?_some h
  simp only [Bool.and_eq_true, decide_eq_true_eq] at hp
  exact ⟨List.mem_of_find?_eq_some h, hp.1.1, hp.2⟩

theorem trashedFile_some {db : Db} {userSub : Str} {fileId : Nat} {f : File}
    (h : trashedFile db userSub fileId = some f) :
    f ∈ db.files ∧ f.id = fileId ∧ f.trashedAt ≠ none ∧ db.owns userSub f.sessionId = true := by
  have hp := List.find?_some h
  simp only [Bool.and_eq_true, decide_eq_true_eq] at hp
  exact ⟨List.mem_of_find?_eq_some h, hp.1.1, Option.isSome_iff_ne_none.mp hp.1.2, hp.2⟩

theorem sessionOf_some {db : Db} {userSub simpleCode : Str} {trashed : Bool} {s : Session}
    (h : sessionOf db userSub simpleCode trashed = some s) :
    s ∈ db.sessions ∧ s.userSub = userSub ∧ s.simpleCode = simpleCode := by
  have hp := List.find?_some h
  simp only [Bool.and_eq_true, decide_eq_true_eq] at hp
  exact ⟨List.mem_of_find?_eq_some h, hp.1.1, hp.1.2⟩

/-! ## Sound tables -/

/-- The primary keys, and the dates of the trash. -/
structure Db.Sound (db : Db) : Prop where
  fileIds : (db.files.map (·.id)).Nodup
  sessionIds : (db.sessions.map (·.id)).Nodup
  files : ∀ f ∈ db.files, ∀ t, f.trashedAt = some t → t ≤ db.now
  sessions : ∀ s ∈ db.sessions, ∀ t, s.trashedAt = some t → t ≤ db.now

theorem Db.Sound.file_eq {db : Db} (h : db.Sound) {f g : File} (hf : f ∈ db.files)
    (hg : g ∈ db.files) (hid : f.id = g.id) : f = g :=
  List.inj_on_of_nodup_map h.fileIds hf hg hid

theorem Db.Sound.session_eq {db : Db} (h : db.Sound) {s t : Session} (hs : s ∈ db.sessions)
    (ht : t ∈ db.sessions) (hid : s.id = t.id) : s = t :=
  List.inj_on_of_nodup_map h.sessionIds hs ht hid

/-- The owner of a session is one. -/
theorem Db.Sound.owner_eq {db : Db} (h : db.Sound) {s : Session} (hs : s ∈ db.sessions)
    {userSub : Str} (howns : db.owns userSub s.id = true) : userSub = s.userSub := by
  obtain ⟨s', hs', hid, huser⟩ := owns_iff.mp howns
  rw [← huser, h.session_eq hs' hs hid]

theorem owns_of_ownsLive {db : Db} {userSub : Str} {sessionId : Nat}
    (h : db.ownsLive userSub sessionId = true) : db.owns userSub sessionId = true := by
  obtain ⟨s, hs, hown, -⟩ := ownsLive_iff.mp h
  exact owns_iff.mpr ⟨s, hs, hown⟩

theorem map_ids {α : Type} (xs : List α) (id : α → Nat) (g : α → α) (h : ∀ x, id (g x) = id x) :
    (xs.map g).map id = xs.map id := by
  rw [List.map_map]
  exact List.map_congr_left fun x _ => h x

theorem fileIds_setFile (db : Db) (fileId : Nat) (t : Option Nat) :
    (db.setFile fileId t).files.map (·.id) = db.files.map (·.id) :=
  map_ids db.files (·.id) _ fun f => by split <;> rfl

theorem sessionIds_setSessions (db : Db) (p : Session → Bool) (t : Option Nat) :
    (db.setSessions p t).sessions.map (·.id) = db.sessions.map (·.id) :=
  map_ids db.sessions (·.id) _ fun s => by split <;> rfl

theorem sessionIds_insertFile (db : Db) (f : File) :
    (db.insertFile f).sessions.map (·.id) = db.sessions.map (·.id) :=
  map_ids db.sessions (·.id) _ fun s => by split <;> rfl

theorem fileIds_setTranscoded (db : Db) (fileId : Nat) (key : Str) :
    (db.setTranscoded fileId key).files.map (·.id) = db.files.map (·.id) :=
  map_ids db.files (·.id) _ fun f => by split <;> rfl

/-- Fewer rows are as sound. -/
theorem Db.Sound.filter {db : Db} (h : db.Sound) (p : Session → Bool) (q : File → Bool)
    {db' : Db} (hs : db'.sessions = db.sessions.filter p) (hf : db'.files = db.files.filter q)
    (hnow : db'.now = db.now) : db'.Sound where
  fileIds := by
    rw [hf]
    exact h.fileIds.sublist (List.filter_sublist.map _)
  sessionIds := by
    rw [hs]
    exact h.sessionIds.sublist (List.filter_sublist.map _)
  files f hmem := by
    rw [hf] at hmem
    rw [hnow]
    exact h.files f (List.mem_filter.mp hmem).1
  sessions s hmem := by
    rw [hs] at hmem
    rw [hnow]
    exact h.sessions s (List.mem_filter.mp hmem).1

theorem sound_purgeTrash {db : Db} (h : db.Sound) (cfg : Config) (m : Meets) (userSub : Str) :
    (purgeTrash cfg db m userSub).Sound :=
  h.filter _ _ (sessions_purgeTrash ..) (files_purgeTrash ..) rfl

theorem Db.Sound.setFile {db : Db} (h : db.Sound) (fileId : Nat) {t : Option Nat}
    (ht : ∀ x, t = some x → x ≤ db.now) : (db.setFile fileId t).Sound where
  fileIds := by
    rw [fileIds_setFile]
    exact h.fileIds
  sessionIds := h.sessionIds
  files := by
    intro f' hf'
    obtain ⟨f, hf, rfl⟩ := List.mem_map.mp hf'
    split
    · exact ht
    · exact h.files f hf
  sessions := h.sessions

theorem Db.Sound.setSessions {db : Db} (h : db.Sound) (p : Session → Bool) {t : Option Nat}
    (ht : ∀ x, t = some x → x ≤ db.now) : (db.setSessions p t).Sound where
  fileIds := h.fileIds
  sessionIds := by
    rw [sessionIds_setSessions]
    exact h.sessionIds
  files := h.files
  sessions := by
    intro s' hs'
    obtain ⟨s, hs, rfl⟩ := List.mem_map.mp hs'
    split
    · exact ht
    · exact h.sessions s hs

theorem Db.Sound.insertFile {db : Db} (h : db.Sound) {f : File}
    (hnew : ∀ g ∈ db.files, g.id ≠ f.id) (hlive : f.trashedAt = none) :
    (db.insertFile f).Sound where
  fileIds := by
    show ((db.files ++ [f]).map (·.id)).Nodup
    rw [List.map_append, List.nodup_append]
    refine ⟨h.fileIds, List.nodup_singleton _, ?_⟩
    intro i hi j hj
    rw [List.map_singleton, List.mem_singleton] at hj
    obtain ⟨g, hg, rfl⟩ := List.mem_map.mp hi
    rw [hj]
    exact hnew g hg
  sessionIds := by
    rw [sessionIds_insertFile]
    exact h.sessionIds
  files := by
    intro g hg t ht
    rcases List.mem_append.mp hg with hg | hg
    · exact h.files g hg t ht
    · rw [List.mem_singleton.mp hg, hlive] at ht
      cases ht
  sessions := by
    intro s' hs'
    obtain ⟨s, hs, rfl⟩ := List.mem_map.mp hs'
    split <;> exact h.sessions s hs

theorem Db.Sound.insertSession {db : Db} (h : db.Sound) {s : Session}
    (hnew : ∀ s' ∈ db.sessions, s'.id ≠ s.id) (hlive : s.trashedAt = none) :
    Db.Sound { db with sessions := db.sessions ++ [s] } where
  fileIds := h.fileIds
  sessionIds := by
    show ((db.sessions ++ [s]).map (·.id)).Nodup
    rw [List.map_append, List.nodup_append]
    refine ⟨h.sessionIds, List.nodup_singleton _, ?_⟩
    intro i hi j hj
    rw [List.map_singleton, List.mem_singleton] at hj
    obtain ⟨s', hs', rfl⟩ := List.mem_map.mp hi
    rw [hj]
    exact hnew s' hs'
  files := h.files
  sessions := by
    intro s' hs' t ht
    rcases List.mem_append.mp hs' with hs' | hs'
    · exact h.sessions s' hs' t ht
    · rw [List.mem_singleton.mp hs', hlive] at ht
      cases ht

theorem Db.Sound.setTranscoded {db : Db} (h : db.Sound) (fileId : Nat) (key : Str) :
    (db.setTranscoded fileId key).Sound where
  fileIds := by
    rw [fileIds_setTranscoded]
    exact h.fileIds
  sessionIds := h.sessionIds
  files := by
    intro f' hf'
    obtain ⟨f, hf, rfl⟩ := List.mem_map.mp hf'
    split <;> exact h.files f hf
  sessions := h.sessions

/-- The same tables and the same clock are as sound. -/
theorem Db.Sound.congr {db db' : Db} (h : db.Sound) (hs : db'.sessions = db.sessions)
    (hf : db'.files = db.files) (hnow : db'.now = db.now) : db'.Sound :=
  h.filter (fun _ => true) (fun _ => true) (hs.trans (List.filter_true _).symm)
    (hf.trans (List.filter_true _).symm) hnow

theorem sound_upload {cfg : Config} {db : Db} (h : db.Sound) {m : Meets}
    {userSub filename : Str}
    (hp : Possible cfg db (.request userSub (.myUpload none filename) m)) :
    (db.upload cfg m userSub filename).Sound := by
  obtain ⟨hsession, hfile⟩ := hp
  have hbase : (getOrCreateLocalUploadSession db m userSub).1.Sound ∧
      (getOrCreateLocalUploadSession db m userSub).1.files = db.files := by
    rw [getOrCreateLocalUploadSession]
    cases hlocal : localSession db userSub with
    | some s => exact ⟨h, rfl⟩
    | none => exact ⟨h.insertSession (fun s hs => (hsession hlocal s hs).1) rfl, rfl⟩
  have hinsert := hbase.1.insertFile (f := newFile db m.fileId
    (getOrCreateLocalUploadSession db m userSub).2 filename
    (buildStoredFilename cfg m (getOrCreateLocalUploadSession db m userSub).2.simpleCode filename))
    (fun g hg => (hfile g (hbase.2 ▸ hg)).1) rfl
  exact hinsert.congr rfl rfl rfl

theorem sound_does {cfg : Config} {db db' : Db} (h : db.Sound) {m : Meets} {userSub : Str}
    {r : Request} (hp : Possible cfg db (.request userSub r m))
    (hdoes : Does cfg db m userSub r db') : db'.Sound := by
  have hnow : ∀ x, some db.now = some x → x ≤ db.now := fun x hx => (Option.some.inj hx).symm.le
  have hnone : ∀ x, (none : Option Nat) = some x → x ≤ db.now := fun x hx => by cases hx
  cases hdoes with
  | nothing => exact h
  | trash => exact h.setFile _ hnow
  | restore => exact h.setFile _ hnone
  | ask => exact h.congr rfl rfl rfl
  | drop => exact h.filter (fun _ => true) _ (List.filter_true _).symm rfl rfl
  | trashSession => exact h.setSessions _ hnow
  | restoreSession => exact h.setSessions _ hnone
  | trashSessions => exact h.setSessions _ hnow
  | amend => exact h.congr rfl rfl rfl
  | purge => exact sound_purgeTrash h cfg m userSub
  | store => exact h.congr rfl rfl rfl
  | upload => exact sound_upload h hp

theorem sound_of_step {cfg : Config} {db db' : Db} {a : Act} (hstep : next cfg db a = some db')
    (h : db.Sound) : db'.Sound := by
  rw [next, step] at hstep
  split at hstep
  · rename_i hp
    cases hstep
    cases a with
    | wait seconds =>
        have hlater : db.now ≤ db.now + seconds := Nat.le_add_right ..
        exact ⟨h.fileIds, h.sessionIds, fun f hf t ht => (h.files f hf t ht).trans hlater,
          fun s hs t ht => (h.sessions s hs t ht).trans hlater⟩
    | request userSub r m => exact sound_does h hp (does_answer cfg db m userSub r)
    | purgeTrash userSub m => exact sound_purgeTrash h cfg m userSub
    | externalPurge env cutoff =>
        exact h.filter (fun _ => true) _ ((sessions_externalPurge ..).trans
          (List.filter_true _).symm) (files_externalPurge ..) rfl
    | internalPurge env cutoff => exact h.filter _ _ rfl rfl rfl
    | generateCode userSub simpleCode id maxUploads =>
        exact h.insertSession (fun s hs => (hp s hs).1) rfl
    | received userSub sessionId fileId originalFilename storedFilename =>
        exact (h.insertFile (fun g hg => (hp.2 g hg).1) rfl).congr rfl rfl rfl
    | transcoded userSub fileId key => exact (h.setTranscoded fileId key).congr rfl rfl rfl
    | pulled a => exact h.congr rfl rfl rfl
    | cleanup c arrives =>
        cases arrives with
        | false => exact h.congr rfl rfl rfl
        | true =>
            have hsame : (deleteFileBySession db c).sessions = db.sessions ∧
                (deleteFileBySession db c).files = db.files ∧
                (deleteFileBySession db c).now = db.now := by
              rw [deleteFileBySession]
              split <;> exact ⟨rfl, rfl, rfl⟩
            exact h.congr hsame.1 hsame.2.1 hsame.2.2
  · cases hstep

/-! ## What becomes of a file -/

/-- The same file, wherever its audio and itself have been put. -/
structure SameFile (f f' : File) : Prop where
  id : f'.id = f.id
  sessionId : f'.sessionId = f.sessionId
  originalFilename : f'.originalFilename = f.originalFilename
  storedFilename : f'.storedFilename = f.storedFilename
  createdAt : f'.createdAt = f.createdAt

theorem SameFile.refl (f : File) : SameFile f f := ⟨rfl, rfl, rfl, rfl, rfl⟩

theorem SameFile.trans {f g h : File} (hfg : SameFile f g) (hgh : SameFile g h) : SameFile f h :=
  ⟨hgh.id.trans hfg.id, hgh.sessionId.trans hfg.sessionId,
    hgh.originalFilename.trans hfg.originalFilename, hgh.storedFilename.trans hfg.storedFilename,
    hgh.createdAt.trans hfg.createdAt⟩

/-- What can become of a file in a step. -/
inductive FileFate (cfg : Config) (db : Db) (a : Act) (f : File) (db' : Db) : Prop where
  | kept (f' : File) (hf' : f' ∈ db'.files) (hsame : SameFile f f')
      (ht : f'.trashedAt = f.trashedAt)
  | trashed (userSub : Str) (m : Meets) (ha : a = .request userSub (.deleteFile f.id) m)
      (howns : db.owns userSub f.sessionId = true) (f' : File) (hf' : f' ∈ db'.files)
      (hsame : SameFile f f') (ht : f'.trashedAt = some db.now)
  | restored (f' : File) (hf' : f' ∈ db'.files) (hsame : SameFile f f') (ht : f'.trashedAt = none)
  | dropped (userSub : Str) (m : Meets)
      (ha : a = .request userSub (.deleteFilePermanently f.id) m)
      (howns : db.owns userSub f.sessionId = true) (ht : f.trashedAt ≠ none)
  | purged (userSub : Str) (hgoes : goesFile cfg db userSub f = true)
  | old (env : Env) (cutoff : Nat) (ha : a = .externalPurge env cutoff)
      (hold : f.createdAt < cutoff)

theorem FileFate.ofFiles {cfg : Config} {db db' : Db} {a : Act} {f : File} (hf : f ∈ db.files)
    (h : db'.files = db.files) : FileFate cfg db a f db' :=
  .kept f (h ▸ hf) (.refl f) rfl

theorem files_upload {cfg : Config} {db : Db} {m : Meets} {userSub filename : Str} {f : File}
    (hf : f ∈ db.files) : f ∈ (db.upload cfg m userSub filename).files := by
  have hbase : (getOrCreateLocalUploadSession db m userSub).1.files = db.files := by
    rw [getOrCreateLocalUploadSession]
    cases localSession db userSub with
    | some s => rfl
    | none => rfl
  show f ∈ (getOrCreateLocalUploadSession db m userSub).1.files ++ [_]
  rw [hbase]
  exact List.mem_append_left _ hf

theorem file_of_purge {cfg : Config} {db : Db} {a : Act} {f : File} (hf : f ∈ db.files)
    (m : Meets) (userSub : Str) : FileFate cfg db a f (purgeTrash cfg db m userSub) := by
  cases hgoes : m.commits && goesFile cfg db userSub f with
  | false =>
      refine .kept f ?_ (.refl f) rfl
      rw [files_purgeTrash]
      exact List.mem_filter.mpr ⟨hf, by rw [hgoes]; rfl⟩
  | true => exact .purged userSub (Bool.and_eq_true_iff.mp hgoes).2

theorem file_of_does {cfg : Config} {db db' : Db} (h : db.Sound) {m : Meets} {userSub : Str}
    {r : Request} (hdoes : Does cfg db m userSub r db') {f : File} (hf : f ∈ db.files) :
    FileFate cfg db (.request userSub r m) f db' := by
  cases hdoes with
  | nothing => exact .ofFiles hf rfl
  | @trash fileId f0 h0 =>
      obtain ⟨hf0, hid0, howns⟩ := getOwnedFile_some h0
      by_cases hid : f.id = fileId
      · have heq : f = f0 := h.file_eq hf hf0 (hid.trans hid0.symm)
        subst hid
        rw [← heq] at howns
        exact .trashed userSub m rfl (owns_of_ownsLive howns) _
          (List.mem_map.mpr ⟨f, hf, if_pos rfl⟩) ⟨rfl, rfl, rfl, rfl, rfl⟩ rfl
      · exact .kept f (List.mem_map.mpr ⟨f, hf, if_neg hid⟩) (.refl f) rfl
  | @restore fileId f0 h0 =>
      by_cases hid : f.id = fileId
      · exact .restored _ (List.mem_map.mpr ⟨f, hf, if_pos hid⟩) ⟨rfl, rfl, rfl, rfl, rfl⟩ rfl
      · exact .kept f (List.mem_map.mpr ⟨f, hf, if_neg hid⟩) (.refl f) rfl
  | ask => exact .ofFiles hf rfl
  | @drop fileId f0 h0 =>
      obtain ⟨hf0, hid0, htrashed, howns⟩ := trashedFile_some h0
      by_cases hid : f.id = f0.id
      · have heq : f = f0 := h.file_eq hf hf0 hid
        subst heq
        subst hid0
        exact .dropped userSub m rfl howns htrashed
      · exact .kept f (List.mem_filter.mpr ⟨hf, decide_eq_true hid⟩) (.refl f) rfl
  | trashSession => exact .ofFiles hf rfl
  | restoreSession => exact .ofFiles hf rfl
  | trashSessions => exact .ofFiles hf rfl
  | amend => exact .ofFiles hf rfl
  | purge => exact file_of_purge hf m userSub
  | store => exact .ofFiles hf rfl
  | upload => exact .kept f (files_upload hf) (.refl f) rfl

/-- **A file in a step.** -/
theorem file_of_step {cfg : Config} {db db' : Db} {a : Act} (h : db.Sound)
    (hstep : next cfg db a = some db') {f : File} (hf : f ∈ db.files) :
    FileFate cfg db a f db' := by
  rw [next, step] at hstep
  split at hstep
  · cases hstep
    cases a with
    | wait seconds => exact .ofFiles hf rfl
    | request userSub r m => exact file_of_does h (does_answer cfg db m userSub r) hf
    | purgeTrash userSub m => exact file_of_purge hf m userSub
    | externalPurge env cutoff =>
        cases hold : env.lockAcquired && env.commits && f.createdAt < cutoff with
        | false =>
            refine .kept f ?_ (.refl f) rfl
            show f ∈ (db.keep (runExternalPurgeOnce env cutoff db.world)).files
            rw [files_externalPurge]
            exact List.mem_filter.mpr ⟨hf, by rw [hold]; rfl⟩
        | true =>
            exact .old env cutoff rfl (of_decide_eq_true (Bool.and_eq_true_iff.mp hold).2)
    | internalPurge env cutoff =>
        refine .kept f ?_ (.refl f) rfl
        refine List.mem_filter.mpr ⟨hf, decide_eq_true ?_⟩
        rw [runInternalPurgeOnce]
        split <;> exact List.mem_map_of_mem hf
    | generateCode userSub simpleCode id maxUploads => exact .ofFiles hf rfl
    | received userSub sessionId fileId originalFilename storedFilename =>
        exact .kept f (List.mem_append_left _ hf) (.refl f) rfl
    | transcoded userSub fileId key =>
        by_cases hid : f.id = fileId
        · exact .kept _ (List.mem_map.mpr ⟨f, hf, if_pos hid⟩) ⟨rfl, rfl, rfl, rfl, rfl⟩ rfl
        · exact .kept f (List.mem_map.mpr ⟨f, hf, if_neg hid⟩) (.refl f) rfl
    | pulled a => exact .ofFiles hf rfl
    | cleanup c arrives =>
        cases arrives with
        | false => exact .ofFiles hf rfl
        | true =>
            refine .ofFiles hf ?_
            show (deleteFileBySession db c).files = db.files
            rw [deleteFileBySession]
            split <;> rfl
  · cases hstep

/-! ## What becomes of a session -/

/-- The same session. -/
structure SameSession (s s' : Session) : Prop where
  id : s'.id = s.id
  userSub : s'.userSub = s.userSub
  simpleCode : s'.simpleCode = s.simpleCode

theorem SameSession.refl (s : Session) : SameSession s s := ⟨rfl, rfl, rfl⟩

theorem SameSession.trans {s t u : Session} (hst : SameSession s t) (htu : SameSession t u) :
    SameSession s u :=
  ⟨htu.id.trans hst.id, htu.userSub.trans hst.userSub, htu.simpleCode.trans hst.simpleCode⟩

/-- What can become of a session in a step. -/
inductive SessionFate (cfg : Config) (db : Db) (a : Act) (s : Session) (db' : Db) : Prop where
  | kept (s' : Session) (hs' : s' ∈ db'.sessions) (hsame : SameSession s s')
      (ht : s'.trashedAt = s.trashedAt)
  | trashed (r : Request) (m : Meets) (ha : a = .request s.userSub r m)
      (hr : r = .deleteSession s.simpleCode ∨ r = .purgeMySessions) (s' : Session)
      (hs' : s' ∈ db'.sessions) (hsame : SameSession s s') (ht : s'.trashedAt = some db.now)
  | restored (s' : Session) (hs' : s' ∈ db'.sessions) (hsame : SameSession s s')
      (ht : s'.trashedAt = none)
  | purged (userSub : Str) (hgoes : goesSession cfg db userSub s = true)

theorem SessionFate.ofSessions {cfg : Config} {db db' : Db} {a : Act} {s : Session}
    (hs : s ∈ db.sessions) (h : db'.sessions = db.sessions) : SessionFate cfg db a s db' :=
  .kept s (h ▸ hs) (.refl s) rfl

theorem session_of_purge {cfg : Config} {db : Db} {a : Act} {s : Session} (hs : s ∈ db.sessions)
    (m : Meets) (userSub : Str) : SessionFate cfg db a s (purgeTrash cfg db m userSub) := by
  cases hgoes : m.commits && goesSession cfg db userSub s with
  | false =>
      refine .kept s ?_ (.refl s) rfl
      rw [sessions_purgeTrash]
      exact List.mem_filter.mpr ⟨hs, by rw [hgoes]; rfl⟩
  | true => exact .purged userSub (Bool.and_eq_true_iff.mp hgoes).2

theorem session_of_upload {cfg : Config} {db : Db} {a : Act} {m : Meets} {userSub filename : Str}
    {s : Session} (hs : s ∈ db.sessions) :
    SessionFate cfg db a s (db.upload cfg m userSub filename) := by
  have hbase : s ∈ (getOrCreateLocalUploadSession db m userSub).1.sessions := by
    rw [getOrCreateLocalUploadSession]
    cases localSession db userSub with
    | some s => exact hs
    | none => exact List.mem_append_left _ hs
  by_cases hid : s.id = (getOrCreateLocalUploadSession db m userSub).2.id
  · exact .kept _ (List.mem_map.mpr ⟨s, hbase, if_pos hid⟩) ⟨rfl, rfl, rfl⟩ rfl
  · exact .kept s (List.mem_map.mpr ⟨s, hbase, if_neg hid⟩) (.refl s) rfl

theorem session_of_does {cfg : Config} {db db' : Db} (h : db.Sound) {m : Meets} {userSub : Str}
    {r : Request} (hdoes : Does cfg db m userSub r db') {s : Session} (hs : s ∈ db.sessions) :
    SessionFate cfg db (.request userSub r m) s db' := by
  cases hdoes with
  | nothing => exact .ofSessions hs rfl
  | trash => exact .ofSessions hs rfl
  | restore => exact .ofSessions hs rfl
  | ask => exact .ofSessions hs rfl
  | drop => exact .ofSessions hs rfl
  | @trashSession simpleCode s0 h0 =>
      obtain ⟨hs0, huser, hcode⟩ := sessionOf_some h0
      by_cases hid : s.id = s0.id
      · have heq : s = s0 := h.session_eq hs hs0 hid
        subst heq
        subst huser
        subst hcode
        exact .trashed _ m rfl (Or.inl rfl) _
          (List.mem_map.mpr ⟨s, hs, if_pos (decide_eq_true rfl)⟩) ⟨rfl, rfl, rfl⟩ rfl
      · exact .kept s (List.mem_map.mpr ⟨s, hs, if_neg fun heq => hid (of_decide_eq_true heq)⟩)
          (.refl s) rfl
  | @restoreSession simpleCode s0 h0 =>
      by_cases hid : s.id = s0.id
      · exact .restored _ (List.mem_map.mpr ⟨s, hs, if_pos (decide_eq_true hid)⟩)
          ⟨rfl, rfl, rfl⟩ rfl
      · exact .kept s (List.mem_map.mpr ⟨s, hs, if_neg fun heq => hid (of_decide_eq_true heq)⟩)
          (.refl s) rfl
  | trashSessions =>
      by_cases hmine : (decide (s.userSub = userSub) && s.trashedAt.isNone) = true
      · have huser : s.userSub = userSub :=
          of_decide_eq_true (Bool.and_eq_true_iff.mp hmine).1
        subst huser
        exact .trashed _ m rfl (Or.inr rfl) _ (List.mem_map.mpr ⟨s, hs, if_pos hmine⟩)
          ⟨rfl, rfl, rfl⟩ rfl
      · exact .kept s (List.mem_map.mpr ⟨s, hs, if_neg hmine⟩) (.refl s) rfl
  | amend => exact .ofSessions hs rfl
  | purge => exact session_of_purge hs m userSub
  | store => exact .ofSessions hs rfl
  | upload => exact session_of_upload hs

/-- **A session in a step.** -/
theorem session_of_step {cfg : Config} {db db' : Db} {a : Act} (h : db.Sound)
    (hstep : next cfg db a = some db') {s : Session} (hs : s ∈ db.sessions) :
    SessionFate cfg db a s db' := by
  rw [next, step] at hstep
  split at hstep
  · cases hstep
    cases a with
    | wait seconds => exact .ofSessions hs rfl
    | request userSub r m => exact session_of_does h (does_answer cfg db m userSub r) hs
    | purgeTrash userSub m => exact session_of_purge hs m userSub
    | externalPurge env cutoff => exact .ofSessions hs (sessions_externalPurge ..)
    | internalPurge env cutoff =>
        refine .kept s ?_ (.refl s) rfl
        refine List.mem_filter.mpr ⟨hs, decide_eq_true ?_⟩
        rw [runInternalPurgeOnce]
        split <;> exact List.mem_map_of_mem hs
    | generateCode userSub simpleCode id maxUploads =>
        exact .kept s (List.mem_append_left _ hs) (.refl s) rfl
    | received userSub sessionId fileId originalFilename storedFilename =>
        by_cases hid : s.id = sessionId
        · exact .kept _ (List.mem_map.mpr ⟨s, hs, if_pos hid⟩) ⟨rfl, rfl, rfl⟩ rfl
        · exact .kept s (List.mem_map.mpr ⟨s, hs, if_neg hid⟩) (.refl s) rfl
    | transcoded userSub fileId key => exact .ofSessions hs rfl
    | pulled a => exact .ofSessions hs rfl
    | cleanup c arrives =>
        cases arrives with
        | false => exact .ofSessions hs rfl
        | true =>
            refine .ofSessions hs ?_
            show (deleteFileBySession db c).sessions = db.sessions
            rw [deleteFileBySession]
            split <;> rfl
  · cases hstep

/-! ## The time a file has -/

theorem now_upload {cfg : Config} {db : Db} {m : Meets} {userSub filename : Str} :
    (db.upload cfg m userSub filename).now = db.now := by
  show (getOrCreateLocalUploadSession db m userSub).1.now = db.now
  rw [getOrCreateLocalUploadSession]
  cases localSession db userSub with
  | some s => rfl
  | none => rfl

theorem now_of_does {cfg : Config} {db db' : Db} {m : Meets} {userSub : Str} {r : Request}
    (hdoes : Does cfg db m userSub r db') : db'.now = db.now := by
  cases hdoes with
  | upload => exact now_upload
  | _ => rfl

theorem now_of_step {cfg : Config} {db db' : Db} {a : Act} (hstep : next cfg db a = some db') :
    db.now ≤ db'.now := by
  rw [next, step] at hstep
  split at hstep
  · cases hstep
    cases a with
    | wait seconds => exact Nat.le_add_right ..
    | request userSub r m => exact (now_of_does (does_answer cfg db m userSub r)).ge
    | cleanup c arrives =>
        cases arrives with
        | false => exact le_rfl
        | true =>
            show db.now ≤ (deleteFileBySession db c).now
            rw [deleteFileBySession]
            split <;> exact le_rfl
    | _ => exact le_rfl
  · cases hstep

theorem now_of_run {cfg : Config} {db db' : Db} {as : List Act}
    (hrun : run (next cfg) db as = some db') : db.now ≤ db'.now := by
  have hguarded : Guarded (next cfg) (fun _ _ => True) db as :=
    guarded_of_forall (next cfg) fun _ _ => trivial
  exact inv_of_guarded (next cfg) (fun d => db.now ≤ d.now)
    (fun _ _ _ hinv _ hs => hinv.trans (now_of_step hs)) le_rfl hguarded hrun

/-- What is in the trash since `trashedAt` stays there until `t`. -/
def Lasts (cfg : Config) (t : Nat) (trashedAt : Option Nat) : Prop :=
  ∀ x, trashedAt = some x → t ≤ x + cfg.trashRetentionDays * day

theorem lasts_none {cfg : Config} {t : Nat} {trashedAt : Option Nat} (h : trashedAt = none) :
    Lasts cfg t trashedAt := by
  intro x hx
  rw [h] at hx
  cases hx

theorem lasts_some {cfg : Config} {t x : Nat} {trashedAt : Option Nat} (h : trashedAt = some x)
    (ht : t ≤ x + cfg.trashRetentionDays * day) : Lasts cfg t trashedAt := by
  intro x' hx'
  rw [h] at hx'
  cases hx'
  exact ht

theorem Lasts.not_expired {cfg : Config} {t : Nat} {trashedAt : Option Nat}
    (h : Lasts cfg t trashedAt) {db : Db} (hnow : db.now ≤ t) :
    expired (threshold cfg db) trashedAt = false := by
  cases trashedAt with
  | none => rfl
  | some x =>
      have hx : t ≤ x + cfg.trashRetentionDays * day := h x rfl
      refine decide_eq_false ?_
      rw [threshold]
      omega

theorem Lasts.not_goesSession {cfg : Config} {t : Nat} {s : Session} (h : Lasts cfg t s.trashedAt)
    {db : Db} (hnow : db.now ≤ t) (userSub : Str) : goesSession cfg db userSub s = false := by
  rw [goesSession, h.not_expired hnow, Bool.and_false]

/-- A file stays when it and its session do. -/
theorem not_goesFile {cfg : Config} {db : Db} (h : db.Sound) {t : Nat} {s : Session} {f : File}
    (hs : s ∈ db.sessions) (hfs : f.sessionId = s.id) (hsession : Lasts cfg t s.trashedAt)
    (hfile : Lasts cfg t f.trashedAt) (hnow : db.now ≤ t) (userSub : Str) :
    goesFile cfg db userSub f = false := by
  rw [goesFile, hfile.not_expired hnow, Bool.false_and, Bool.false_or, List.any_eq_false]
  intro s' hs' hgoes
  obtain ⟨hgoes, hid⟩ := Bool.and_eq_true_iff.mp hgoes
  have heq : s' = s := h.session_eq hs' hs ((of_decide_eq_true hid).trans hfs)
  rw [heq, hsession.not_goesSession hnow] at hgoes
  cases hgoes

/-! ## What the trash promises -/

/-- The action does not take the file for good: its user does not ask for it, and it is not old. -/
def SparesFile (userSub : Str) (f : File) : Act → Prop
  | .request userSub' (.deleteFilePermanently fileId) _ => userSub' = userSub → fileId ≠ f.id
  | .externalPurge _ cutoff => cutoff ≤ f.createdAt
  | _ => True

/-- The file and its session are there, and until `t` no purge of the trash takes them. -/
structure Db.Keeps (db : Db) (cfg : Config) (t : Nat) (s : Session) (f : File) : Prop where
  sound : db.Sound
  retention : t ≤ db.now + cfg.trashRetentionDays * day
  session : ∃ s' ∈ db.sessions, SameSession s s' ∧ Lasts cfg t s'.trashedAt
  file : ∃ f' ∈ db.files, SameFile f f' ∧ Lasts cfg t f'.trashedAt

theorem keeps_of_step {cfg : Config} {t : Nat} {s : Session} {f : File}
    (hfs : f.sessionId = s.id) {db db' : Db} {a : Act} (h : db.Keeps cfg t s f)
    (hspares : SparesFile s.userSub f a) (hnow : db.now ≤ t)
    (hstep : next cfg db a = some db') : db'.Keeps cfg t s f := by
  obtain ⟨s', hs', hsame, hsession⟩ := h.session
  obtain ⟨f', hf', hfsame, hfile⟩ := h.file
  have hids : f'.sessionId = s'.id := hfsame.sessionId.trans (hfs.trans hsame.id.symm)
  refine ⟨sound_of_step hstep h.sound,
    h.retention.trans (Nat.add_le_add_right (now_of_step hstep) _), ?_, ?_⟩
  · cases session_of_step h.sound hstep hs' with
    | kept s'' hs'' hss ht => exact ⟨s'', hs'', hsame.trans hss, ht ▸ hsession⟩
    | trashed r m ha hr s'' hs'' hss ht =>
        exact ⟨s'', hs'', hsame.trans hss, lasts_some ht h.retention⟩
    | restored s'' hs'' hss ht => exact ⟨s'', hs'', hsame.trans hss, lasts_none ht⟩
    | purged userSub hgoes =>
        rw [hsession.not_goesSession hnow] at hgoes
        cases hgoes
  · cases file_of_step h.sound hstep hf' with
    | kept f'' hf'' hff ht => exact ⟨f'', hf'', hfsame.trans hff, ht ▸ hfile⟩
    | trashed userSub m ha howns f'' hf'' hff ht =>
        exact ⟨f'', hf'', hfsame.trans hff, lasts_some ht h.retention⟩
    | restored f'' hf'' hff ht => exact ⟨f'', hf'', hfsame.trans hff, lasts_none ht⟩
    | dropped userSub m ha howns ht =>
        subst ha
        rw [hids] at howns
        have huser : userSub = s.userSub := (h.sound.owner_eq hs' howns).trans hsame.userSub
        exact absurd hfsame.id (hspares huser)
    | purged userSub hgoes =>
        rw [not_goesFile h.sound hs' hids hsession hfile hnow] at hgoes
        cases hgoes
    | old env cutoff ha hold =>
        subst ha
        rw [hfsame.createdAt] at hold
        exact absurd hold (Nat.not_lt.mpr hspares)

theorem keeps_of_run {cfg : Config} {t : Nat} {s : Session} {f : File}
    (hfs : f.sessionId = s.id) : ∀ {as : List Act} {db db' : Db}, db.Keeps cfg t s f →
      (∀ a ∈ as, SparesFile s.userSub f a) → run (next cfg) db as = some db' → db'.now ≤ t →
        db'.Keeps cfg t s f
  | [], db, db', h, _, hrun, _ => by
      injection hrun with hrun
      exact hrun ▸ h
  | a :: as, db, db', h, hspares, hrun, hnow => by
      cases hstep : next cfg db a with
      | none => simp [run, hstep] at hrun
      | some db1 =>
          simp only [run, hstep] at hrun
          have hnow1 : db.now ≤ t :=
            (now_of_step hstep).trans ((now_of_run hrun).trans hnow)
          have h1 : db1.Keeps cfg t s f :=
            keeps_of_step hfs h (hspares a List.mem_cons_self) hnow1 hstep
          exact keeps_of_run hfs h1 (fun b hb => hspares b (List.mem_cons_of_mem a hb)) hrun hnow

theorem Db.Keeps.found {cfg : Config} {t : Nat} {s : Session} {f : File} {db : Db}
    (h : db.Keeps cfg t s f) (hfs : f.sessionId = s.id) :
    ∃ g ∈ db.files, SameFile f g ∧ db.owns s.userSub g.sessionId = true := by
  obtain ⟨s', hs', hsame, -⟩ := h.session
  obtain ⟨g, hg, hgsame, -⟩ := h.file
  refine ⟨g, hg, hgsame, owns_iff.mpr ⟨s', hs', ?_, hsame.userSub⟩⟩
  rw [hsame.id, hgsame.sessionId, hfs]

/-- The last of the days that are left is not a whole one. -/
theorem le_of_daysLeft {cfg : Config} {now x t : Nat} (hnow : now ≤ t)
    (ht : t + day ≤ now + daysLeft cfg now x * day) : t ≤ x + cfg.trashRetentionDays * day := by
  rw [daysLeft, day] at *
  omega

/-- **What the trash shows with some days left is there until the last of them**, whatever the
users and the purges do, as long as its user does not delete it for good. -/
theorem kept_of_shown {cfg : Config} {db db1 db' : Db} (h : db.Sound) {m : Meets} {userSub : Str}
    {files : List TrashedFile} {sessions : List TrashedSession}
    (hshown : apiMyTrash cfg db m userSub = (db1, .trash files sessions)) {f : File}
    (hf : f ∈ db1.files) {shown : TrashedFile} (hmem : shown ∈ files) (hid : shown.id = f.id)
    {n : Nat} (hleft : shown.daysLeft = some n) {as : List Act}
    (hspares : ∀ a ∈ as, SparesFile userSub f a) (hrun : run (next cfg) db1 as = some db')
    (htime : db'.now + day ≤ db1.now + n * day) :
    ∃ g ∈ db'.files, SameFile f g ∧ db'.owns userSub g.sessionId = true := by
  obtain ⟨rfl, hreply⟩ := Prod.mk.inj hshown
  obtain ⟨rfl, -⟩ := Reply.trash.inj hreply
  have h1 : (purgeTrash cfg db m userSub).Sound := sound_purgeTrash h cfg m userSub
  obtain ⟨g, hg, rfl⟩ := List.mem_map.mp hmem
  obtain ⟨hg, hlive⟩ := List.mem_filter.mp ((mem_ranked _).mp hg)
  have heq : g = f := h1.file_eq hg hf hid
  subst heq
  obtain ⟨s, hs, ⟨hfs, rfl⟩, hnone⟩ := ownsLive_iff.mp (Bool.and_eq_true_iff.mp hlive).2
  obtain ⟨x, hx, rfl⟩ := Option.map_eq_some_iff.mp hleft
  have hold : x ≤ (purgeTrash cfg db m s.userSub).now := h1.files g hf x hx
  have hlasts : db'.now ≤ x + cfg.trashRetentionDays * day :=
    le_of_daysLeft (now_of_run hrun) htime
  have hkeeps : (purgeTrash cfg db m s.userSub).Keeps cfg db'.now s g :=
    ⟨h1, hlasts.trans (Nat.add_le_add_right hold _), ⟨s, hs, .refl s, lasts_none hnone⟩,
      ⟨g, hf, .refl g, lasts_some hx hlasts⟩⟩
  exact (keeps_of_run hfs.symm hkeeps hspares hrun le_rfl).found hfs.symm

/-- A week of trash, and fifty sessions. -/
def week : Config := ⟨7, 50, id, fun _ => none⟩

/-- Everything answers. -/
def calm : Meets := ⟨true, true, true, fun _ => .deleted, 1, ['k'], 1, ['0']⟩

def ada : Str := ['a']

/-- In the trash since the second day. -/
def shelved : File := ⟨⟨0, 0, ['o'], none, 0, some (2 * day)⟩, ['n']⟩

/-- On the third day. -/
def shelf : Db where
  now := 3 * day
  sessions := [⟨⟨0, ada, ['s'], none⟩, true, 1, 3, 0, 0⟩]
  files := [shelved]
  audio := []
  storage := ⟨fun _ => true, []⟩
  cleanups := []

theorem shelf_sound : shelf.Sound where
  fileIds := List.nodup_singleton _
  sessionIds := List.nodup_singleton _
  files := by decide
  sessions := by decide

theorem shelf_files : (purgeTrash week shelf calm ada).files = [shelved] := by
  rw [files_purgeTrash]
  decide

/-- Six days are left, and the file is there on the eighth. -/
theorem kept_of_shown_week :
    ∃ g ∈ (effect week (effect week (purgeTrash week shelf calm ada) (.wait (5 * day))).1
        (.purgeTrash ada calm)).1.files,
      SameFile shelved g ∧ (effect week (effect week (purgeTrash week shelf calm ada)
        (.wait (5 * day))).1 (.purgeTrash ada calm)).1.owns ada g.sessionId = true := by
  have hmem : shelved ∈ (purgeTrash week shelf calm ada).files := by
    rw [shelf_files]
    exact List.mem_cons_self
  have hshown : listTrashedFile week (purgeTrash week shelf calm ada) shelved ∈
      (ranked (·.trashedAt.getD 0) ((purgeTrash week shelf calm ada).files.filter fun f =>
        f.trashedAt.isSome && (purgeTrash week shelf calm ada).ownsLive ada f.sessionId)).map
          (listTrashedFile week (purgeTrash week shelf calm ada)) :=
    List.mem_map_of_mem ((mem_ranked _).mpr (List.mem_filter.mpr ⟨hmem, by decide⟩))
  have hspares : ∀ a ∈ [Act.wait (5 * day), .purgeTrash ada calm], SparesFile ada shelved a := by
    intro a ha
    rcases List.mem_pair.mp ha with rfl | rfl <;> trivial
  exact kept_of_shown shelf_sound rfl hmem hshown rfl rfl hspares rfl (by decide)

/-- **What a session of the trash has is there too**, when it is not there for itself. -/
theorem kept_of_shown_session {cfg : Config} {db db1 db' : Db} (h : db.Sound) {m : Meets}
    {userSub : Str} {files : List TrashedFile} {sessions : List TrashedSession}
    (hshown : apiMyTrash cfg db m userSub = (db1, .trash files sessions)) {f : File}
    (hf : f ∈ db1.files) (hlive : f.trashedAt = none) {shown : TrashedSession}
    (hmem : shown ∈ sessions) (hid : f.sessionId = shown.id) {n : Nat}
    (hleft : shown.daysLeft = some n) {as : List Act}
    (hspares : ∀ a ∈ as, SparesFile userSub f a) (hrun : run (next cfg) db1 as = some db')
    (htime : db'.now + day ≤ db1.now + n * day) :
    ∃ g ∈ db'.files, SameFile f g ∧ db'.owns userSub g.sessionId = true := by
  obtain ⟨rfl, hreply⟩ := Prod.mk.inj hshown
  obtain ⟨-, rfl⟩ := Reply.trash.inj hreply
  have h1 : (purgeTrash cfg db m userSub).Sound := sound_purgeTrash h cfg m userSub
  obtain ⟨s, hs, rfl⟩ := List.mem_map.mp hmem
  obtain ⟨hs, hmine⟩ := List.mem_filter.mp ((mem_ranked _).mp hs)
  have huser : s.userSub = userSub := of_decide_eq_true (Bool.and_eq_true_iff.mp hmine).1
  subst huser
  obtain ⟨x, hx, rfl⟩ := Option.map_eq_some_iff.mp hleft
  have hold : x ≤ (purgeTrash cfg db m s.userSub).now := h1.sessions s hs x hx
  have hlasts : db'.now ≤ x + cfg.trashRetentionDays * day :=
    le_of_daysLeft (now_of_run hrun) htime
  have hkeeps : (purgeTrash cfg db m s.userSub).Keeps cfg db'.now s f :=
    ⟨h1, hlasts.trans (Nat.add_le_add_right hold _), ⟨s, hs, .refl s, lasts_some hx hlasts⟩,
      ⟨f, hf, .refl f, lasts_none hlive⟩⟩
  exact (keeps_of_run hid hkeeps hspares hrun le_rfl).found hid

/-- A file of a session that is in the trash since the second day. -/
def boxed : File := ⟨⟨0, 0, ['o'], none, 0, none⟩, ['n']⟩

/-- On the third day. -/
def box : Db where
  now := 3 * day
  sessions := [⟨⟨0, ada, ['s'], some (2 * day)⟩, true, 1, 3, 0, 0⟩]
  files := [boxed]
  audio := []
  storage := ⟨fun _ => true, []⟩
  cleanups := []

theorem box_sound : box.Sound where
  fileIds := List.nodup_singleton _
  sessionIds := List.nodup_singleton _
  files := by decide
  sessions := by decide

/-- Six days are left, and the file is there on the eighth. -/
theorem kept_of_shown_session_week :
    ∃ g ∈ (effect week (effect week (purgeTrash week box calm ada) (.wait (5 * day))).1
        (.purgeTrash ada calm)).1.files,
      SameFile boxed g ∧ (effect week (effect week (purgeTrash week box calm ada)
        (.wait (5 * day))).1 (.purgeTrash ada calm)).1.owns ada g.sessionId = true := by
  have hmem : boxed ∈ (purgeTrash week box calm ada).files := by
    rw [files_purgeTrash]
    decide
  have hshown : listTrashedSession week (purgeTrash week box calm ada)
      ⟨⟨0, ada, ['s'], some (2 * day)⟩, true, 1, 3, 0, 0⟩ ∈
      (ranked (·.trashedAt.getD 0) ((purgeTrash week box calm ada).sessions.filter fun s =>
        s.userSub = ada && s.trashedAt.isSome)).map
          (listTrashedSession week (purgeTrash week box calm ada)) := by
    refine List.mem_map_of_mem ((mem_ranked _).mpr (List.mem_filter.mpr ⟨?_, by decide⟩))
    rw [sessions_purgeTrash]
    decide
  have hspares : ∀ a ∈ [Act.wait (5 * day), .purgeTrash ada calm], SparesFile ada boxed a := by
    intro a ha
    rcases List.mem_pair.mp ha with rfl | rfl <;> trivial
  exact kept_of_shown_session box_sound rfl hmem rfl hshown rfl rfl hspares rfl (by decide)

/-! ## What the list shows -/

/-- The user does not put the file or its session in the trash, and the file is not old. -/
def LeavesListed (userSub simpleCode : Str) (fileId createdAt : Nat) : Act → Prop
  | .request userSub' (.deleteFile fileId') _ => userSub' = userSub → fileId' ≠ fileId
  | .request userSub' (.deleteSession simpleCode') _ =>
      userSub' = userSub → simpleCode' ≠ simpleCode
  | .request userSub' .purgeMySessions _ => userSub' ≠ userSub
  | .externalPurge _ cutoff => cutoff ≤ createdAt
  | _ => True

/-- The file and its session are out of the trash. -/
structure Db.Live (db : Db) (s : Session) (f : File) : Prop where
  sound : db.Sound
  session : ∃ s' ∈ db.sessions, SameSession s s' ∧ s'.trashedAt = none
  file : ∃ f' ∈ db.files, SameFile f f' ∧ f'.trashedAt = none

theorem live_of_step {cfg : Config} {s : Session} {f : File} (hfs : f.sessionId = s.id)
    {db db' : Db} {a : Act} (h : db.Live s f)
    (hleaves : LeavesListed s.userSub s.simpleCode f.id f.createdAt a)
    (hstep : next cfg db a = some db') : db'.Live s f := by
  obtain ⟨s', hs', hsame, hsession⟩ := h.session
  obtain ⟨f', hf', hfsame, hfile⟩ := h.file
  have hids : f'.sessionId = s'.id := hfsame.sessionId.trans (hfs.trans hsame.id.symm)
  have hlasts : Lasts cfg db.now s'.trashedAt := lasts_none hsession
  refine ⟨sound_of_step hstep h.sound, ?_, ?_⟩
  · cases session_of_step h.sound hstep hs' with
    | kept s'' hs'' hss ht => exact ⟨s'', hs'', hsame.trans hss, ht.trans hsession⟩
    | trashed r m ha hr s'' hs'' hss ht =>
        subst ha
        rcases hr with rfl | rfl
        · exact absurd hsame.simpleCode (hleaves hsame.userSub)
        · exact absurd hsame.userSub hleaves
    | restored s'' hs'' hss ht => exact ⟨s'', hs'', hsame.trans hss, ht⟩
    | purged userSub hgoes =>
        rw [hlasts.not_goesSession le_rfl] at hgoes
        cases hgoes
  · cases file_of_step h.sound hstep hf' with
    | kept f'' hf'' hff ht => exact ⟨f'', hf'', hfsame.trans hff, ht.trans hfile⟩
    | trashed userSub m ha howns f'' hf'' hff ht =>
        subst ha
        rw [hids] at howns
        have huser : userSub = s.userSub := (h.sound.owner_eq hs' howns).trans hsame.userSub
        exact absurd hfsame.id (hleaves huser)
    | restored f'' hf'' hff ht => exact ⟨f'', hf'', hfsame.trans hff, ht⟩
    | dropped userSub m ha howns ht => exact absurd hfile ht
    | purged userSub hgoes =>
        rw [not_goesFile h.sound hs' hids hlasts (lasts_none hfile) le_rfl] at hgoes
        cases hgoes
    | old env cutoff ha hold =>
        subst ha
        rw [hfsame.createdAt] at hold
        exact absurd hold (Nat.not_lt.mpr hleaves)

theorem live_of_run {cfg : Config} {s : Session} {f : File} (hfs : f.sessionId = s.id)
    {db db' : Db} (h : db.Live s f) {as : List Act}
    (hleaves : ∀ a ∈ as, LeavesListed s.userSub s.simpleCode f.id f.createdAt a)
    (hrun : run (next cfg) db as = some db') : db'.Live s f := by
  have hguarded : Guarded (next cfg)
      (fun _ a => LeavesListed s.userSub s.simpleCode f.id f.createdAt a) db as :=
    guarded_of_actions (next cfg) db hleaves
  exact inv_of_guarded (next cfg) (fun d => d.Live s f)
    (fun _ _ _ hinv ha hs => live_of_step hfs hinv ha hs) h hguarded hrun

/-- A local session is listed, recent or not. -/
theorem mem_selectListedSessions (cfg : Config) {db : Db} (h : db.Sound) {s : Session}
    (hs : s ∈ db.sessions) (hlive : s.trashedAt = none) (hlocal : s.isLocal = true) :
    s ∈ selectListedSessions cfg db s.userSub := by
  have hmem : s ∈ liveSessions db s.userSub := List.mem_filter.mpr ⟨hs, by simp [hlive]⟩
  rw [selectListedSessions, List.mem_append]
  by_cases hrecent :
      s ∈ (ranked (·.updatedAt) (liveSessions db s.userSub)).take cfg.mySessionsCap
  · exact Or.inl hrecent
  · refine Or.inr (List.mem_filter.mpr
      ⟨(mem_ranked _).mpr (List.mem_filter.mpr ⟨hmem, hlocal⟩), ?_⟩)
    rw [Bool.not_eq_true', List.any_eq_false]
    intro r hr hid
    have hr' : r ∈ db.sessions :=
      (List.mem_filter.mp ((mem_ranked _).mp (List.mem_of_mem_take hr))).1
    exact hrecent (h.session_eq hr' hs (of_decide_eq_true hid) ▸ hr)

/-- The session of an upload. -/
theorem getOrCreateLocalUploadSession_spec (db : Db) (m : Meets) (userSub : Str) :
    (getOrCreateLocalUploadSession db m userSub).2 ∈
        (getOrCreateLocalUploadSession db m userSub).1.sessions ∧
      (getOrCreateLocalUploadSession db m userSub).2.userSub = userSub ∧
      (getOrCreateLocalUploadSession db m userSub).2.trashedAt = none ∧
      (getOrCreateLocalUploadSession db m userSub).2.isLocal = true := by
  rw [getOrCreateLocalUploadSession]
  cases hlocal : localSession db userSub with
  | none =>
      exact ⟨List.mem_append_right _ List.mem_cons_self, rfl, rfl,
        List.isPrefixOf_iff_prefix.mpr (List.prefix_append ..)⟩
  | some s =>
      obtain ⟨hmem, hs⟩ := List.mem_filter.mp ((mem_ranked _).mp (List.mem_of_head? hlocal))
      obtain ⟨hmem, hlive⟩ := List.mem_filter.mp hmem
      simp only [Bool.and_eq_true, decide_eq_true_eq, Option.isNone_iff_eq_none] at hs hlive
      exact ⟨hmem, hlive.1, hlive.2, hs.1.1⟩

theorem live_upload {cfg : Config} {db : Db} (h : db.Sound) {m : Meets} {userSub filename : Str}
    (hp : Possible cfg db (.request userSub (.myUpload none filename) m)) :
    (db.upload cfg m userSub filename).Live (getOrCreateLocalUploadSession db m userSub).2
      (newFile db m.fileId (getOrCreateLocalUploadSession db m userSub).2 filename
        (buildStoredFilename cfg m (getOrCreateLocalUploadSession db m userSub).2.simpleCode
          filename)) := by
  obtain ⟨hmem, -, hlive, -⟩ := getOrCreateLocalUploadSession_spec db m userSub
  exact ⟨sound_upload h hp,
    ⟨_, List.mem_map.mpr ⟨_, hmem, if_pos rfl⟩, ⟨rfl, rfl, rfl⟩, hlive⟩,
    ⟨_, List.mem_append_right _ List.mem_cons_self, .refl _, rfl⟩⟩

theorem upload_of_uploaded {cfg : Config} {db db' : Db} {m : Meets}
    {userSub filename name : Str} {fileId remaining : Nat}
    (h : answer cfg db m userSub (.myUpload none filename) =
      (db', .uploaded fileId name remaining)) :
    db' = db.upload cfg m userSub filename ∧ fileId = m.fileId ∧ name = filename := by
  change (if m.stores then
    if m.commits then (db.upload cfg m userSub filename, Reply.uploaded m.fileId filename _)
    else (db.put (.upload, _), .error 500 "internal")
    else (db, .error 500 "Erreur lors de l'upload. Réessayez.")) = _ at h
  split at h
  · split at h
    · cases h
      exact ⟨rfl, rfl, rfl⟩
    · cases h
  · cases h

/-- **A local upload that is answered is listed**, whatever else is uploaded, for as long as its
user leaves it out of the trash. -/
theorem listed_of_uploaded {cfg : Config} {db db1 db' : Db} (h : db.Sound) {m : Meets}
    {userSub filename name : Str} {fileId remaining : Nat}
    (hp : Possible cfg db (.request userSub (.myUpload none filename) m))
    (hanswer : answer cfg db m userSub (.myUpload none filename) =
      (db1, .uploaded fileId name remaining)) {as : List Act}
    (hleaves : ∀ a ∈ as, LeavesListed userSub
      (getOrCreateLocalUploadSession db m userSub).2.simpleCode fileId db.now a)
    (hrun : run (next cfg) db1 as = some db') (m' : Meets) :
    ∃ listed, (apiMySessions cfg db' m' userSub).2 = .sessions listed ∧
      ∃ l ∈ listed, l.isLocalUpload = true ∧
        l.simpleCode = (getOrCreateLocalUploadSession db m userSub).2.simpleCode ∧
        ∃ u ∈ l.uploads, u.id = fileId ∧ u.originalFilename = name := by
  obtain ⟨-, huser, -, hlocal⟩ := getOrCreateLocalUploadSession_spec db m userSub
  have hlive := live_upload h hp
  obtain ⟨rfl, rfl, rfl⟩ := upload_of_uploaded hanswer
  have hend := live_of_run rfl hlive (by rw [huser]; exact hleaves) hrun
  obtain ⟨s, hs, hsame, hsession⟩ := hend.session
  obtain ⟨f, hf, hfsame, hfile⟩ := hend.file
  have hsuser : s.userSub = userSub := hsame.userSub.trans huser
  have hslocal : s.isLocal = true := by
    rw [Session.isLocal, hsame.simpleCode]
    exact hlocal
  have hlisted := mem_selectListedSessions cfg hend.sound hs hsession hslocal
  rw [hsuser] at hlisted
  refine ⟨_, rfl, listSession db' m' userSub s, List.mem_map_of_mem hlisted, hslocal,
    hsame.simpleCode, listUpload db' m' userSub s f, ?_, hfsame.id, hfsame.originalFilename⟩
  refine List.mem_map_of_mem (List.mem_filter.mpr ⟨List.mem_filter.mpr ⟨hf, ?_⟩, ?_⟩)
  · exact decide_eq_true (hfsame.sessionId.trans hsame.id.symm)
  · rw [hfile]
    rfl

/-- No table has a row. -/
def blank : Db := ⟨0, [], [], [], ⟨fun _ => false, []⟩, []⟩

/-- The first upload is listed a hundred days later. -/
theorem listed_of_uploaded_blank :
    ∃ listed, (apiMySessions week (effect week (effect week (answer week blank calm ada
        (.myUpload none ['n'])).1 (.wait (100 * day))).1 (.request ada .myTrash calm)).1
        calm ada).2 = .sessions listed ∧
      ∃ l ∈ listed, l.isLocalUpload = true ∧
        l.simpleCode = (getOrCreateLocalUploadSession blank calm ada).2.simpleCode ∧
        ∃ u ∈ l.uploads, u.id = 1 ∧ u.originalFilename = ['n'] := by
  have hpossible : Possible week blank (.request ada (.myUpload none ['n']) calm) := by
    refine ⟨fun _ s hs => ?_, fun f hf => ?_⟩
    · cases hs
    · cases hf
  have hleaves : ∀ a ∈ [Act.wait (100 * day), .request ada .myTrash calm],
      LeavesListed ada (getOrCreateLocalUploadSession blank calm ada).2.simpleCode 1 0 a := by
    intro a ha
    rcases List.mem_pair.mp ha with rfl | rfl <;> trivial
  exact listed_of_uploaded (by constructor <;> decide) hpossible rfl hleaves rfl calm

/-! ## The rows of another user -/

/-- The action is not a request of the user, and the row is not old. -/
def Foreign (userSub : Str) (createdAt : Nat) : Act → Prop
  | .request userSub' _ _ => strip userSub' ≠ userSub
  | .internalPurge _ cutoff => cutoff ≤ createdAt
  | _ => True

/-- The row is there, and no deletion that is under way is one of its user. -/
structure Db.Holds (db : Db) (a : Audio) : Prop where
  row : a ∈ db.audio
  cleanups : ∀ c ∈ db.cleanups, strip c.userSub ≠ a.userSub

theorem not_bySession {userSub : Str} {a : Audio} (h : strip userSub ≠ a.userSub)
    (simpleCode originalFilename : Str) :
    bySession userSub simpleCode originalFilename a = false := by
  rw [bySession, decide_eq_false h.symm, Bool.false_and, Bool.false_and]

theorem userSub_of_mem_cleanupsOf {db : Db} {userSub : Str} {f : File} {c : Cleanup}
    (h : c ∈ cleanupsOf db userSub f) : c.userSub = userSub := by
  rw [cleanupsOf] at h
  split at h
  · cases h
  · split at h
    · cases h
    · rw [List.mem_singleton.mp h]

theorem Db.Holds.purgeTrash {db : Db} {a : Audio} (h : db.Holds a) (cfg : Config) (m : Meets)
    (userSub : Str) : (Trash.purgeTrash cfg db m userSub).Holds a := by
  refine ⟨?_, h.cleanups⟩
  rw [audio_purgeTrash]
  exact h.row

theorem Db.Holds.internalPurge {db : Db} {a : Audio} (h : db.Holds a) (env : Env) {cutoff : Nat}
    (hyoung : cutoff ≤ a.createdAt) :
    (db.keep (runInternalPurgeOnce env cutoff db.world)).Holds a := by
  have hmem : a.toAudioFile ∈ db.world.audioFiles := List.mem_map_of_mem h.row
  have hkept : a.toAudioFile ∈ db.world.audioFiles.filter fun f => !(f.createdAt < cutoff) := by
    refine List.mem_filter.mpr ⟨hmem, ?_⟩
    rw [decide_eq_false (Nat.not_lt.mpr hyoung)]
    rfl
  refine ⟨List.mem_filter.mpr ⟨h.row, decide_eq_true ?_⟩, h.cleanups⟩
  rw [runInternalPurgeOnce]
  cases env.lockAcquired with
  | false => exact hmem
  | true =>
      cases hcommits : env.commits with
      | false => exact hmem
      | true => exact hkept

theorem Db.Holds.upload {db : Db} {a : Audio} (h : db.Holds a) (cfg : Config) (m : Meets)
    (userSub filename : Str) : (db.upload cfg m userSub filename).Holds a := by
  have hbase : (getOrCreateLocalUploadSession db m userSub).1.audio = db.audio ∧
      (getOrCreateLocalUploadSession db m userSub).1.cleanups = db.cleanups := by
    rw [getOrCreateLocalUploadSession]
    cases localSession db userSub with
    | some s => exact ⟨rfl, rfl⟩
    | none => exact ⟨rfl, rfl⟩
  refine ⟨?_, ?_⟩
  · show a ∈ (getOrCreateLocalUploadSession db m userSub).1.audio
    rw [hbase.1]
    exact h.row
  · show ∀ c ∈ (getOrCreateLocalUploadSession db m userSub).1.cleanups, _
    rw [hbase.2]
    exact h.cleanups

theorem holds_of_does {cfg : Config} {db db' : Db} {m : Meets} {userSub : Str} {r : Request}
    {a : Audio} (h : db.Holds a) (hforeign : strip userSub ≠ a.userSub)
    (hdoes : Does cfg db m userSub r db') : db'.Holds a := by
  cases hdoes with
  | drop =>
      refine ⟨h.row, fun c hc => ?_⟩
      rcases List.mem_append.mp hc with hc | hc
      · exact h.cleanups c hc
      · rw [userSub_of_mem_cleanupsOf hc]
        exact hforeign
  | amend hr hf hs hg =>
      refine ⟨List.mem_map.mpr ⟨a, h.row, ?_⟩, h.cleanups⟩
      rw [not_bySession hforeign]
      exact if_neg Bool.false_ne_true
  | purge => exact h.purgeTrash cfg m userSub
  | upload => exact h.upload cfg m userSub _
  | _ => exact ⟨h.row, h.cleanups⟩

theorem holds_of_step {cfg : Config} {db db' : Db} {act : Act} {a : Audio} (h : db.Holds a)
    (hforeign : Foreign a.userSub a.createdAt act) (hstep : next cfg db act = some db') :
    db'.Holds a := by
  rw [next, step] at hstep
  split at hstep
  · rename_i hp
    cases hstep
    cases act with
    | request userSub r m => exact holds_of_does h hforeign (does_answer cfg db m userSub r)
    | purgeTrash userSub m => exact h.purgeTrash cfg m userSub
    | externalPurge env cutoff =>
        refine ⟨List.mem_filter.mpr ⟨h.row, decide_eq_true ?_⟩, h.cleanups⟩
        rw [runExternalPurgeOnce]
        split <;> exact List.mem_map_of_mem h.row
    | internalPurge env cutoff => exact h.internalPurge env hforeign
    | pulled b => exact ⟨List.mem_append_left _ h.row, h.cleanups⟩
    | cleanup c arrives =>
        have hc : strip c.userSub ≠ a.userSub := h.cleanups c hp
        have hrest : ∀ c' ∈ db.cleanups.erase c, strip c'.userSub ≠ a.userSub :=
          fun c' hc' => h.cleanups c' (List.mem_of_mem_erase hc')
        cases arrives with
        | false => exact ⟨h.row, hrest⟩
        | true =>
            refine ⟨?_, hrest⟩
            show a ∈ (deleteFileBySession db c).audio
            rw [deleteFileBySession]
            split
            · exact h.row
            · refine List.mem_filter.mpr ⟨h.row, ?_⟩
              rw [not_bySession hc]
              rfl
    | _ => exact ⟨h.row, h.cleanups⟩
  · cases hstep

/-- **What the others do leaves a row of the internal zone as it is**: they may rename, date and
delete files that have the same name, in sessions that have the same code. -/
theorem row_of_foreign_run {cfg : Config} {db db' : Db} {a : Audio} (ha : a ∈ db.audio)
    (hcleanups : ∀ c ∈ db.cleanups, strip c.userSub ≠ a.userSub) {as : List Act}
    (hforeign : ∀ act ∈ as, Foreign a.userSub a.createdAt act)
    (hrun : run (next cfg) db as = some db') : a ∈ db'.audio := by
  have hguarded : Guarded (next cfg) (fun _ act => Foreign a.userSub a.createdAt act) db as :=
    guarded_of_actions (next cfg) db hforeign
  exact (inv_of_guarded (next cfg) (fun d => d.Holds a)
    (fun _ _ _ hinv hact hs => holds_of_step hinv hact hs) ⟨ha, hcleanups⟩ hguarded hrun).row

/-- A row of the internal zone with the code and the name of `shelved`. -/
def minutes : Audio := ⟨⟨0, 0, none⟩, ['b'], ['s'], ['n'], some ['t'], none⟩

/-- `shelved` is deleted for good in both zones, and the row of the other user is there. -/
theorem row_of_foreign_run_shelf :
    minutes ∈ (effect week (effect week { shelf with audio := [minutes] }
      (.request ada (.deleteFilePermanently 0) calm)).1
        (.cleanup ⟨ada, ['s'], ['n']⟩ true)).1.audio := by
  have hforeign : ∀ act ∈ [Act.request ada (.deleteFilePermanently 0) calm,
      .cleanup ⟨ada, ['s'], ['n']⟩ true], Foreign minutes.userSub minutes.createdAt act := by
    intro act hact
    rcases List.mem_pair.mp hact with rfl | rfl
    · show strip ada ≠ minutes.userSub
      decide
    · trivial
  have hcleanups : ∀ c ∈ ({ shelf with audio := [minutes] } : Db).cleanups,
      strip c.userSub ≠ minutes.userSub := by
    intro c hc
    cases hc
  exact row_of_foreign_run (a := minutes) List.mem_cons_self hcleanups
    hforeign rfl

end MesReunions.Portal.Trash
