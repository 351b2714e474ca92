import MesReunions.Purges.Purges

/-!
# Purging a session

`purge_expired_trash` goes through the files of the trash, then through the sessions of the trash,
each time with a list of the copies of a file. The two lists are compared.

* `requests` — the objects that a run asks to delete.
* `separately` — the same tables, with the files of a session in the trash instead of the session.
* **`sameObjects_iff`** — the same objects are asked for, when no other copy of a file of the
  session is in the internal bucket than that of a file that was in the trash by itself.
* **`transferred_kept`** — a session with one transferred file.
-/

namespace MesReunions.Purges

/-! ## The requests of a run -/

/-- The requests that are new in the log, the first one first. -/
def newRequests (s s' : Storage Blob) : List Blob :=
  ((s'.asked.take (s'.asked.length - s.asked.length)).map Prod.fst).reverse

/-- The objects that `purge_expired_trash` asks to delete. -/
def requests (env : Env) (userSub : Str) (threshold : Nat) (w : World) : List Blob :=
  newRequests w.storage (purgeExpiredTrash env userSub threshold w).storage

/-- The files of the session are in the trash since `t`, and the session is not. -/
def separately (s : UploadSession) (t : Nat) (w : World) : World :=
  { w with
    uploadedFiles := w.uploadedFiles.map fun f =>
      if f.sessionId = s.id then { f with trashedAt := some t } else f
    sessions := w.sessions.map fun s' =>
      if s'.id = s.id then { s' with trashedAt := none } else s' }

/-- The purge of the session asks for the same objects as that of its files. -/
def SameObjects (env : Env) (userSub : Str) (threshold t : Nat) (s : UploadSession)
    (w : World) : Prop :=
  ∀ o, o ∈ requests env userSub threshold w ↔
    o ∈ requests env userSub threshold (separately s t w)

/-! ## The objects of the rows -/

/-- The objects of the first loop. -/
def fileObjects (userSub : Str) (threshold : Nat) (w : World) : List Blob :=
  (trashedFiles w userSub threshold).flatMap fun f =>
    f.blobs ++ (resolveTransferredStorage w f).toList

/-- The objects of the second loop. -/
def sessionObjects (userSub : Str) (threshold : Nat) (w : World) : List Blob :=
  ((trashedSessions w userSub threshold).flatMap (uploads w)).flatMap UploadedFile.blobs

theorem asked_deleteAll (reply : Nat → Reply) (objs : List Blob) (s : Storage Blob) :
    ∃ answers : List (Blob × Reply), (deleteAll reply objs s).asked = answers ++ s.asked ∧
      answers.map Prod.fst = objs.reverse := by
  induction objs generalizing s with
  | nil => exact ⟨[], rfl, rfl⟩
  | cons o objs ih =>
      obtain ⟨answers, hasked, hobjs⟩ := ih (deleteObject reply s o)
      refine ⟨answers ++ [(o, reply s.asked.length)], ?_, ?_⟩
      · show (deleteAll reply objs (deleteObject reply s o)).asked = _
        rw [hasked, List.append_assoc]
        rfl
      · rw [List.map_append, hobjs, List.reverse_cons]
        rfl

theorem newRequests_deleteAll (reply : Nat → Reply) (objs : List Blob) (s : Storage Blob) :
    newRequests s (deleteAll reply objs s) = objs := by
  obtain ⟨answers, hasked, hobjs⟩ := asked_deleteAll reply objs s
  rw [newRequests, hasked, List.length_append, Nat.add_sub_cancel, List.take_left, hobjs,
    List.reverse_reverse]

theorem foldl_deleteAll {Row : Type} (reply : Nat → Reply) (objectsOf : Row → List Blob)
    (rows : List Row) (s : Storage Blob) :
    rows.foldl (fun s row => deleteAll reply (objectsOf row) s) s =
      deleteAll reply (rows.flatMap objectsOf) s := by
  rw [deleteAll, List.foldl_flatMap]
  rfl

/-- What a run leaves in the store: the requests for the files, then those for the sessions that
are left, answered in order. -/
theorem storage_purgeExpiredTrash (env : Env) (userSub : Str) (threshold : Nat) (w : World) :
    (purgeExpiredTrash env userSub threshold w).storage = deleteAll env.reply
      (fileObjects userSub threshold w ++
        sessionObjects userSub threshold (purgeTrashedFiles env userSub threshold w))
      w.storage := by
  have hfiles : (purgeTrashedFiles env userSub threshold w).storage =
      deleteAll env.reply (fileObjects userSub threshold w) w.storage :=
    foldl_deleteAll _ _ _ _
  have hboth : (purgeTrashedSessions env userSub threshold
      (purgeTrashedFiles env userSub threshold w)).storage = deleteAll env.reply
        (fileObjects userSub threshold w ++
          sessionObjects userSub threshold (purgeTrashedFiles env userSub threshold w))
        w.storage := by
    rw [purgeTrashedSessions, foldl_deleteAll, hfiles, deleteAll, deleteAll, deleteAll,
      List.foldl_append]
    rfl
  rw [purgeExpiredTrash]
  split
  · exact hboth
  · exact hboth

/-- **The requests.** -/
theorem requests_eq (env : Env) (userSub : Str) (threshold : Nat) (w : World) :
    requests env userSub threshold w = fileObjects userSub threshold w ++
      sessionObjects userSub threshold (purgeTrashedFiles env userSub threshold w) := by
  rw [requests, storage_purgeExpiredTrash, newRequests_deleteAll]

/-- Where no request is refused, the store loses what is asked for. -/
theorem stored_of_accepted {env : Env} (h : ∀ n, env.reply n ≠ .refused) (userSub : Str)
    (threshold : Nat) (w : World) (o : Blob) :
    (purgeExpiredTrash env userSub threshold w).storage.objects o = true ↔
      w.storage.objects o = true ∧ o ∉ requests env userSub threshold w := by
  rw [storage_purgeExpiredTrash, requests_eq]
  generalize fileObjects userSub threshold w ++
    sessionObjects userSub threshold (purgeTrashedFiles env userSub threshold w) = objs
  generalize w.storage = s
  induction objs generalizing s with
  | nil => simp [deleteAll]
  | cons p objs ih =>
      show (deleteAll env.reply objs (deleteObject env.reply s p)).objects o = true ↔ _
      rw [ih, deleteObject]
      dsimp only
      rw [if_neg (h _), Function.update_apply]
      by_cases hp : o = p
      · simp [hp]
      · simp [hp]

/-! ## The files that go -/

/-- The file is in the trash, or its session is. -/
def Gone (userSub : Str) (threshold : Nat) (w : World) (f : UploadedFile) : Prop :=
  f ∈ w.uploadedFiles ∧ (f ∈ trashedFiles w userSub threshold ∨
    ∃ s ∈ trashedSessions w userSub threshold, f.sessionId = s.id)

/-- The copies of a file that goes, and the transferred copy of a file of the trash. -/
theorem mem_requests {env : Env} {userSub : Str} {threshold : Nat} {w : World} {o : Blob} :
    o ∈ requests env userSub threshold w ↔
      (∃ f, Gone userSub threshold w f ∧ o ∈ f.blobs) ∨
      ∃ f ∈ trashedFiles w userSub threshold, resolveTransferredStorage w f = some o := by
  rw [requests_eq, List.mem_append]
  constructor
  · rintro (ho | ho)
    · obtain ⟨f, hf, ho⟩ := List.mem_flatMap.mp ho
      rcases List.mem_append.mp ho with ho | ho
      · exact Or.inl ⟨f, ⟨(List.mem_filter.mp hf).1, Or.inl hf⟩, ho⟩
      · exact Or.inr ⟨f, hf, Option.mem_toList.mp ho⟩
    · obtain ⟨f, hf, ho⟩ := List.mem_flatMap.mp ho
      obtain ⟨s, hs, hf⟩ := List.mem_flatMap.mp hf
      obtain ⟨hf, hid⟩ := List.mem_filter.mp hf
      exact Or.inl ⟨f, ⟨(List.mem_filter.mp hf).1, Or.inr ⟨s, hs, of_decide_eq_true hid⟩⟩, ho⟩
  · rintro (⟨f, ⟨hmem, hf⟩, ho⟩ | ⟨f, hf, ho⟩)
    · by_cases htrash : f ∈ trashedFiles w userSub threshold
      · exact Or.inl (List.mem_flatMap.mpr ⟨f, htrash, List.mem_append_left _ ho⟩)
      · -- It is left when the sessions are gone through.
        obtain ⟨s, hs, hid⟩ := hf.resolve_left htrash
        refine Or.inr (List.mem_flatMap.mpr ⟨f, List.mem_flatMap.mpr ⟨s, hs, ?_⟩, ho⟩)
        refine List.mem_filter.mpr ⟨List.mem_filter.mpr ⟨hmem, ?_⟩, decide_eq_true hid⟩
        simpa using htrash
    · exact Or.inl (List.mem_flatMap.mpr ⟨f, hf,
        List.mem_append_right _ (Option.mem_toList.mpr ho)⟩)

/-! ## The two ways -/

/-- A file, in the trash since `t` when it is of the session. -/
def moved (s : UploadSession) (t : Nat) (f : UploadedFile) : UploadedFile :=
  if f.sessionId = s.id then { f with trashedAt := some t } else f

theorem moved_blobs (s : UploadSession) (t : Nat) (f : UploadedFile) :
    (moved s t f).blobs = f.blobs := by
  rw [moved]
  split <;> rfl

theorem moved_sessionId (s : UploadSession) (t : Nat) (f : UploadedFile) :
    (moved s t f).sessionId = f.sessionId := by
  rw [moved]
  split <;> rfl

theorem moved_transcoded (s : UploadSession) (t : Nat) (f : UploadedFile) :
    (moved s t f).transcodedFilename = f.transcodedFilename := by
  rw [moved]
  split <;> rfl

/-- The session, out of the trash. -/
def restored (s s' : UploadSession) : UploadSession :=
  if s'.id = s.id then { s' with trashedAt := none } else s'

theorem restored_id (s s' : UploadSession) : (restored s s').id = s'.id := by
  rw [restored]
  split <;> rfl

theorem restored_userSub (s s' : UploadSession) : (restored s s').userSub = s'.userSub := by
  rw [restored]
  split <;> rfl

theorem restored_simpleCode (s s' : UploadSession) :
    (restored s s').simpleCode = s'.simpleCode := by
  rw [restored]
  split <;> rfl

/-- The place of a transferred copy does not depend on the trash. -/
theorem resolve_separately (s : UploadSession) (t : Nat) (w : World) (f : UploadedFile) :
    resolveTransferredStorage (separately s t w) (moved s t f) =
      resolveTransferredStorage w f := by
  rw [resolveTransferredStorage, resolveTransferredStorage, moved_transcoded]
  cases keyOf f.transcodedFilename with
  | nil => rfl
  | cons transcoded _ =>
      show Option.map _ ((w.sessions.map (restored s)).find? _) = _
      rw [List.find?_map, Option.map_map, moved_sessionId]
      congr 1
      · funext s'
        simp only [Function.comp_apply, restored_userSub, restored_simpleCode]
      · congr 1
        funext s'
        simp only [Function.comp_apply, restored_id]

theorem mem_trashedSessions {userSub : Str} {threshold : Nat} {w : World} {s : UploadSession} :
    s ∈ trashedSessions w userSub threshold ↔
      s ∈ w.sessions ∧ s.userSub = userSub ∧ expired threshold s.trashedAt = true := by
  rw [trashedSessions, List.mem_filter, Bool.and_eq_true, decide_eq_true_eq]

theorem mem_trashedFiles {userSub : Str} {threshold : Nat} {w : World} {f : UploadedFile} :
    f ∈ trashedFiles w userSub threshold ↔
      f ∈ w.uploadedFiles ∧ expired threshold f.trashedAt = true ∧
        ∃ s ∈ w.sessions, s.id = f.sessionId ∧ s.userSub = userSub := by
  simp only [trashedFiles, List.mem_filter, Bool.and_eq_true, List.any_eq_true,
    decide_eq_true_eq]

/-- The other sessions of the trash stay there. -/
theorem mem_trashedSessions_separately {userSub : Str} {threshold t : Nat} {w : World}
    {s s' : UploadSession} : s' ∈ trashedSessions (separately s t w) userSub threshold ↔
      s' ∈ trashedSessions w userSub threshold ∧ s'.id ≠ s.id := by
  rw [mem_trashedSessions, mem_trashedSessions]
  show s' ∈ w.sessions.map (restored s) ∧ _ ↔ _
  constructor
  · rintro ⟨hmem, huser, hexp⟩
    obtain ⟨s'', hs'', rfl⟩ := List.mem_map.mp hmem
    rw [restored] at huser hexp ⊢
    split at hexp
    · cases hexp
    · rename_i hid
      rw [if_neg hid] at huser ⊢
      exact ⟨⟨hs'', huser, hexp⟩, hid⟩
  · rintro ⟨⟨hmem, huser, hexp⟩, hid⟩
    exact ⟨List.mem_map.mpr ⟨s', hmem, if_neg hid⟩, huser, hexp⟩

/-- The files of the session join the files of the trash. -/
theorem mem_trashedFiles_separately {userSub : Str} {threshold t : Nat} {w : World}
    {s : UploadSession} (hs : s ∈ trashedSessions w userSub threshold) (ht : t < threshold)
    {f : UploadedFile} (hf : f ∈ w.uploadedFiles) :
    moved s t f ∈ trashedFiles (separately s t w) userSub threshold ↔
      f.sessionId = s.id ∨ f ∈ trashedFiles w userSub threshold := by
  have hsession : (∃ s' ∈ (separately s t w).sessions,
      s'.id = f.sessionId ∧ s'.userSub = userSub) ↔
        ∃ s' ∈ w.sessions, s'.id = f.sessionId ∧ s'.userSub = userSub := by
    show (∃ s' ∈ w.sessions.map (restored s), _) ↔ _
    simp only [List.mem_map, exists_exists_and_eq_and, restored_id, restored_userSub]
  have hmem : moved s t f ∈ (separately s t w).uploadedFiles := List.mem_map_of_mem hf
  rw [mem_trashedFiles, mem_trashedFiles, moved_sessionId, hsession]
  by_cases hid : f.sessionId = s.id
  · obtain ⟨hmem', huser, -⟩ := mem_trashedSessions.mp hs
    have hexp : expired threshold (moved s t f).trashedAt = true := by
      rw [moved, if_pos hid]
      simpa [expired] using ht
    exact iff_of_true ⟨hmem, hexp, s, hmem', hid.symm, huser⟩ (Or.inl hid)
  · have hsame : moved s t f = f := if_neg hid
    rw [hsame] at hmem ⊢
    constructor
    · rintro ⟨-, hrest⟩
      exact Or.inr ⟨hf, hrest⟩
    · intro h
      exact ⟨hmem, (h.resolve_left hid).2⟩

/-- The same files go. -/
theorem gone_separately {userSub : Str} {threshold t : Nat} {w : World} {s : UploadSession}
    (hs : s ∈ trashedSessions w userSub threshold) (ht : t < threshold) {f : UploadedFile}
    (hf : f ∈ w.uploadedFiles) :
    Gone userSub threshold (separately s t w) (moved s t f) ↔ Gone userSub threshold w f := by
  have hmem : moved s t f ∈ (separately s t w).uploadedFiles := List.mem_map_of_mem hf
  rw [Gone, Gone, mem_trashedFiles_separately hs ht hf]
  simp only [mem_trashedSessions_separately, moved_sessionId, hmem, hf, true_and]
  constructor
  · rintro ((hid | htrash) | ⟨s', ⟨hs', -⟩, hid⟩)
    · exact Or.inr ⟨s, hs, hid⟩
    · exact Or.inl htrash
    · exact Or.inr ⟨s', hs', hid⟩
  · rintro (htrash | ⟨s', hs', hid⟩)
    · exact Or.inl (Or.inr htrash)
    · by_cases hsame : s'.id = s.id
      · exact Or.inl (Or.inl (hid.trans hsame))
      · exact Or.inr ⟨s', ⟨hs', hsame⟩, hid⟩

theorem mem_requests_separately {env : Env} {userSub : Str} {threshold t : Nat} {w : World}
    {s : UploadSession} (hs : s ∈ trashedSessions w userSub threshold) (ht : t < threshold)
    {o : Blob} : o ∈ requests env userSub threshold (separately s t w) ↔
      o ∈ requests env userSub threshold w ∨
        ∃ f ∈ uploads w s, resolveTransferredStorage w f = some o := by
  rw [mem_requests, mem_requests]
  constructor
  · rintro (⟨g, hgone, ho⟩ | ⟨g, hg, ho⟩)
    · obtain ⟨f, hf, rfl⟩ := List.mem_map.mp hgone.1
      exact Or.inl (Or.inl ⟨f, (gone_separately hs ht hf).mp hgone, by
        rw [← moved_blobs s t f]; exact ho⟩)
    · obtain ⟨f, hf, rfl⟩ := List.mem_map.mp (List.mem_filter.mp hg).1
      have hplace := (resolve_separately s t w f).symm.trans ho
      rcases (mem_trashedFiles_separately hs ht hf).mp hg with hid | htrash
      · exact Or.inr ⟨f, List.mem_filter.mpr ⟨hf, decide_eq_true hid⟩, hplace⟩
      · exact Or.inl (Or.inr ⟨f, htrash, hplace⟩)
  · have hmoved : ∀ f ∈ w.uploadedFiles, f.sessionId = s.id ∨
        f ∈ trashedFiles w userSub threshold → resolveTransferredStorage w f = some o →
        ∃ g ∈ trashedFiles (separately s t w) userSub threshold,
          resolveTransferredStorage (separately s t w) g = some o := fun f hf hid ho =>
      ⟨moved s t f, (mem_trashedFiles_separately hs ht hf).mpr hid,
        (resolve_separately s t w f).trans ho⟩
    rintro ((⟨f, hgone, ho⟩ | ⟨f, hf, ho⟩) | ⟨f, hf, ho⟩)
    · exact Or.inl ⟨moved s t f, (gone_separately hs ht hgone.1).mpr hgone, by
        rw [moved_blobs]; exact ho⟩
    · exact Or.inr (hmoved f (List.mem_filter.mp hf).1 (Or.inr hf) ho)
    · obtain ⟨hmem, hid⟩ := List.mem_filter.mp hf
      exact Or.inr (hmoved f hmem (Or.inl (of_decide_eq_true hid)) ho)

/-- The copies that both loops know are in the two other buckets. -/
theorem bucket_of_blobs {f : UploadedFile} {o : Blob} (h : o ∈ f.blobs) : o.1 ≠ .internal := by
  simp only [UploadedFile.blobs, List.mem_append, List.mem_map] at h
  rcases h with ⟨key, -, rfl⟩ | ⟨key, -, rfl⟩ <;> simp

theorem bucket_of_transferred {w : World} {f : UploadedFile} {o : Blob}
    (h : resolveTransferredStorage w f = some o) : o.1 = .internal := by
  rw [resolveTransferredStorage] at h
  split at h
  · cases h
  · obtain ⟨s, -, rfl⟩ := Option.map_eq_some_iff.mp h
    rfl

/-- **The purge of a session.** It asks for the same objects as the purge of its files, in the
trash one by one, exactly when the transferred copy of each of its files is that of a file which
was in the trash by itself. -/
theorem sameObjects_iff (env : Env) (userSub : Str) (threshold t : Nat) (w : World)
    (s : UploadSession) (hs : s ∈ trashedSessions w userSub threshold) (ht : t < threshold) :
    SameObjects env userSub threshold t s w ↔
      ∀ f ∈ uploads w s, ∀ o, resolveTransferredStorage w f = some o →
        ∃ f' ∈ trashedFiles w userSub threshold, resolveTransferredStorage w f' = some o := by
  constructor
  · intro hsame f hf o ho
    have hboth := (hsame o).mpr ((mem_requests_separately hs ht).mpr (Or.inr ⟨f, hf, ho⟩))
    rcases mem_requests.mp hboth with ⟨f', -, hblob⟩ | htransferred
    · exact absurd (bucket_of_transferred ho) (bucket_of_blobs hblob)
    · exact htransferred
  · intro h o
    rw [mem_requests_separately hs ht]
    constructor
    · exact Or.inl
    · rintro (ho | ⟨f, hf, ho⟩)
      · exact ho
      · exact mem_requests.mpr (Or.inr (h f hf o ho))

/-! ## One session -/

/-- A session of the trash, with a file that was transferred. -/
def oneSession : World where
  audioFiles := []
  uploadedFiles := [⟨1, 1, ['a'], some ['b'], 0, none⟩]
  sessions := [⟨1, ['u'], ['c'], some 0⟩]
  storage := ⟨fun _ => true, []⟩

theorem sameObjects_iff_oneSession :
    SameObjects ⟨true, true, fun _ => .deleted⟩ ['u'] 10 0 ⟨1, ['u'], ['c'], some 0⟩ oneSession ↔
      ∀ f ∈ uploads oneSession ⟨1, ['u'], ['c'], some 0⟩, ∀ o,
        resolveTransferredStorage oneSession f = some o →
          ∃ f' ∈ trashedFiles oneSession ['u'] 10,
            resolveTransferredStorage oneSession f' = some o :=
  sameObjects_iff ⟨true, true, fun _ => .deleted⟩ ['u'] 10 0 oneSession
    ⟨1, ['u'], ['c'], some 0⟩ (by decide) (by decide)

/-- **The transferred copy.** Nothing asks for it when the session is purged. -/
theorem transferred_kept : ¬ ∀ (env : Env) (userSub : Str) (threshold t : Nat) (w : World),
    ∀ s ∈ trashedSessions w userSub threshold, t < threshold →
      SameObjects env userSub threshold t s w := by
  intro h
  have hsame := h ⟨true, true, fun _ => .deleted⟩ ['u'] 10 0 oneSession ⟨1, ['u'], ['c'], some 0⟩
    (by decide) (by decide) (.internal, ['u', '/', 'c', '/', 'b'])
  revert hsame
  decide

end MesReunions.Purges
