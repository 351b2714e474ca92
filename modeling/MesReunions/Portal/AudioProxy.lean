import MesReunions.Transcript.HiddenBlocks

/-!
# Editing through the portal

The portal (`mesreunions-web`, `sessions/routes.py` and `feedback/routes.py`) forwards the
requests of a user on a file to the ingester (`puller.py`), which keeps the audio rows. A
file is known by the id of an `UploadedFile`, or by that of an audio row.

* **`honest_iff`** — for which identifiers an edit reaches the row that the other endpoints
  reach, and says so only then.
* **`external_edit`** — an audio row without an uploaded file is edited under its own id.
* **`uploaded_not_honest`** — an uploaded file whose edits are lost.
-/

namespace MesReunions.Portal

open Str Transcript

/-! ## The two databases -/

structure UploadSession where
  userSub : Str
  simpleCode : Str
  trashed : Bool
  deriving DecidableEq

structure UploadedFile where
  sessionId : Nat
  transcodedFilename : Option Str
  trashed : Bool
  deriving DecidableEq

/-- The columns of `UserAudioFile` that a row is found by, and its text. -/
structure AudioRow (Id : Type) where
  id : Id
  userSub : Str
  originalSessionCode : Option Str
  storedFilename : Str
  content : Audio

/-- The ingester, as a request finds it. -/
structure Ingester (Id : Type) where
  reachable : Bool
  tokenAccepted : Bool
  dbReady : Bool
  rows : List (AudioRow Id)
  ids_nodup : (rows.map AudioRow.id).Nodup

/-- The tables of the portal by their primary keys, and the ingester. -/
structure World (Id : Type) where
  sessions : Nat → Option UploadSession
  files : Id → Option UploadedFile
  ingester : Ingester Id

/-- What the portal gets from the ingester. -/
inductive Response (α : Type) where
  | unreachable
  | status (code : Nat)
  | ok (body : α)

/-- Why `_request_internal_ingester_api` raises. -/
inductive ProxyError where
  | connection
  | http (code : Nat)
  deriving DecidableEq

/-- `_request_internal_ingester_api`: a 404 is `None`. -/
def requestInternalIngesterApi {α : Type} : Response α → Except ProxyError (Option α)
  | .unreachable => .error .connection
  | .status code => if code = 404 then .ok none else .error (.http code)
  | .ok body => .ok (some body)

/-! ## The ingester -/

/-- SQL `LIKE`. -/
def like : Str → Str → Bool
  | [], s => s.isEmpty
  | '%' :: p, s => s.tails.any (like p)
  | '_' :: p, s => match s with
      | [] => false
      | _ :: s => like p s
  | '\\' :: c :: p, s => match s with
      | [] => false
      | d :: s => d == c && like p s
  | c :: p, s => match s with
      | [] => false
      | d :: s => d == c && like p s

section Endpoints

variable {Id : Type} [DecidableEq Id]

/-- The ingester answers requests in the name of this user. -/
def Ingester.Answers (i : Ingester Id) (userSub : Str) : Prop :=
  i.reachable = true ∧ i.tokenAccepted = true ∧ i.dbReady = true ∧ strip userSub ≠ []

/-- `filter(UserAudioFile.id == audio_id, UserAudioFile.user_sub == user_sub).first()` -/
def Ingester.rowById (i : Ingester Id) (userSub : Str) (id : Id) : Option (AudioRow Id) :=
  i.rows.find? fun r => r.id = id ∧ r.userSub = userSub

/-- The row of a session code and a file name. -/
def Ingester.rowByName (i : Ingester Id) (userSub simpleCode filename : Str) :
    Option (AudioRow Id) :=
  i.rows.find? fun r => r.userSub = userSub ∧ r.originalSessionCode = some simpleCode ∧
    (r.storedFilename = filename ∨ like ('%' :: '/' :: filename) r.storedFilename)

def found {α : Type} : Option α → Response α
  | none => .status 404
  | some a => .ok a

/-- `audio_lookup`, by `simple_code` and `stored_filename`. -/
def Ingester.lookupByName (i : Ingester Id) (userSub simpleCode filename : Str) :
    Response (AudioRow Id) :=
  if i.reachable = false then .unreachable
  else if i.tokenAccepted = false then .status 401
  else if strip userSub = [] then .status 400
  else if strip simpleCode = [] ∨ strip filename = [] then .status 400
  else if i.dbReady = false then .status 503
  else found (i.rowByName (strip userSub) (strip simpleCode) (strip filename))

/-- `audio_lookup`, by `uaf_id`. -/
def Ingester.lookupById (i : Ingester Id) (userSub : Str) (id : Id) : Response (AudioRow Id) :=
  if i.reachable = false then .unreachable
  else if i.tokenAccepted = false then .status 401
  else if strip userSub = [] then .status 400
  else if i.dbReady = false then .status 503
  else found (i.rowById (strip userSub) id)

/-- The three edits. Of the indices of a PATCH it is known what `int` made of them. -/
inductive Edit where
  | hiddenBlocks (indices : Except PyError (List Int))
  | deleteHiddenBlocks
  | reFilter (lower : Str → Str) (phrases : List (Str × Str))

/-- The request that the edit is for a row, or the status of its refusal. -/
def Edit.request : Edit → Except Nat Request
  | hiddenBlocks (.ok raw) => .ok (.patchHidden raw)
  | hiddenBlocks (.error .typeError) => .error 400
  | hiddenBlocks (.error .valueError) => .error 400
  | hiddenBlocks (.error _) => .error 500
  | deleteHiddenBlocks => .ok .deleteHidden
  | reFilter lower phrases => .ok (.reFilter lower phrases)

/-- The row with another content. -/
def Ingester.store (i : Ingester Id) (id : Id) (content : Audio) : Ingester Id :=
  { i with
    rows := i.rows.map fun r => if r.id = id then { r with content := content } else r
    ids_nodup := by
      have hid : (i.rows.map fun r => if r.id = id then { r with content := content } else r).map
          AudioRow.id = i.rows.map AudioRow.id := by
        rw [List.map_map]
        refine List.map_congr_left fun r _ => ?_
        rw [Function.comp_apply]
        split <;> rfl
      rw [hid]
      exact i.ids_nodup }

/-- `api_patch_hidden_blocks`, `api_delete_hidden_blocks` and `api_re_filter_forbidden`. -/
def Ingester.edit (i : Ingester Id) (userSub : Str) (id : Id) (e : Edit) :
    Response Unit × Ingester Id :=
  if i.reachable = false then (.unreachable, i)
  else if i.tokenAccepted = false then (.status 401, i)
  else if i.dbReady = false then (.status 503, i)
  else if strip userSub = [] then (.status 400, i)
  else match e.request with
    | .error code => (.status code, i)
    | .ok request =>
        match i.rowById (strip userSub) id with
        | none => (.status 404, i)
        | some row =>
            match request.apply row.content with
            | .error _ => (.status 500, i)
            | .ok content => (.ok (), i.store id content)

/-! ## The portal -/

/-- `get_owned_file` -/
def getOwnedFile (w : World Id) (userSub : Str) (id : Id) : Option UploadedFile := do
  let f ← w.files id
  let s ← w.sessions f.sessionId
  if s.userSub = userSub ∧ f.trashed = false ∧ s.trashed = false then some f else none

/-- `lookup_audio_outputs` -/
def lookupAudioOutputs (w : World Id) (f : UploadedFile) : Option (AudioRow Id) :=
  match f.transcodedFilename.getD [], w.sessions f.sessionId with
  | [], _ => none
  | _, none => none
  | c :: name, some s =>
      match requestInternalIngesterApi (w.ingester.lookupByName s.userSub s.simpleCode (c :: name))
        with
      | .ok audio => audio
      | .error _ => none

/-- The audio of `_audio_or_404`, which transcript-status shows. -/
def audioOr404 (w : World Id) (userSub : Str) (id : Id) : Option (AudioRow Id) :=
  match getOwnedFile w userSub id with
  | some f => lookupAudioOutputs w f
  | none =>
      match requestInternalIngesterApi (w.ingester.lookupById userSub id) with
      | .ok audio => audio
      | .error _ => none

/-- `_resolve_internal_audio_id` -/
def resolveInternalAudioId (w : World Id) (userSub : Str) (id : Id) : Option Id := do
  let f ← getOwnedFile w userSub id
  let audio ← lookupAudioOutputs w f
  some audio.id

/-- The row that a request to the ingester for this id is about. -/
def Ingester.target (i : Ingester Id) (userSub : Str) (id : Id) : Option (AudioRow Id) :=
  if i.reachable ∧ i.tokenAccepted ∧ i.dbReady ∧ strip userSub ≠ [] then
    i.rowById (strip userSub) id
  else none

/-- The row that correct-term and regenerate act on. -/
def termTarget (w : World Id) (userSub : Str) (id : Id) : Option (AudioRow Id) :=
  (resolveInternalAudioId w userSub id).bind (w.ingester.target userSub)

/-- The row that the three edits act on: the id is passed on as it came. -/
def editTarget (w : World Id) (userSub : Str) (id : Id) : Option (AudioRow Id) :=
  w.ingester.target userSub id

inductive Reply where
  | ok
  | error (code : Nat)
  deriving DecidableEq

/-- `jsonify(data or {"ok": True})`, or an error. -/
def replyOf {α : Type} (response : Response α) : Reply :=
  match requestInternalIngesterApi response with
  | .ok _ => .ok
  | .error (.http code) => .error code
  | .error .connection => .error 500

/-- The three edits. -/
def editAudio (w : World Id) (userSub : Str) (id : Id) (e : Edit) : Reply × World Id :=
  (replyOf (w.ingester.edit userSub id e).1,
    { w with ingester := (w.ingester.edit userSub id e).2 })

/-! ## What a reply means -/

/-- Edits act on the row that the other endpoints act on, and are confirmed only when that
row was found and stored. -/
structure Honest (w : World Id) (userSub : Str) (id : Id) : Prop where
  status : editTarget w userSub id = audioOr404 w userSub id
  term : editTarget w userSub id = termTarget w userSub id
  reply : ∀ e w', editAudio w userSub id e = (.ok, w') →
    ∃ row request content, editTarget w userSub id = some row ∧ e.request = .ok request ∧
      request.apply row.content = .ok content ∧
        w' = { w with ingester := w.ingester.store id content }

/-! ## When it does -/

theorem rowById_some {i : Ingester Id} {userSub : Str} {id : Id} {row : AudioRow Id}
    (h : i.rowById userSub id = some row) : row ∈ i.rows ∧ row.id = id ∧ row.userSub = userSub := by
  have hmem := List.mem_of_find?_eq_some h
  have hrow := List.find?_some h
  simp only [decide_eq_true_eq] at hrow
  exact ⟨hmem, hrow⟩

/-- An id is the key of one row. -/
theorem rowById_of_mem {i : Ingester Id} {row : AudioRow Id} (h : row ∈ i.rows) :
    i.rowById row.userSub row.id = some row := by
  obtain ⟨row', hrow'⟩ : ∃ row', i.rowById row.userSub row.id = some row' := by
    rw [← Option.isSome_iff_exists, Ingester.rowById, List.find?_isSome]
    exact ⟨row, h, by simp⟩
  obtain ⟨hmem, hid, -⟩ := rowById_some hrow'
  rw [hrow', List.inj_on_of_nodup_map i.ids_nodup hmem h hid]

theorem target_some {i : Ingester Id} {userSub : Str} {id : Id} {row : AudioRow Id}
    (h : i.target userSub id = some row) :
    i.Answers userSub ∧ i.rowById (strip userSub) id = some row := by
  rw [Ingester.target] at h
  split at h
  · rename_i hanswers
    exact ⟨hanswers, h⟩
  · cases h

theorem target_of_answers {i : Ingester Id} {userSub : Str} (h : i.Answers userSub) (id : Id) :
    i.target userSub id = i.rowById (strip userSub) id := by
  obtain ⟨h₁, h₂, h₃, h₄⟩ := h
  rw [Ingester.target, if_pos ⟨h₁, h₂, h₃, h₄⟩]

theorem target_of_not {i : Ingester Id} {userSub : Str} (h : ¬ i.Answers userSub) (id : Id) :
    i.target userSub id = none := by
  cases ht : i.target userSub id with
  | none => rfl
  | some row => exact absurd (target_some ht).1 h

theorem requestInternalIngesterApi_found {α : Type} (o : Option α) :
    requestInternalIngesterApi (found o) = .ok o := by
  cases o <;> rfl

omit [DecidableEq Id] in
/-- A lookup that gives a row found it among the rows of that user. -/
theorem lookupByName_some {i : Ingester Id} {userSub simpleCode filename : Str}
    {row : AudioRow Id}
    (h : requestInternalIngesterApi (i.lookupByName userSub simpleCode filename) = .ok (some row)) :
    i.Answers userSub ∧ row ∈ i.rows ∧ row.userSub = strip userSub := by
  rw [Ingester.lookupByName] at h
  split at h
  · cases h
  split at h
  · cases h
  split at h
  · cases h
  split at h
  · cases h
  split at h
  · cases h
  rename_i h₁ h₂ h₃ h₄ h₅
  rw [requestInternalIngesterApi_found, Except.ok.injEq] at h
  have hrow := List.find?_some h
  simp only [decide_eq_true_eq] at hrow
  exact ⟨⟨by simpa using h₁, by simpa using h₂, by simpa using h₅, h₃⟩,
    List.mem_of_find?_eq_some h, hrow.1⟩

theorem lookupById_of_answers {i : Ingester Id} {userSub : Str} (h : i.Answers userSub) (id : Id) :
    requestInternalIngesterApi (i.lookupById userSub id) = .ok (i.target userSub id) := by
  rw [target_of_answers h]
  obtain ⟨h₁, h₂, h₃, h₄⟩ := h
  rw [Ingester.lookupById, if_neg (by simp [h₁]), if_neg (by simp [h₂]), if_neg h₄,
    if_neg (by simp [h₃]), requestInternalIngesterApi_found]

theorem lookupById_some {i : Ingester Id} {userSub : Str} {id : Id} {row : AudioRow Id}
    (h : requestInternalIngesterApi (i.lookupById userSub id) = .ok (some row)) :
    i.Answers userSub := by
  rw [Ingester.lookupById] at h
  split at h
  · cases h
  split at h
  · cases h
  split at h
  · cases h
  split at h
  · cases h
  rename_i h₁ h₂ h₃ h₄
  exact ⟨by simpa using h₁, by simpa using h₂, by simpa using h₄, h₃⟩

omit [DecidableEq Id] in
theorem getOwnedFile_some {w : World Id} {userSub : Str} {id : Id} {f : UploadedFile}
    (h : getOwnedFile w userSub id = some f) :
    ∃ s, w.sessions f.sessionId = some s ∧ s.userSub = userSub := by
  simp only [getOwnedFile, Option.bind_eq_bind, Option.bind_eq_some_iff] at h
  obtain ⟨f', -, s, hs, h⟩ := h
  split at h
  · rename_i howned
    injection h with h
    subst h
    exact ⟨s, hs, howned.1⟩
  · cases h

omit [DecidableEq Id] in
/-- The audio of an owned file is a row of its user. -/
theorem lookupAudioOutputs_some {w : World Id} {userSub : Str} {id : Id} {f : UploadedFile}
    {row : AudioRow Id} (hf : getOwnedFile w userSub id = some f)
    (h : lookupAudioOutputs w f = some row) :
    w.ingester.Answers userSub ∧ row ∈ w.ingester.rows ∧ row.userSub = strip userSub := by
  obtain ⟨s, hs, rfl⟩ := getOwnedFile_some hf
  rw [lookupAudioOutputs, hs] at h
  cases hname : f.transcodedFilename.getD [] with
  | nil => rw [hname] at h; cases h
  | cons c name =>
      rw [hname] at h
      dsimp only at h
      cases hlookup : requestInternalIngesterApi
          (w.ingester.lookupByName s.userSub s.simpleCode (c :: name)) with
      | error e => rw [hlookup] at h; cases h
      | ok audio =>
          rw [hlookup] at h
          dsimp only at h
          exact lookupByName_some (hlookup.trans (congrArg Except.ok h))

theorem termTarget_of_owned {w : World Id} {userSub : Str} {id : Id} {f : UploadedFile}
    (hf : getOwnedFile w userSub id = some f) : termTarget w userSub id =
      (lookupAudioOutputs w f).bind fun row => w.ingester.target userSub row.id := by
  rw [termTarget, resolveInternalAudioId, hf]
  cases hrow : lookupAudioOutputs w f <;> simp [hrow]

theorem termTarget_of_not_owned {w : World Id} {userSub : Str} {id : Id}
    (hf : getOwnedFile w userSub id = none) : termTarget w userSub id = none := by
  rw [termTarget, resolveInternalAudioId, hf]
  rfl

theorem replyOf_status {α : Type} {code : Nat} :
    replyOf (.status code : Response α) = .ok ↔ code = 404 := by
  rw [replyOf, requestInternalIngesterApi]
  by_cases h : code = 404 <;> simp [h]

theorem request_status {e : Edit} {code : Nat} (h : e.request = .error code) : code ≠ 404 := by
  rintro rfl
  cases e with
  | hiddenBlocks indices =>
      cases indices with
      | ok raw => cases h
      | error err => cases err <;> simp [Edit.request] at h
  | deleteHiddenBlocks => cases h
  | reFilter lower phrases => cases h

theorem edit_of_not_answers {i : Ingester Id} {userSub : Str} (h : ¬ i.Answers userSub) (id : Id)
    (e : Edit) : replyOf (i.edit userSub id e).1 ≠ .ok := by
  rw [Ingester.edit]
  split
  · simp [replyOf, requestInternalIngesterApi]
  split
  · simp [replyOf_status]
  split
  · simp [replyOf_status]
  split
  · simp [replyOf_status]
  rename_i h₁ h₂ h₃ h₄
  exact absurd ⟨by simpa using h₁, by simpa using h₂, by simpa using h₃, h₄⟩ h

theorem edit_of_answers {i : Ingester Id} {userSub : Str} (h : i.Answers userSub) (id : Id)
    (e : Edit) : i.edit userSub id e = match e.request with
      | .error code => (.status code, i)
      | .ok request =>
          match i.rowById (strip userSub) id with
          | none => (.status 404, i)
          | some row =>
              match request.apply row.content with
              | .error _ => (.status 500, i)
              | .ok content => (.ok (), i.store id content) := by
  obtain ⟨h₁, h₂, h₃, h₄⟩ := h
  rw [Ingester.edit, if_neg (by simp [h₁]), if_neg (by simp [h₂]), if_neg (by simp [h₃]),
    if_neg h₄]

/-- **A confirmation stands for a row**, unless the ingester said that there is none. -/
theorem editAudio_ok {w w' : World Id} {userSub : Str} {id : Id} {e : Edit}
    (h : editAudio w userSub id e = (.ok, w')) : w.ingester.Answers userSub ∧
      ∃ request, e.request = .ok request ∧
        (w.ingester.rowById (strip userSub) id = none ∧ w' = w ∨
          ∃ row content, w.ingester.rowById (strip userSub) id = some row ∧
            request.apply row.content = .ok content ∧
              w' = { w with ingester := w.ingester.store id content }) := by
  rw [editAudio, Prod.mk.injEq] at h
  obtain ⟨hok, rfl⟩ := h
  have hanswers : w.ingester.Answers userSub := by
    by_contra hnot
    exact edit_of_not_answers hnot id e hok
  refine ⟨hanswers, ?_⟩
  rw [edit_of_answers hanswers] at hok ⊢
  cases hrequest : e.request with
  | error code =>
      rw [hrequest] at hok
      exact absurd (replyOf_status.mp hok) (request_status hrequest)
  | ok request =>
      refine ⟨request, rfl, ?_⟩
      rw [hrequest] at hok
      dsimp only at hok ⊢
      cases hrow : w.ingester.rowById (strip userSub) id with
      | none => exact Or.inl ⟨rfl, rfl⟩
      | some row =>
          rw [hrow] at hok
          dsimp only at hok ⊢
          cases happly : request.apply row.content with
          | error err =>
              rw [happly] at hok
              exact absurd (replyOf_status.mp hok) (by decide)
          | ok content => exact Or.inr ⟨row, content, rfl, happly, rfl⟩

/-- A 404 of the ingester is confirmed. -/
theorem editAudio_missing {w : World Id} {userSub : Str} {id : Id}
    (hanswers : w.ingester.Answers userSub)
    (h : w.ingester.rowById (strip userSub) id = none) :
    editAudio w userSub id .deleteHiddenBlocks = (.ok, w) := by
  rw [editAudio, edit_of_answers hanswers, Edit.request]
  dsimp only
  rw [h]
  rfl

/-- **Edits are honest** for the id of an uploaded file whose audio row has the same id, and
for every id while the ingester does not answer. -/
theorem honest_iff (w : World Id) (userSub : Str) (id : Id) : Honest w userSub id ↔
    (w.ingester.Answers userSub → ∃ f row, getOwnedFile w userSub id = some f ∧
      lookupAudioOutputs w f = some row ∧ row.id = id) := by
  constructor
  · intro h hanswers
    have hedit : editTarget w userSub id = w.ingester.rowById (strip userSub) id :=
      target_of_answers hanswers id
    cases hrow : w.ingester.rowById (strip userSub) id with
    | none =>
        obtain ⟨row, -, -, htarget, -⟩ := h.reply _ _ (editAudio_missing hanswers hrow)
        rw [hedit, hrow] at htarget
        cases htarget
    | some row =>
        have hterm := h.term
        rw [hedit, hrow] at hterm
        cases hf : getOwnedFile w userSub id with
        | none => rw [termTarget_of_not_owned hf] at hterm; cases hterm
        | some f =>
            rw [termTarget_of_owned hf] at hterm
            obtain ⟨audio, haudio, htarget⟩ := Option.bind_eq_some_iff.mp hterm.symm
            refine ⟨f, audio, rfl, haudio, ?_⟩
            rw [← (rowById_some (target_some htarget).2).2.1, (rowById_some hrow).2.1]
  · intro h
    by_cases hanswers : w.ingester.Answers userSub
    · obtain ⟨f, row, hf, hrow, rfl⟩ := h hanswers
      obtain ⟨-, hmem, huser⟩ := lookupAudioOutputs_some hf hrow
      have htarget : w.ingester.target userSub row.id = some row := by
        rw [target_of_answers hanswers, ← huser, rowById_of_mem hmem]
      refine ⟨?_, ?_, fun e w' hok => ?_⟩
      · rw [editTarget, htarget, audioOr404, hf]
        exact hrow.symm
      · rw [editTarget, termTarget_of_owned hf, hrow]
        rfl
      · obtain ⟨-, request, hrequest, ⟨hnone, -⟩ | ⟨row', content, hrow', happly, hw'⟩⟩ :=
          editAudio_ok hok
        · rw [target_of_answers hanswers, hnone] at htarget
          cases htarget
        · refine ⟨row', request, content, ?_, hrequest, happly, hw'⟩
          rw [editTarget, target_of_answers hanswers, hrow']
    · have hnone : editTarget w userSub id = none := target_of_not hanswers id
      refine ⟨?_, ?_, fun e w' hok => absurd (editAudio_ok hok).1 hanswers⟩
      · rw [hnone, audioOr404]
        cases hf : getOwnedFile w userSub id with
        | some f =>
            dsimp only
            cases hrow : lookupAudioOutputs w f with
            | none => rfl
            | some row => exact absurd (lookupAudioOutputs_some hf hrow).1 hanswers
        | none =>
            dsimp only
            cases hlookup : requestInternalIngesterApi (w.ingester.lookupById userSub id) with
            | error e => rfl
            | ok audio =>
                cases audio with
                | none => rfl
                | some row => exact absurd (lookupById_some hlookup) hanswers
      · rw [hnone, termTarget]
        cases resolveInternalAudioId w userSub id with
        | none => rfl
        | some internal => exact (target_of_not hanswers internal).symm

/-- An id without an uploaded file is that of the audio row itself, for edits as for
transcript-status. -/
theorem external_edit {w : World Id} {userSub : Str} {id : Id}
    (hanswers : w.ingester.Answers userSub) (hf : getOwnedFile w userSub id = none) :
    editTarget w userSub id = audioOr404 w userSub id := by
  rw [audioOr404, hf]
  dsimp only
  rw [lookupById_of_answers hanswers]
  rfl

end Endpoints

/-! ## An uploaded file -/

/-- A user, a session with an uploaded file of id 1, and its audio row of id 2. -/
def uploaded : World Nat where
  sessions n := if n = 0 then some ⟨['u'], ['c'], false⟩ else none
  files n := if n = 1 then some ⟨0, some ['f'], false⟩ else none
  ingester :=
    { reachable := true
      tokenAccepted := true
      dbReady := true
      rows := [⟨2, ['u'], some ['c'], ['u', '/', 'c', '/', 'f'], ⟨none, none, [0]⟩⟩]
      ids_nodup := by decide }

/-- Its edits are confirmed, and no row has been looked at. -/
theorem uploaded_not_honest :
    (audioOr404 uploaded ['u'] 1).isSome ∧ ¬ Honest uploaded ['u'] 1 := by
  refine ⟨rfl, fun h => ?_⟩
  have hanswers : uploaded.ingester.Answers ['u'] := ⟨rfl, rfl, rfl, by decide⟩
  have hmissing : uploaded.ingester.rowById (strip ['u']) 1 = none := by
    decide
  obtain ⟨row, -, -, htarget, -⟩ := h.reply _ _ (editAudio_missing hanswers hmissing)
  rw [editTarget, target_of_answers hanswers, hmissing] at htarget
  cases htarget

end MesReunions.Portal
