import MesReunions.Base.Replace
import MesReunions.Queue.Drain

/-!
# The importer of MCR meetings

`dmz-to-internal-bridge/app/mcr_importer.py`, `_handle_message`: the callback of the queue
`mcr_import`. What the DMZ, the OIDC provider, MCR, the store of objects and the database answer
while one message is handled is its `Answers`.

* **`process`** — `_handle_message`, with the reason of the failure where it returns `False`.
* **`process_failed`** — a failure that the worker classifies is written to the row of the message,
  by `_set_failed` and by nothing before it.
-/

namespace MesReunions.Mcr

open Queue

/-! ## Rows -/

inductive Status where
  | pending
  | mcrImportPending
  | mcrImportFailed
  | mcrTranscriptOnly
  /-- Any status of the other pipelines. -/
  | other (status : Str)
deriving DecidableEq

/-- A row of `user_audio_files`, less the columns that the importer only writes. -/
structure UserAudioFile where
  userSub : Str
  mcrMeetingId : Option Str
  /-- `origin == "mcr_import"` -/
  mcrImport : Bool
  status : Status
  lastErrorKind : Option Str
  lastErrorMessage : Option Str

/-- The table, in the order of creation. The id of a row is its place. -/
structure Store where
  rows : List UserAudioFile

def Store.setStatus (s : Store) (i : Nat) (status : Status) : Store :=
  ⟨s.rows.modify i fun r => { r with status }⟩

/-! ## Failures -/

inductive ExcKind where
  | oidcAuth
  | oidcTransient
  | oidcApplicative
  | mcrAuth
  | mcrTransient
  | mcrApplicative
  | other
deriving DecidableEq

/-- An exception and its `str(exc)`. -/
structure Exc where
  kind : ExcKind
  text : Str

inductive Reason where
  | auth
  | oidcOther
  | mcrAuth
  | audio
  | noAudioNoFallback
  | transcript
  | noTranscript

/-- `_REASON_TO_KIND` -/
def Reason.errorKind : Reason → Str
  | .auth => "mcr_oidc_auth".toList
  | .oidcOther => "mcr_oidc_other".toList
  | .mcrAuth => "mcr_auth_failed".toList
  | .audio => "mcr_audio_error".toList
  | .noAudioNoFallback => "mcr_audio_404".toList
  | .transcript => "mcr_transcript_error".toList
  | .noTranscript => "mcr_unavailable_on_source".toList

/-- What is answered while one message is handled. -/
structure Answers where
  /-- `_exchange_refresh_for_user` -/
  token : Except Exc Unit
  /-- What `MCRClient(...)` raises, without a gateway or an endpoint. -/
  client : Option Exc
  /-- `client.download_audio` -/
  audio : Except Exc Unit
  /-- The audio is read, transcoded, uploaded, and its row is written. -/
  audioStored : Except Exc Unit
  /-- `client.download_transcription_docx` -/
  docx : Except Exc Unit
  /-- The text is extracted and its row is written. -/
  textStored : Except Exc Unit
  /-- What starting the thread of the LLM chain raises. -/
  thread : Option Exc
  /-- The session of `_set_failed` commits. -/
  failureSaved : Bool

/-- `_set_failed`, which logs its own failures. -/
def setFailed (a : Answers) (s : Store) (i : Nat) (reason : Reason) (message : Option Str) :
    Store :=
  if a.failureSaved then
    ⟨s.rows.modify i fun r => { r with
      status := .mcrImportFailed
      lastErrorKind := some reason.errorKind
      lastErrorMessage := match message with
        | some text => if text = [] then r.lastErrorMessage else some (text.take 4000)
        | none => r.lastErrorMessage }⟩
  else s

/-! ## The handler -/

/-- The configuration, and the two conversions of the standard library. -/
structure Externals where
  /-- `json.loads` -/
  loads : Bytes → Option Json
  /-- `str(v)` -/
  str : Json → Str
  /-- The row id that a value is, where it is a UUID. -/
  uuid : Json → Option Nat
  /-- `QUEUE_MAX_RETRIES` -/
  maxRetries : Int

/-- How `_handle_message` returns. -/
inductive Verdict where
  | imported
  | malformed
  | failed (reason : Reason)

/-- The fields of a message, as `_handle_message` reads them. -/
structure Import where
  audioFileId : Option Json
  mcrMeetingId : Str
  userSub : Json
  fallbackTranscript : Bool

/-- `v or ""` -/
def orEmpty (v : Option Json) : Json := (v.filter Json.truthy).getD (.str [])

def Import.ofFields (x : Externals) (fields : List (Str × Json)) : Import where
  audioFileId := (Json.get? fields "user_audio_file_id".toList).filter Json.truthy
  mcrMeetingId := x.str (orEmpty (Json.get? fields "mcr_meeting_id".toList))
  userSub := orEmpty (Json.get? fields "user_sub".toList)
  fallbackTranscript := (Json.get? fields "fallback_transcript".toList).all Json.truthy

/-- The row with the id of the message. -/
def rowById (x : Externals) (msg : Import) (s : Store) : Except Exc (Option Nat) :=
  match msg.audioFileId with
  | none => .ok none
  | some v =>
      match x.uuid v with
      | some i => .ok (if i < s.rows.length then some i else none)
      | none => .error ⟨.other, "badly formed hexadecimal UUID string".toList⟩

/-- The import of the same meeting by the same user. -/
def rowByMeeting (msg : Import) (s : Store) : Except Exc (Option Nat) :=
  match msg.userSub with
  | .str user => .ok (s.rows.findIdx? fun r =>
      r.userSub = user && r.mcrMeetingId = some msg.mcrMeetingId && r.mcrImport)
  | _ => .error ⟨.other, "operator does not exist".toList⟩

/-- The row of a message. -/
def rowOf (x : Externals) (msg : Import) (s : Store) : Except Exc (Option Nat) :=
  match rowById x msg s with
  | .error e => .error e
  | .ok (some i) => .ok (some i)
  | .ok none => rowByMeeting msg s

/-- The row is created, or put back to `mcr_import_pending` unless its audio waits. -/
def openRow (x : Externals) (msg : Import) (s : Store) : Except Exc (Nat × Store) :=
  match rowOf x msg s with
  | .error e => .error e
  | .ok (some i) =>
      .ok (i, ⟨s.rows.modify i fun r =>
        if r.status = .pending then r else { r with status := .mcrImportPending }⟩)
  | .ok none =>
      match msg.userSub with
      | .str user => .ok (s.rows.length,
          ⟨s.rows ++ [⟨user, some msg.mcrMeetingId, true, .mcrImportPending, none, none⟩]⟩)
      | _ => .error ⟨.other, "can't adapt type".toList⟩

/-- `_import_meeting_audio` -/
def importMeetingAudio (a : Answers) (i : Nat) : EStateM Exc Store Bool := fun s =>
  match a.audio with
  | .error e => if e.kind = .mcrApplicative then .ok false s else .error e s
  | .ok () =>
      match a.audioStored with
      | .error e => .error e s
      | .ok () => .ok true (s.setStatus i .pending)

/-- `_import_meeting_transcript` -/
def importMeetingTranscript (a : Answers) (i : Nat) : EStateM Exc Store Bool := fun s =>
  match a.docx with
  | .error e =>
      if e.kind = .mcrApplicative && Str.contains "No transcription available".toList e.text
      then .ok false s else .error e s
  | .ok () =>
      match a.textStored with
      | .error e => .error e s
      | .ok () =>
          match a.thread with
          | some e => .error e (s.setStatus i .mcrTranscriptOnly)
          | none => .ok true (s.setStatus i .mcrTranscriptOnly)

/-- A failure that the queue should not retry: `_set_failed(...)`, `return False`. -/
def giveUp (a : Answers) (i : Nat) (reason : Reason) (message : Option Str) :
    EStateM Exc Store Verdict := fun s =>
  .ok (.failed reason) (setFailed a s i reason message)

/-- From the transcript on. -/
def fallback (a : Answers) (i : Nat) : EStateM Exc Store Verdict := fun s =>
  match importMeetingTranscript a i s with
  | .error e s =>
      if e.kind = .mcrTransient then .error e s
      else giveUp a i .transcript (some e.text) s
  | .ok true s => .ok .imported s
  | .ok false s => giveUp a i .noTranscript
      (some "Audio et compte-rendu indisponibles sur Compte-Rendu Mirai".toList) s

/-- From the audio on. -/
def importMeeting (a : Answers) (msg : Import) (i : Nat) : EStateM Exc Store Verdict := fun s =>
  match importMeetingAudio a i s with
  | .error e s =>
      if e.kind = .mcrAuth ∨ e.kind = .oidcAuth then giveUp a i .mcrAuth (some e.text) s
      else if e.kind = .mcrTransient then .error e s
      else giveUp a i .audio (some e.text) s
  | .ok true s => .ok .imported s
  | .ok false s =>
      if msg.fallbackTranscript then fallback a i s
      else giveUp a i .noAudioNoFallback none s

/-- From the token on. -/
def authenticate (a : Answers) (msg : Import) (i : Nat) : EStateM Exc Store Verdict := fun s =>
  match a.token with
  | .error e =>
      if e.kind = .oidcAuth then giveUp a i .auth none s
      else if e.kind = .oidcTransient then .error e s
      else giveUp a i .oidcOther none s
  | .ok () =>
      match a.client with
      | some e => .error e s
      | none => importMeeting a msg i s

/-- `_handle_message` -/
def process (x : Externals) (a : Answers) (msg : Import) : EStateM Exc Store Verdict := fun s =>
  if msg.mcrMeetingId = [] ∨ msg.userSub.truthy = false then .ok .malformed s
  else
    match openRow x msg s with
    | .error e => .error e s
    | .ok (i, s) => authenticate a msg i s

/-- `return True`, `return False` -/
def Verdict.success : Verdict → Bool
  | .imported => true
  | _ => false

def handleMessage (x : Externals) (a : Answers) (message : Json) : EStateM Exc Store Bool :=
  match message with
  | .obj fields => Verdict.success <$> process x a (.ofFields x fields)
  | _ => throw ⟨.other, "object has no attribute 'get'".toList⟩

/-- `consume_queue(cfg, QUEUE_MCR_IMPORT, ...)`: no `on_give_up` is given. -/
def importer (x : Externals) (a : Answers) : Policy Exc Store where
  loads := x.loads
  callback := handleMessage x a
  maxRetries := x.maxRetries
  onGiveUp := none

/-! ## What a failure leaves in the row -/

variable {x : Externals} {a : Answers} {msg : Import} {i : Nat} {s s' : Store} {reason : Reason}

/-- Row `i` exists and is not failed. -/
def Store.Open (s : Store) (i : Nat) : Prop :=
  ∃ r, s.rows[i]? = some r ∧ r.status ≠ .mcrImportFailed

def Store.Failed (s : Store) (i : Nat) : Prop :=
  ∃ r, s.rows[i]? = some r ∧ r.status = .mcrImportFailed

theorem open_setStatus {status : Status} (h : s.Open i) (hstatus : status ≠ .mcrImportFailed) :
    (s.setStatus i status).Open i := by
  obtain ⟨r, hr, -⟩ := h
  refine ⟨{ r with status }, ?_, hstatus⟩
  simp [Store.setStatus, hr]

/-- `_set_failed` fails the row exactly when its session commits. -/
theorem failed_setFailed_iff {message : Option Str} (h : s.Open i) :
    (setFailed a s i reason message).Failed i ↔ a.failureSaved = true := by
  obtain ⟨r, hr, hopen⟩ := h
  unfold setFailed
  cases a.failureSaved with
  | true => simp [Store.Failed, hr]
  | false => simpa [Store.Failed, hr] using hopen

/-- The columns that a row is looked up by. -/
def UserAudioFile.key (r : UserAudioFile) : Str × Option Str × Bool :=
  (r.userSub, r.mcrMeetingId, r.mcrImport)

def Store.keys (s : Store) : List (Str × Option Str × Bool) := s.rows.map UserAudioFile.key

theorem rowOf_congr (h : s'.keys = s.keys) : rowOf x msg s' = rowOf x msg s := by
  have hlength : s'.rows.length = s.rows.length := by
    have := congrArg List.length h
    simpa [Store.keys] using this
  have hmeeting : rowByMeeting msg s' = rowByMeeting msg s := by
    unfold rowByMeeting
    cases msg.userSub with
    | str user =>
        have hfind : ∀ t : Store, (t.rows.findIdx? fun r =>
            r.userSub = user && r.mcrMeetingId = some msg.mcrMeetingId && r.mcrImport) =
              t.keys.findIdx? fun k => k.1 = user && k.2.1 = some msg.mcrMeetingId && k.2.2 := by
          intro t
          rw [Store.keys, List.findIdx?_map]
          rfl
        simp only [hfind, h]
    | _ => rfl
  unfold rowOf rowById
  rw [hlength, hmeeting]

theorem keys_modify {f : UserAudioFile → UserAudioFile} (hf : ∀ r, (f r).key = r.key) :
    Store.keys ⟨s.rows.modify i f⟩ = s.keys := by
  apply List.ext_getElem?
  intro k
  simp only [Store.keys, List.getElem?_map, List.getElem?_modify]
  cases s.rows[k]? with
  | none => rfl
  | some r =>
      split
      · exact congrArg some (hf r)
      · rfl

theorem keys_setStatus {status : Status} : (s.setStatus i status).keys = s.keys :=
  keys_modify fun _ => rfl

theorem keys_setFailed {message : Option Str} : (setFailed a s i reason message).keys = s.keys := by
  unfold setFailed
  split
  · exact keys_modify fun _ => rfl
  · rfl

theorem rowById_lt (h : rowById x msg s = .ok (some i)) : i < s.rows.length := by
  unfold rowById at h
  split at h
  · cases h
  · split at h
    · split at h
      · rename_i hlt
        cases h
        exact hlt
      · cases h
    · cases h

theorem rowOf_lt (h : rowOf x msg s = .ok (some i)) : i < s.rows.length := by
  unfold rowOf at h
  split at h
  · cases h
  · rename_i hid
    cases h
    exact rowById_lt hid
  · unfold rowByMeeting at h
    split at h
    · injection h with h
      exact (List.findIdx?_eq_some_iff_getElem.mp h).1
    · cases h

/-- A message that finds no row finds the one that is created for it. -/
theorem rowOf_append {user : Str} {r : UserAudioFile} (huser : msg.userSub = .str user)
    (h : rowOf x msg s = .ok none) (hkey : r.key = (user, some msg.mcrMeetingId, true)) :
    rowOf x msg ⟨s.rows ++ [r]⟩ = .ok (some s.rows.length) := by
  have hmeeting : rowByMeeting msg ⟨s.rows ++ [r]⟩ = .ok (some s.rows.length) := by
    have hnone : rowByMeeting msg s = .ok none := by
      unfold rowOf at h
      split at h
      · cases h
      · cases h
      · exact h
    simp only [UserAudioFile.key, Prod.mk.injEq] at hkey
    simp only [rowByMeeting, huser, Except.ok.injEq] at hnone ⊢
    simp [List.findIdx?_append, hnone, hkey]
  unfold rowOf
  cases hid : rowById x msg s with
  | error e => simp [rowOf, hid] at h
  | ok found =>
      cases found with
      | some j => simp [rowOf, hid] at h
      | none =>
          unfold rowById at hid ⊢
          split at hid
          · exact hmeeting
          · split at hid
            · rename_i j _
              split at hid
              · cases hid
              · rename_i hlt
                -- An id that is no row's may only be the new one.
                by_cases hj : j = s.rows.length
                · simp [hj]
                · have hge : ¬ j < s.rows.length + 1 := by omega
                  simpa [hge] using hmeeting
            · cases hid

/-- Row `i` is the one that the message finds, and it is not failed. -/
structure Ready (x : Externals) (msg : Import) (i : Nat) (s : Store) : Prop where
  isOpen : s.Open i
  found : rowOf x msg s = .ok (some i)

theorem Ready.setStatus {status : Status} (h : Ready x msg i s)
    (hstatus : status ≠ .mcrImportFailed) : Ready x msg i (s.setStatus i status) where
  isOpen := open_setStatus h.isOpen hstatus
  found := (rowOf_congr keys_setStatus).trans h.found

/-- The row that is opened is the one that the message finds from then on. -/
theorem openRow_ok (h : openRow x msg s = .ok (i, s')) : Ready x msg i s' := by
  unfold openRow at h
  split at h
  · cases h
  · rename_i j hrow
    cases h
    have hkeys : ∀ r : UserAudioFile, (if r.status = .pending then r
        else { r with status := .mcrImportPending }).key = r.key := by
      intro r
      split <;> rfl
    refine ⟨?_, (rowOf_congr (keys_modify hkeys)).trans hrow⟩
    have hlt := rowOf_lt hrow
    refine ⟨_, by rw [List.getElem?_modify_eq, List.getElem?_eq_getElem hlt]; rfl, ?_⟩
    dsimp only
    split
    · rename_i hpending
      rw [hpending]
      exact fun hfailed => by cases hfailed
    · exact fun hfailed => by cases hfailed
  · rename_i hrow
    split at h
    · rename_i user huser
      cases h
      refine ⟨⟨_, List.getElem?_concat_length, ?_⟩, rowOf_append huser hrow rfl⟩
      exact fun hfailed => by cases hfailed
    · cases h

/-- `_set_failed` has been called last, on the row of the message. -/
def GaveUp (x : Externals) (a : Answers) (msg : Import) (reason : Reason) (s : Store) : Prop :=
  ∃ i t message, Ready x msg i t ∧ s = setFailed a t i reason message

theorem gaveUp_of_giveUp {given : Reason} {message : Option Str} (hready : Ready x msg i s)
    (h : giveUp a i given message s = .ok (.failed reason) s') : GaveUp x a msg reason s' := by
  cases h
  exact ⟨i, s, message, hready, rfl⟩

/-- The transcript may be written before the failure, which leaves the row unfailed. -/
theorem ready_importMeetingTranscript (hready : Ready x msg i s) {r : EStateM.Result Exc Store Bool}
    (h : importMeetingTranscript a i s = r) : Ready x msg i (appAfter r) := by
  subst h
  have hset : Ready x msg i (s.setStatus i .mcrTranscriptOnly) :=
    hready.setStatus (by decide)
  unfold importMeetingTranscript
  split
  · split <;> exact hready
  · split
    · exact hready
    · split <;> exact hset

theorem fallback_failed (hready : Ready x msg i s)
    (h : fallback a i s = .ok (.failed reason) s') : GaveUp x a msg reason s' := by
  unfold fallback at h
  split at h
  · rename_i htranscript
    split at h
    · cases h
    · exact gaveUp_of_giveUp (ready_importMeetingTranscript hready htranscript) h
  · cases h
  · rename_i htranscript
    exact gaveUp_of_giveUp (ready_importMeetingTranscript hready htranscript) h

/-- The audio is written last, so that a failure leaves the row as it was. -/
theorem importMeetingAudio_kept {t : Store} {e : Exc}
    (h : importMeetingAudio a i s = .error e t ∨ importMeetingAudio a i s = .ok false t) :
    t = s := by
  unfold importMeetingAudio at h
  split at h
  · split at h <;> rcases h with h | h <;> cases h
    · rfl
    · rfl
  · split at h <;> rcases h with h | h <;> cases h
    rfl

theorem importMeeting_failed (hready : Ready x msg i s)
    (h : importMeeting a msg i s = .ok (.failed reason) s') : GaveUp x a msg reason s' := by
  unfold importMeeting at h
  split at h
  · rename_i haudio
    cases importMeetingAudio_kept (.inl haudio)
    split at h
    · exact gaveUp_of_giveUp hready h
    · split at h
      · cases h
      · exact gaveUp_of_giveUp hready h
  · cases h
  · rename_i haudio
    cases importMeetingAudio_kept (e := ⟨.other, []⟩) (.inr haudio)
    split at h
    · exact fallback_failed hready h
    · exact gaveUp_of_giveUp hready h

/-- **A failure that the worker classifies** ends in `_set_failed`, on the row of the message. -/
theorem process_failed (h : process x a msg s = .ok (.failed reason) s') :
    GaveUp x a msg reason s' := by
  unfold process at h
  split at h
  · cases h
  split at h
  · cases h
  rename_i hopened
  have hready := openRow_ok hopened
  unfold authenticate at h
  split at h
  · split at h
    · exact gaveUp_of_giveUp hready h
    · split at h
      · cases h
      · exact gaveUp_of_giveUp hready h
  · split at h
    · cases h
    · exact importMeeting_failed hready h

/-- The row of the message is failed. -/
def RowFailed (x : Externals) (msg : Import) (s : Store) : Prop :=
  ∃ i, rowOf x msg s = .ok (some i) ∧ s.Failed i

theorem GaveUp.rowFailed_iff (h : GaveUp x a msg reason s) :
    RowFailed x msg s ↔ a.failureSaved = true := by
  obtain ⟨i, t, message, hready, rfl⟩ := h
  have hfound : rowOf x msg (setFailed a t i reason message) = .ok (some i) :=
    (rowOf_congr keys_setFailed).trans hready.found
  have hiff : (setFailed a t i reason message).Failed i ↔ a.failureSaved = true :=
    failed_setFailed_iff hready.isOpen
  rw [← hiff]
  constructor
  · rintro ⟨j, hj, hfailed⟩
    rw [hfound] at hj
    cases hj
    exact hfailed
  · intro hfailed
    exact ⟨i, hfound, hfailed⟩

end MesReunions.Mcr
