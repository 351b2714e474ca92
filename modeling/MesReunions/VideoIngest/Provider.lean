import MesReunions.VideoIngest.Classify
import MesReunions.VideoIngest.Attempts

/-!
# What the platform answers, and what becomes of the job

`providers/youtube/metadata.py`, `subtitles.py`, `audio.py` and `orchestrator.run_job`: the calls
to the platform, what each may raise, and the exception that ends the run.

* **`kind_of_run`** — the run ends with a temporary error exactly when a call that classifies its
  errors raised one whose message is temporary.
* **`settled_iff`** — the job is then put back; anything else fails it.
* **`fetch_not_settled`** — the download of the subtitles does not classify.
-/

namespace MesReunions.VideoIngest

open Str

/-! ## The platform -/

/-- What a call to `yt-dlp` raises. -/
inductive YdlError where
  | download (msg : Str)
  | other (msg : Str)

/-- What `api.list` raises. -/
inductive ListError where
  | videoUnavailable (msg : Str)
  | transcriptsDisabled (msg : Str)
  | other (type msg : Str)

/-- What `find_manually_created_transcript` and `find_generated_transcript` raise. -/
inductive FindError where
  | noTranscriptFound
  | other (type msg : Str)

/-- What `provider.fetch_audio_bytes` meets. -/
inductive AudioError where
  | ydl (e : YdlError)
  | noFlac
  | notImplemented (msg : Str)

/-- The answers to the calls of one run. -/
structure Calls where
  /-- `_select_provider` and `parse_canonical_id`: the id of the video. -/
  parsed : Except Str Str
  /-- The source, when it is known with a transcript. -/
  cached : Option Nat
  /-- `extract_info`: whether there was anything in it. -/
  info : Except YdlError Bool
  oembedEnabled : Bool
  /-- `_fetch_oembed`: whether there was a title. -/
  oembed : Except Str Bool
  videoSourceId : Nat
  listing : Except ListError Unit
  manual : Except FindError Unit
  generated : Except FindError Unit
  /-- `chosen.fetch()`: whether there were segments. -/
  fetched : Except (Str × Str) Bool
  audio : Except AudioError Unit
  /-- `_notify_materialize_audio` -/
  materialized : Bool

/-- The error at the origin of the exception that ends a run. -/
inductive Raised where
  | parsing (msg : Str)
  | info (e : YdlError)
  | oembed (msg : Str)
  | emptyInfo (msg : Str)
  | listing (e : ListError)
  | finding (type msg : Str)
  | fetching (type msg : Str)
  | audio (e : AudioError)
  | materialize

/-- Its message, as the classification reads it. -/
def Raised.message : Raised → Str
  | .parsing msg => msg
  | .info (.download msg) => msg
  | .info (.other msg) => msg
  | .oembed msg => msg
  | .emptyInfo msg => msg
  | .listing (.videoUnavailable msg) => msg
  | .listing (.transcriptsDisabled msg) => msg
  | .listing (.other type msg) => type ++ ": ".toList ++ msg
  | .finding type msg => type ++ ": ".toList ++ msg
  | .fetching type msg => type ++ ": ".toList ++ msg
  | .audio (.ydl (.download msg)) => msg
  | .audio (.ydl (.other msg)) => msg
  | .audio .noFlac => "yt-dlp postprocess FLAC n'a rien produit".toList
  | .audio (.notImplemented msg) => msg
  | .materialize => "materialize-audio endpoint indisponible — refaire l'import plus tard".toList

/-- How a run fails. -/
structure Failure where
  raised : Raised
  exc : Exc

/-! ## The provider -/

variable (tables : Tables)

/-- `metadata.fetch(video_id)` -/
def fetchMetadata (c : Calls) (videoId : Str) : Except Failure Unit :=
  match c.info with
  | .error (.download msg) =>
      let err := classify tables msg []
      if err.kind = .transientProviderError ∧ c.oembedEnabled = true then
        match c.oembed with
        | .error msg' => .error ⟨.oembed msg', ⟨.other, msg'⟩⟩
        | .ok true => .ok ()
        | .ok false => .error ⟨.info (.download msg), err⟩
      else .error ⟨.info (.download msg), err⟩
  | .error (.other msg) => .error ⟨.info (.other msg), ⟨.other, msg⟩⟩
  | .ok true => .ok ()
  | .ok false =>
      let msg := "yt-dlp a renvoyé un payload vide pour ".toList ++ videoId
      .error ⟨.emptyInfo msg, ⟨.providerError, msg⟩⟩

/-- The choice of a transcript, written by hand or else generated. -/
def findTranscript (c : Calls) : Except Failure Bool :=
  match c.manual with
  | .ok () => .ok true
  | .error (.other type msg) => .error ⟨.finding type msg, ⟨.other, msg⟩⟩
  | .error .noTranscriptFound =>
      match c.generated with
      | .ok () => .ok true
      | .error (.other type msg) => .error ⟨.finding type msg, ⟨.other, msg⟩⟩
      | .error .noTranscriptFound => .ok false

/-- `chosen.fetch()`, which is in no `try`. -/
def fetchChosen (c : Calls) : Except Failure Bool :=
  match c.fetched with
  | .error (type, msg) => .error ⟨.fetching type msg, ⟨.other, msg⟩⟩
  | .ok segments => .ok segments

/-- `subtitles.fetch(video_id, languages)`: `false` for `SubtitlesUnavailable`, which `run_job`
catches. -/
def fetchSubtitles (c : Calls) (videoId : Str) : Except Failure Bool :=
  match c.listing with
  | .error (.videoUnavailable msg) =>
      .error ⟨.listing (.videoUnavailable msg), ⟨.videoUnavailable, msg⟩⟩
  | .error (.transcriptsDisabled _) => .ok false
  | .error (.other type msg) =>
      .error ⟨.listing (.other type msg), classify tables (type ++ ": ".toList ++ msg)
        ("Échec listing transcripts ".toList ++ videoId ++ ": ".toList)⟩
  | .ok () => do
      let found ← findTranscript c
      if found then fetchChosen c else .ok false

/-- `provider.fetch_audio_bytes(video_id)`; a missing method becomes `NeedsAudioFallback`. -/
def fetchAudioBytes (c : Calls) : Except Failure Unit :=
  match c.audio with
  | .ok () => .ok ()
  | .error (.ydl (.download msg)) => .error ⟨.audio (.ydl (.download msg)),
      classify tables msg "yt-dlp download failed: ".toList⟩
  | .error (.ydl (.other msg)) => .error ⟨.audio (.ydl (.other msg)), ⟨.other, msg⟩⟩
  | .error .noFlac => .error ⟨.audio .noFlac, ⟨.providerError, (Raised.audio .noFlac).message⟩⟩
  | .error (.notImplemented msg) =>
      .error ⟨.audio (.notImplemented msg), ⟨.needsAudioFallback, msg⟩⟩

/-- `_select_provider` and `parse_canonical_id` -/
def parseId (c : Calls) : Except Failure Str :=
  match c.parsed with
  | .ok videoId => .ok videoId
  | .error msg => .error ⟨.parsing msg, ⟨.providerError, msg⟩⟩

/-- Whether there is a transcript without the audio. -/
def subtitlesFor (c : Calls) (videoId : Str) (forceAudio : Bool) : Except Failure Bool :=
  if forceAudio then .ok false else fetchSubtitles tables c videoId

/-- The audio goes to the pipeline of the uploads. -/
def deferAudio (c : Calls) : Except Failure (Nat × Bool) := do
  fetchAudioBytes tables c
  if c.materialized then .ok (c.videoSourceId, false)
  else .error ⟨.materialize, ⟨.needsAudioFallback, Raised.materialize.message⟩⟩

/-- A source that is not known with a transcript. -/
def ingest (c : Calls) (videoId : Str) (forceAudio : Bool) : Except Failure (Nat × Bool) := do
  fetchMetadata tables c videoId
  let transcript ← subtitlesFor tables c videoId forceAudio
  if transcript then .ok (c.videoSourceId, false) else deferAudio tables c

/-- `run_job(conn, providers, job)`: the source, and whether it was reused. The statements on the
database succeed. -/
def runJob (c : Calls) (forceAudio : Bool) : Except Failure (Nat × Bool) := do
  let videoId ← parseId c
  match c.cached with
  | some videoSourceId => .ok (videoSourceId, true)
  | none => ingest tables c videoId forceAudio

/-- Which `except` of `run_and_record`, or of `run_forever`, takes the exception. -/
def Exc.outcome (e : Exc) : Outcome :=
  match e.kind with
  | .videoUnavailable => .videoUnavailable e.text
  | .transientProviderError => .transient e.text
  | .needsAudioFallback => .needsAudio e.text
  | .providerError | .subtitlesUnavailable => .providerError e.text
  | .other => .unexpected

/-! ## The exception that ends a run -/

/-- The call hands its errors to `classify`. -/
def Raised.Classified : Raised → Prop
  | .info (.download _) => True
  | .listing (.other _ _) => True
  | .audio (.ydl (.download _)) => True
  | _ => False

/-- The exception raised for an error is temporary when the error was classified as such. -/
def Failure.Faithful (f : Failure) : Prop :=
  f.exc.kind = .transientProviderError ↔
    f.raised.Classified ∧ isTransient tables f.raised.message = true

variable {tables}

theorem faithful_classified (raised : Raised) (h : raised.Classified) (before : Str) :
    Failure.Faithful tables ⟨raised, classify tables raised.message before⟩ := by
  rw [Failure.Faithful]
  dsimp only
  rw [classify_transient]
  exact ⟨fun ht => ⟨h, ht⟩, fun ht => ht.2⟩

theorem faithful_other {raised : Raised} (h : ¬ raised.Classified) {exc : Exc}
    (hexc : exc.kind ≠ .transientProviderError) : Failure.Faithful tables ⟨raised, exc⟩ :=
  ⟨fun hkind => absurd hkind hexc, fun hc => absurd hc.1 h⟩

theorem faithful_metadata {c : Calls} {videoId : Str} {f : Failure}
    (h : fetchMetadata tables c videoId = .error f) : f.Faithful tables := by
  rw [fetchMetadata] at h
  split at h
  · dsimp only at h
    split at h
    · split at h
      · cases h
        exact faithful_other (by simp [Raised.Classified]) (by simp)
      · cases h
      · cases h
        exact faithful_classified (.info (.download _)) trivial []
    · cases h
      exact faithful_classified (.info (.download _)) trivial []
  · cases h
    exact faithful_other (by simp [Raised.Classified]) (by simp)
  · cases h
  · cases h
    exact faithful_other (by simp [Raised.Classified]) (by simp)

/-- An `Except` chain fails at one of its links. -/
theorem bind_eq_error {ε α β : Type} {x : Except ε α} {f : α → Except ε β} {e : ε}
    (h : (x >>= f) = .error e) : x = .error e ∨ ∃ a, x = .ok a ∧ f a = .error e := by
  cases x with
  | error e' =>
      injection h with h
      exact Or.inl (by rw [h])
  | ok a => exact Or.inr ⟨a, rfl, h⟩

theorem faithful_find {c : Calls} {f : Failure} (h : findTranscript c = .error f) :
    f.Faithful tables := by
  rw [findTranscript] at h
  split at h
  · cases h
  · cases h
    exact faithful_other (by simp [Raised.Classified]) (by simp)
  · split at h
    · cases h
    · cases h
      exact faithful_other (by simp [Raised.Classified]) (by simp)
    · cases h

theorem faithful_subtitles {c : Calls} {videoId : Str} {f : Failure}
    (h : fetchSubtitles tables c videoId = .error f) : f.Faithful tables := by
  rw [fetchSubtitles] at h
  split at h
  · cases h
    exact faithful_other (by simp [Raised.Classified]) (by simp)
  · cases h
  · cases h
    exact faithful_classified (.listing (.other _ _)) trivial _
  · rcases bind_eq_error h with h | ⟨found, -, h⟩
    · exact faithful_find h
    · split at h
      · rw [fetchChosen] at h
        split at h
        · cases h
          exact faithful_other (by simp [Raised.Classified]) (by simp)
        · cases h
      · cases h

theorem faithful_audio {c : Calls} {f : Failure} (h : fetchAudioBytes tables c = .error f) :
    f.Faithful tables := by
  rw [fetchAudioBytes] at h
  split at h
  · cases h
  · cases h
    exact faithful_classified (.audio (.ydl (.download _))) trivial _
  all_goals
    cases h
    exact faithful_other (by simp [Raised.Classified]) (by simp)

theorem faithful_defer {c : Calls} {f : Failure} (h : deferAudio tables c = .error f) :
    f.Faithful tables := by
  rcases bind_eq_error h with h | ⟨_, -, h⟩
  · exact faithful_audio h
  · split at h
    · cases h
    · cases h
      exact faithful_other (by simp [Raised.Classified]) (by simp)

theorem faithful_ingest {c : Calls} {videoId : Str} {forceAudio : Bool} {f : Failure}
    (h : ingest tables c videoId forceAudio = .error f) : f.Faithful tables := by
  rcases bind_eq_error h with h | ⟨_, -, h⟩
  · exact faithful_metadata h
  · rcases bind_eq_error h with h | ⟨transcript, -, h⟩
    · rw [subtitlesFor] at h
      split at h
      · cases h
      · exact faithful_subtitles h
    · split at h
      · cases h
      · exact faithful_defer h

/-- **The exception that ends a run** is temporary exactly when a call that classifies its
errors raised one whose message is temporary. -/
theorem kind_of_run {c : Calls} {forceAudio : Bool} {f : Failure}
    (h : runJob tables c forceAudio = .error f) : f.Faithful tables := by
  rcases bind_eq_error h with h | ⟨videoId, -, h⟩
  · rw [parseId] at h
    split at h
    · cases h
    · cases h
      exact faithful_other (by simp [Raised.Classified]) (by simp)
  · split at h
    · cases h
    · exact faithful_ingest h

/-! ## What becomes of the job -/

/-- A job whose run ended with a temporary error waits for a later try; with any other error it
has failed. -/
def Settled (tables : Tables) (cfg : Config) (t : Table) (claim : Claim) (began : Nat)
    (f : Failure) : Prop :=
  ∃ r, runAndRecord cfg t claim began f.exc.outcome claim.job = some r ∧
    if isTransient tables f.raised.message = true then
      r.status = .pending ∧ ∃ next, r.nextAttemptAt = some next ∧ began < next
    else r.status = .failed

theorem fail_job {t : Table} {job began : Nat} {error : Str} {r : Row} (h : t job = some r) :
    ∃ r', fail t job began error job = some r' ∧ r'.status = .failed :=
  ⟨_, update_self h _ _, rfl⟩

theorem retry_job {t : Table} {job began delay : Nat} {error : Str} {r : Row}
    (h : t job = some r) : ∃ r', retry t job began error delay job = some r' ∧
      r'.status = .pending ∧ r'.nextAttemptAt = some (began + delay) :=
  ⟨_, update_self h _ _, rfl, rfl⟩

/-- An exception that is not temporary fails the job. -/
theorem failed_of_kind (cfg : Config) (began : Nat) {t : Table} {claim : Claim} {e : Exc} {r : Row}
    (hrow : t claim.job = some r) (h : e.kind ≠ .transientProviderError) :
    ∃ r', runAndRecord cfg t claim began e.outcome claim.job = some r' ∧
      r'.status = .failed := by
  obtain ⟨kind, text⟩ := e
  cases kind with
  | transientProviderError => exact absurd rfl h
  | providerError => exact fail_job hrow
  | videoUnavailable => exact fail_job hrow
  | subtitlesUnavailable => exact fail_job hrow
  | needsAudioFallback => exact fail_job hrow
  | other => exact fail_job hrow

/-- A temporary one puts it back while tries are left. -/
theorem pending_of_kind (cfg : Config) (began : Nat) {t : Table} {claim : Claim} {e : Exc}
    {r : Row} (hrow : t claim.job = some r) (hlt : claim.attempts < cfg.maxAttempts)
    (h : e.kind = .transientProviderError) :
    ∃ r', runAndRecord cfg t claim began e.outcome claim.job = some r' ∧ r'.status = .pending ∧
      r'.nextAttemptAt = some (began + cfg.seconds (cfg.retryDelaySeconds claim.attempts)) := by
  obtain ⟨kind, text⟩ := e
  obtain rfl : kind = .transientProviderError := h
  simp only [Exc.outcome, runAndRecord, if_neg (not_le.mpr hlt)]
  exact retry_job hrow

/-- Tables that are right on lower-case ASCII. -/
def plainTables : Tables := ⟨id, fun s => s.map Char.toLower, fun c => c.isAlphanum || c == '_'⟩

/-- A platform that answers everything, and has no subtitles. -/
def answers : Calls where
  parsed := .ok "dQw4w9WgXcQ".toList
  cached := none
  info := .ok true
  oembedEnabled := true
  oembed := .ok false
  videoSourceId := 5
  listing := .ok ()
  manual := .error .noTranscriptFound
  generated := .error .noTranscriptFound
  fetched := .ok true
  audio := .ok ()
  materialized := true

/-- Claimed for the first time. -/
def claimedJob : Table := Function.update (fun _ => none) 1 (some (newRow.claimed 7 0 90))

end MesReunions.VideoIngest
