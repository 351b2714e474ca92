import MesReunions.Base.Float

/-!
# The duration of a video source

`upsert_source` and `update_source_duration` of `video_ingest/app/repo.py`, under `run_job` of
`orchestrator.py`: the platform gives an exact duration or, through oEmbed, none, and the last
subtitle then gives an estimate. A run is one transaction, which `run_and_record` commits unless
the exception is not a `ProviderError`.

* `Known` — the source has the last exact duration that was fetched.
* `perform_faithful_iff` — what one event does to it, and to the payloads.
* **`faithful_iff`** — a run of events keeps it, and sends it, exactly when each event `Meets` it.
* **`estimate_sent`** — a second import, by oEmbed.
-/

namespace MesReunions.VideoIngest.Duration

/-! ## The platform -/

/-- Whether `run_and_record` catches the exception. -/
inductive ErrKind where
  | provider
  | unexpected
  deriving DecidableEq

structure Segment where
  start : PyFloat
  duration : PyFloat
  deriving DecidableEq

structure Transcript where
  language : Str
  method : Str
  segments : List Segment
  deriving DecidableEq

/-- A job, and what the calls of its run give. -/
structure Job where
  languagePref : Option Str
  forceAudio : Bool
  /-- `_select_provider` and `parse_canonical_id` -/
  parsed : Except ErrKind Unit
  /-- `fetch_metadata`: `duration_sec`, which oEmbed leaves out. -/
  metadata : Except ErrKind (Option Int)
  /-- `fetch_subtitles`: `none` for `SubtitlesUnavailable`. -/
  subtitles : Except ErrKind (Option Transcript)
  audio : Except ErrKind Unit
  /-- `_notify_materialize_audio`: whether it is configured, and then whether it succeeds. -/
  notifyAudio : Option Bool
  /-- `_notify_materialize` is configured. -/
  hook : Bool
  /-- The chunks are cut, and the transcript and the bookmark inserted, without an exception. -/
  stored : Bool
  deriving DecidableEq

/-! ## The database -/

/-- The source, if there is one, with its `duration_sec`, and its transcripts. -/
structure Db where
  duration : Option (Option Int)
  transcripts : List (Str × Str)
  deriving DecidableEq

/-- `upsert_source(conn, meta)`; `COALESCE(EXCLUDED.duration_sec, video_sources.duration_sec)`. -/
def upsertSource (db : Db) (durationSec : Option Int) : Db :=
  { db with duration := some (durationSec.or db.duration.join) }

/-- `update_source_duration`, `WHERE … duration_sec IS NULL` -/
def updateSourceDuration (db : Db) (durationSec : Int) : Db :=
  { db with duration := db.duration.map fun old => some (old.getD durationSec) }

/-- `insert_transcript`, `ON CONFLICT (video_source_id, language, method) DO UPDATE` -/
def insertTranscript (db : Db) (t : Transcript) : Db :=
  { db with transcripts := db.transcripts.erase (t.language, t.method) ++
      [(t.language, t.method)] }

/-- `has_transcript`, of a source that is there. -/
def Db.hit (db : Db) (language : Option Str) : Bool :=
  db.duration.isSome && db.transcripts.any fun t => language.getD [] = [] || some t.1 = language

/-! ## A run -/

/-- How a run ends; what it wrote is rolled back with an exception that is not caught. -/
inductive Ends where
  | done
  | failed
  | rolledBack
  deriving DecidableEq

def ErrKind.ends : ErrKind → Ends
  | .provider => .failed
  | .unexpected => .rolledBack

structure Result where
  db : Db
  /-- The `duration_sec` of the payloads. -/
  payloads : List Int
  ends : Ends
  deriving DecidableEq

/-- `round(x)` -/
def roundInt : PyFloat → Except PyError Int
  | .fin a => .ok (roundHalfEven a)
  | .inf _ => .error .overflowError
  | .nan => .error .valueError

/-- `int(round(last.start_seconds + last.duration_seconds))`; `0` without a segment. -/
def derived (t : Transcript) : Except PyError Int :=
  match t.segments.getLast? with
  | some last => roundInt (PyFloat.add last.start last.duration)
  | none => .ok 0

/-- `duration_sec or 0` -/
def payloadOf (durationSec : Option Int) : Int := durationSec.getD 0

/-- Without subtitles. -/
def ingestAudio (db : Db) (j : Job) (durationSec : Option Int) : Result :=
  match j.audio with
  | .error kind => ⟨db, [], kind.ends⟩
  | .ok () => match j.notifyAudio with
    | none => ⟨db, [], .failed⟩
    | some false => ⟨db, [payloadOf durationSec], .failed⟩
    | some true =>
        ⟨db, [payloadOf durationSec], if j.stored then .done else .rolledBack⟩

/-- With subtitles: what is stored, and sent. -/
def ingestTranscript (db : Db) (j : Job) (durationSec : Option Int) (t : Transcript) : Result :=
  let store (db : Db) (durationSec : Option Int) : Result :=
    if j.stored then
      ⟨insertTranscript db t, if j.hook then [payloadOf durationSec] else [], .done⟩
    else ⟨db, [], .rolledBack⟩
  match durationSec with
  | some d => store db (some d)
  | none => match derived t with
    | .error _ => ⟨db, [], .rolledBack⟩
    | .ok d => if 0 < d then store (updateSourceDuration db d) (some d) else store db none

/-- A source that is not known with a transcript. -/
def ingest (db : Db) (j : Job) : Result :=
  match j.metadata with
  | .error kind => ⟨db, [], kind.ends⟩
  | .ok durationSec =>
      let db := upsertSource db durationSec
      if j.forceAudio then ingestAudio db j durationSec
      else match j.subtitles with
        | .error kind => ⟨db, [], kind.ends⟩
        | .ok none => ingestAudio db j durationSec
        | .ok (some t) => ingestTranscript db j durationSec t

/-- The hook of a cache hit, from the row. -/
def fromCache (db : Db) (hook : Bool) : Result :=
  ⟨db, if hook then [payloadOf db.duration.join] else [], .done⟩

/-- `run_job(conn, providers, job)` -/
def runJob (db : Db) (j : Job) : Result :=
  match j.parsed with
  | .error kind => ⟨db, [], kind.ends⟩
  | .ok () => if db.hit j.languagePref then fromCache db j.hook else ingest db j

/-! ## Events -/

/-- A job runs, or `import_video` finds the source in the cache. -/
inductive Event where
  | job (j : Job)
  | cached (language : Option Str) (hook : Bool)
  deriving DecidableEq

/-- The database, and the last exact duration that was fetched for the source. -/
structure World where
  db : Db
  exact : Option Int
  deriving DecidableEq

/-- The platform is asked about the video. -/
def Db.Asks (db : Db) (j : Job) : Prop := j.parsed = .ok () ∧ db.hit j.languagePref = false

instance (db : Db) (j : Job) : Decidable (db.Asks j) :=
  inferInstanceAs (Decidable (_ ∧ _))

/-- The exact duration of the metadata that a run fetches. -/
def fetched (db : Db) (j : Job) : Option Int :=
  if db.Asks j then match j.metadata with
    | .ok durationSec => durationSec
    | .error _ => none
  else none

def perform (w : World) : Event → World × List Int
  | .job j =>
      let r := runJob w.db j
      (⟨if r.ends = .rolledBack then w.db else r.db, (fetched w.db j).or w.exact⟩, r.payloads)
  | .cached language hook =>
      (w, if w.db.hit language then (fromCache w.db hook).payloads else [])

/-- The source has the last exact duration. -/
def Known (w : World) : Prop := ∀ d, w.exact = some d → w.db.duration = some (some d)

/-- After an event, the source has the last exact duration, and so have the payloads. -/
def StepFaithful (w : World) (e : Event) : Prop :=
  Known (perform w e).1 ∧
    ∀ p ∈ (perform w e).2, ∀ d, (perform w e).1.exact = some d → p = d

/-- An exact duration is never replaced by an estimate, in a run of events. -/
def Faithful : World → List Event → Prop
  | _, [] => True
  | w, e :: es => StepFaithful w e ∧ Faithful (perform w e).1 es

/-! ## When it is kept -/

/-- A run that got an exact duration ends with an exception that is not caught. -/
def Loses (j : Job) : Prop :=
  (j.forceAudio = true ∨ j.subtitles = .ok none) ∧
      (j.audio = .error .unexpected ∨
        j.audio = .ok () ∧ j.notifyAudio = some true ∧ j.stored = false) ∨
    j.forceAudio = false ∧ (j.subtitles = .error .unexpected ∨
      ∃ t, j.subtitles = .ok (some t) ∧ j.stored = false)

/-- A run that got no duration sends `p`. -/
def Sends (j : Job) (p : Int) : Prop :=
  (j.forceAudio = true ∨ j.subtitles = .ok none) ∧
      j.audio = .ok () ∧ j.notifyAudio ≠ none ∧ p = 0 ∨
    j.forceAudio = false ∧ ∃ t d, j.subtitles = .ok (some t) ∧ derived t = .ok d ∧
      j.stored = true ∧ j.hook = true ∧ p = max d 0

/-- A job that asks the platform: an exact duration is not lost, unless it was known already, and
without one nothing else than the exact one is sent. -/
def Meets (w : World) : Event → Prop
  | .job j => w.db.Asks j →
      (∀ d, j.metadata = .ok (some d) → Loses j → w.db.duration = some (some d)) ∧
        (j.metadata = .ok none → ∀ d, w.exact = some d → ∀ p, Sends j p → p = d)
  | .cached _ _ => True

def AllMeet : World → List Event → Prop
  | _, [] => True
  | w, e :: es => Meets w e ∧ AllMeet (perform w e).1 es

/-! ## A run -/

theorem upsert_exact (db : Db) (d : Int) : (upsertSource db (some d)).duration = some (some d) :=
  rfl

theorem upsert_none {db : Db} {d : Int} (h : db.duration = some (some d)) :
    (upsertSource db none).duration = some (some d) := by
  simp [upsertSource, h]

/-- The audio path writes nothing, sends the duration it was given, and may be rolled back. -/
theorem ingestAudio_spec (db : Db) (j : Job) (durationSec : Option Int) :
    (ingestAudio db j durationSec).db = db ∧
      (∀ p, p ∈ (ingestAudio db j durationSec).payloads ↔
        j.audio = .ok () ∧ j.notifyAudio ≠ none ∧ p = payloadOf durationSec) ∧
      ((ingestAudio db j durationSec).ends = .rolledBack ↔
        j.audio = .error .unexpected ∨
          j.audio = .ok () ∧ j.notifyAudio = some true ∧ j.stored = false) := by
  rw [ingestAudio]
  cases j.audio with
  | error kind => cases kind <;> simp [ErrKind.ends]
  | ok u =>
      cases j.notifyAudio with
      | none => simp
      | some ok => cases ok <;> cases j.stored <;> simp

/-- With an exact duration: it is stored, and sent. -/
theorem ingest_exact {db : Db} {j : Job} {d : Int} (h : j.metadata = .ok (some d)) :
    (ingest db j).db.duration = some (some d) ∧ (∀ p ∈ (ingest db j).payloads, p = d) ∧
      ((ingest db j).ends = .rolledBack ↔ Loses j) := by
  obtain ⟨hdb, hpayloads, hends⟩ := ingestAudio_spec (upsertSource db (some d)) j (some d)
  have haudio : (ingestAudio (upsertSource db (some d)) j (some d)).db.duration = some (some d) ∧
      ∀ p ∈ (ingestAudio (upsertSource db (some d)) j (some d)).payloads, p = d :=
    ⟨by rw [hdb, upsert_exact], fun p hp => ((hpayloads p).mp hp).2.2⟩
  rw [ingest, h]
  cases hforce : j.forceAudio with
  | true =>
      refine ⟨haudio.1, haudio.2, ?_⟩
      simp only [if_true, hends, Loses, hforce, true_or, true_and, Bool.true_eq_false,
        false_and, or_false]
  | false =>
      cases hsub : j.subtitles with
      | error kind =>
          refine ⟨upsert_exact db d, by simp, ?_⟩
          cases kind <;> simp [ErrKind.ends, Loses, hforce, hsub]
      | ok t? =>
          cases t? with
          | none =>
              refine ⟨haudio.1, haudio.2, ?_⟩
              simp only [Bool.false_eq_true, if_false, hends, Loses, hforce, hsub]
              simp
          | some t =>
              simp only [Bool.false_eq_true, if_false, ingestTranscript]
              cases hstored : j.stored with
              | true => simp [insertTranscript, upsert_exact, payloadOf, Loses, hforce, hsub, hstored]
              | false => simp [upsert_exact, Loses, hforce, hsub, hstored]

/-- Without one: the stored duration stays, and `Sends` says what is sent. -/
theorem ingest_none {db : Db} {j : Job} (h : j.metadata = .ok none) :
    (∀ d, db.duration = some (some d) → (ingest db j).db.duration = some (some d)) ∧
      ∀ p, p ∈ (ingest db j).payloads ↔ Sends j p := by
  obtain ⟨hdb, hpayloads, -⟩ := ingestAudio_spec (upsertSource db none) j none
  have haudio : ∀ d, db.duration = some (some d) →
      (ingestAudio (upsertSource db none) j none).db.duration = some (some d) :=
    fun d hd => by rw [hdb, upsert_none hd]
  rw [ingest, h]
  cases hforce : j.forceAudio with
  | true =>
      refine ⟨haudio, fun p => ?_⟩
      simp only [if_true, hpayloads, Sends, hforce, true_or, true_and, Bool.true_eq_false,
        false_and, or_false]
      rfl
  | false =>
      cases hsub : j.subtitles with
      | error kind => simp +contextual [upsert_none, Sends, hforce, hsub]
      | ok t? =>
          cases t? with
          | none =>
              refine ⟨haudio, fun p => ?_⟩
              simp only [Bool.false_eq_true, if_false, hpayloads, Sends, hforce, hsub]
              simp [payloadOf]
          | some t =>
              simp only [Bool.false_eq_true, if_false, ingestTranscript]
              cases hder : derived t with
              | error e => simp +contextual [upsert_none, Sends, hforce, hsub, hder]
              | ok d =>
                  have hsends : ∀ p, Sends j p ↔ j.stored = true ∧ j.hook = true ∧ p = max d 0 := by
                    intro p
                    simp [Sends, hforce, hsub, hder]
                  by_cases hpos : 0 < d
                  · have hmax : max d 0 = d := max_eq_left hpos.le
                    cases hstored : j.stored with
                    | true =>
                        simp +contextual [hsends, hpos, hstored, hmax, insertTranscript,
                          updateSourceDuration, upsert_none, payloadOf]
                    | false =>
                        simp +contextual [hsends, hpos, hstored, updateSourceDuration, upsert_none]
                  · have hmax : max d 0 = 0 := max_eq_right (not_lt.mp hpos)
                    cases hstored : j.stored with
                    | true =>
                        simp +contextual [hsends, hpos, hstored, hmax, insertTranscript,
                          upsert_none, payloadOf]
                    | false => simp +contextual [hsends, hpos, hstored, upsert_none]

/-! ## Events -/

theorem known_payload {w : World} (h : Known w) {d : Int} (hd : w.exact = some d) :
    payloadOf w.db.duration.join = d := by
  rw [h d hd]
  rfl

/-- A cache hit sends the stored duration. -/
theorem cached_faithful {w : World} (h : Known w) (language : Option Str) (hook : Bool) :
    StepFaithful w (.cached language hook) := by
  refine ⟨h, fun p hp d hd => ?_⟩
  rw [perform] at hp
  split at hp
  · cases hook with
    | true =>
        obtain rfl := List.mem_singleton.mp hp
        exact known_payload h hd
    | false => exact absurd hp List.not_mem_nil
  · exact absurd hp List.not_mem_nil

/-- A job that does not ask the platform. -/
theorem job_faithful_of_not_asks {w : World} (h : Known w) {j : Job} (hasks : ¬ w.db.Asks j) :
    StepFaithful w (.job j) := by
  have hfetched : fetched w.db j = none := if_neg hasks
  have hexact : (perform w (.job j)).1.exact = w.exact := by simp [perform, hfetched]
  cases hparsed : j.parsed with
  | error kind =>
      have hrun : runJob w.db j = ⟨w.db, [], kind.ends⟩ := by rw [runJob, hparsed]
      refine ⟨fun d hd => ?_, fun p hp => ?_⟩
      · rw [hexact] at hd
        simp [perform, hrun, h d hd]
      · simp [perform, hrun] at hp
  | ok u =>
      have hhit : w.db.hit j.languagePref = true := by
        cases hhit : w.db.hit j.languagePref with
        | true => rfl
        | false => exact absurd ⟨hparsed, hhit⟩ hasks
      have hrun : runJob w.db j = fromCache w.db j.hook := by rw [runJob, hparsed, if_pos hhit]
      refine ⟨fun d hd => ?_, fun p hp d hd => ?_⟩
      · rw [hexact] at hd
        simp [perform, hrun, fromCache, h d hd]
      · rw [hexact] at hd
        cases hhook : j.hook with
        | true =>
            have hp' : p = payloadOf w.db.duration.join := by
              simpa [perform, hrun, fromCache, hhook] using hp
            exact hp'.trans (known_payload h hd)
        | false => simp [perform, hrun, fromCache, hhook] at hp

/-- A job that gets an exact duration. -/
theorem exact_faithful_iff {w : World} {j : Job} (hasks : w.db.Asks j)
    (hrun : runJob w.db j = ingest w.db j) {d : Int} (hmeta : j.metadata = .ok (some d)) :
    StepFaithful w (.job j) ↔ Meets w (.job j) := by
  obtain ⟨hdb, hpayloads, hends⟩ := @ingest_exact w.db _ _ hmeta
  have hfetched : fetched w.db j = some d := by rw [fetched, if_pos hasks, hmeta]
  have hexact : (perform w (.job j)).1.exact = some d := by simp [perform, hfetched]
  have hdone : (perform w (.job j)).1.db =
      if (ingest w.db j).ends = .rolledBack then w.db else (ingest w.db j).db := by
    rw [perform, hrun]
  constructor
  · intro hfaithful _
    refine ⟨fun d' hd' hloses => ?_, fun hnone => by simp [hmeta] at hnone⟩
    obtain rfl : d = d' := by simpa [hmeta] using hd'
    have := hfaithful.1 d hexact
    rwa [hdone, if_pos (hends.mpr hloses)] at this
  · intro hmeets
    refine ⟨fun d' hd' => ?_, fun p hp d' hd' => ?_⟩
    · obtain rfl := Option.some.inj (hexact.symm.trans hd')
      rw [hdone]
      split
      · rename_i hrolled
        exact (hmeets hasks).1 d hmeta (hends.mp hrolled)
      · exact hdb
    · obtain rfl := Option.some.inj (hexact.symm.trans hd')
      rw [perform, hrun] at hp
      exact hpayloads p hp

/-- A job that gets none. -/
theorem none_faithful_iff {w : World} (h : Known w) {j : Job} (hasks : w.db.Asks j)
    (hrun : runJob w.db j = ingest w.db j) (hmeta : j.metadata = .ok none) :
    StepFaithful w (.job j) ↔ Meets w (.job j) := by
  obtain ⟨hdb, hpayloads⟩ := @ingest_none w.db _ hmeta
  have hfetched : fetched w.db j = none := by rw [fetched, if_pos hasks, hmeta]
  have hexact : (perform w (.job j)).1.exact = w.exact := by simp [perform, hfetched]
  have hsent : ∀ p, p ∈ (perform w (.job j)).2 ↔ Sends j p := by
    intro p
    rw [perform, hrun]
    exact hpayloads p
  constructor
  · intro hfaithful _
    refine ⟨fun d hd => by simp [hmeta] at hd, fun _ d hd p hp => ?_⟩
    exact hfaithful.2 p ((hsent p).mpr hp) d (hexact.trans hd)
  · intro hmeets
    refine ⟨fun d hd => ?_, fun p hp d hd => ?_⟩
    · have hstored := h d (hexact.symm.trans hd)
      rw [perform, hrun]
      dsimp only
      split
      · exact hstored
      · exact hdb d hstored
    · exact (hmeets hasks).2 hmeta d (hexact.symm.trans hd) p ((hsent p).mp hp)

/-- **One event** keeps the exact duration, and sends it, exactly when it meets it. -/
theorem perform_faithful_iff {w : World} (h : Known w) (e : Event) :
    StepFaithful w e ↔ Meets w e := by
  cases e with
  | cached language hook => exact ⟨fun _ => trivial, fun _ => cached_faithful h language hook⟩
  | job j =>
      by_cases hasks : w.db.Asks j
      · have hrun : runJob w.db j = ingest w.db j := by
          rw [runJob, hasks.1, if_neg (by simp [hasks.2])]
        cases hmeta : j.metadata with
        | error kind =>
            have hfetched : fetched w.db j = none := by rw [fetched, if_pos hasks, hmeta]
            have hing : ingest w.db j = ⟨w.db, [], kind.ends⟩ := by rw [ingest, hmeta]
            have hleft : StepFaithful w (.job j) := by
              refine ⟨fun d hd => ?_, fun p hp => ?_⟩
              · have hd' : w.exact = some d := by simpa [perform, hfetched] using hd
                simp [perform, hrun, hing, h d hd']
              · simp [perform, hrun, hing] at hp
            exact ⟨fun _ _ => ⟨fun d hd => by simp [hmeta] at hd, fun hd => by simp [hmeta] at hd⟩,
              fun _ => hleft⟩
        | ok durationSec =>
            cases durationSec with
            | some d => exact exact_faithful_iff hasks hrun hmeta
            | none => exact none_faithful_iff h hasks hrun hmeta
      · exact ⟨fun _ ha => absurd ha hasks, fun _ => job_faithful_of_not_asks h hasks⟩

/-- A run from a world that knows its exact duration. -/
theorem run_faithful_iff {w : World} (h : Known w) (es : List Event) :
    Faithful w es ↔ AllMeet w es := by
  induction es generalizing w with
  | nil => exact Iff.rfl
  | cons e es ih =>
      rw [Faithful, AllMeet, ← perform_faithful_iff h e]
      exact and_congr_right fun hstep => ih hstep.1

/-- **An exact duration is never replaced by an estimate** in a run, exactly when no job loses one
to an exception and none sends another value while one is known. -/
theorem faithful_iff (db : Db) (es : List Event) :
    Faithful ⟨db, none⟩ es ↔ AllMeet ⟨db, none⟩ es :=
  run_faithful_iff (fun d hd => by cases hd) es

/-! ## Two imports -/

/-- Subtitles of 120 seconds. -/
def subtitles : Transcript := ⟨['f', 'r'], "subtitle_manual".toList, [⟨.fin 100, .fin 20⟩]⟩

/-- The platform knows the duration, and has no subtitles; the audio is sent. -/
def audioJob : Job := ⟨none, false, .ok (), .ok (some 130), .ok none, .ok (), some true, true, true⟩

/-- Later oEmbed answers, and there are subtitles. -/
def oembedJob : Job :=
  ⟨none, false, .ok (), .ok none, .ok (some subtitles), .ok (), some true, true, true⟩

/-- **A second import, by oEmbed**, sends the estimate. -/
theorem estimate_sent : ¬ ∀ db es, Faithful ⟨db, none⟩ es := by
  intro h
  have hstep := (h ⟨none, []⟩ [.job audioJob, .job oembedJob]).2.1
  exact absurd (hstep.2 120 (by decide +kernel) 130 (by decide +kernel)) (by decide)

end MesReunions.VideoIngest.Duration
