import Mathlib.Data.List.Sort
import MesReunions.Base.Json
import MesReunions.Base.TSys
import MesReunions.Subtitles.Chunks
import MesReunions.VideoIngest.Jobs

/-!
# The shared catalogue

The tables of `services/video_ingest` (`repo.py`, `019_video_ingest_initial.sql`) and the endpoints
of `api.py` that read one job, the bookmarks, a source or its transcript. The catalogue is shared: a
source is shown to the users who are linked to it by a bookmark or a job.

* `SameView` — two databases that a user sees alike: the same jobs and bookmarks, and the same rows
  of the sources these lead to.
* `answer_of_sameView` — every answer to the user is the same in both.
* **`nothing_shown`** — a user who has asked for nothing is answered as if nothing were stored.
* **`answers_kept`** — what others do, and what is written to other sources, changes no answer.
-/

namespace MesReunions.VideoIngest.Catalogue

open Str
open Subtitles (ChunkDict)

/-! ## The tables -/

/-- A row of `video_sources`. -/
structure Source where
  provider : Str
  providerVideoId : Str
  canonicalUrl : Str
  title : Option Str
  channel : Option Str
  durationSec : Option Int
  publishedAt : Option Nat
  metadata : Json
  fetchedAt : Nat

/-- A row of `video_transcripts`. -/
structure Transcript where
  id : Nat
  videoSourceId : Nat
  language : Str
  method : Str
  contentText : Str
  segments : List ChunkDict
  createdAt : Nat

/-- A row of `user_video_bookmarks`. -/
structure Bookmark where
  id : Nat
  userSub : Str
  videoSourceId : Nat
  bookmarkedAt : Nat
  context : Option Str
  contextId : Option Str

/-- A row of `video_ingest_jobs`, with the columns that only the request sets. -/
structure IngestJob where
  userSub : Str
  createdAt : Nat
  row : Row

/-- The ids are given in order; nothing is stored under one that has not been given. -/
structure Db where
  now : Nat
  sources : Nat → Option Source
  nextSource : Nat
  transcripts : List Transcript
  nextTranscript : Nat
  bookmarks : List Bookmark
  nextBookmark : Nat
  jobs : Nat → Option IngestJob
  nextJob : Nat
  given : ∀ i, nextJob ≤ i → jobs i = none

def Db.start : Db where
  now := 0
  sources := fun _ => none
  nextSource := 0
  transcripts := []
  nextTranscript := 0
  bookmarks := []
  nextBookmark := 0
  jobs := fun _ => none
  nextJob := 0
  given := fun _ _ => rfl

/-- `user_owns_source(conn, user_sub=…, video_source_id=…)` -/
def userOwnsSource (db : Db) (userSub : Str) (source : Nat) : Bool :=
  userSub != [] &&
    (db.bookmarks.any (fun b => b.userSub == userSub && b.videoSourceId == source) ||
      (List.range db.nextJob).any fun i => (db.jobs i).any fun j =>
        j.userSub == userSub && j.row.videoSourceId == some source)

/-! ## The endpoints -/

/-- `ORDER BY (method = 'subtitle_manual') DESC, created_at DESC LIMIT 1` -/
def preferred (rows : List Transcript) : Option Transcript :=
  let manual (t : Transcript) : Bool := t.method == "subtitle_manual".toList
  (rows.mergeSort fun a b =>
    (manual a && !manual b) || (manual a == manual b && decide (b.createdAt ≤ a.createdAt))).head?

def transcriptsOf (db : Db) (source : Nat) : List Transcript :=
  db.transcripts.filter (·.videoSourceId == source)

/-- `AND language = %s`, where a language is asked for. -/
def Transcript.inLanguage (language : Option Str) (t : Transcript) : Bool :=
  language.getD [] == [] || some t.language == language

def bestTranscript (db : Db) (source : Nat) (language : Option Str) : Option Transcript :=
  preferred ((transcriptsOf db source).filter (·.inLanguage language))

/-- `has_transcript(conn, video_source_id=…, language=…)` -/
def hasTranscript (db : Db) (source : Nat) (language : Option Str) : Bool :=
  (transcriptsOf db source).any (·.inLanguage language)

structure JobView where
  id : Nat
  status : Status
  videoSourceId : Option Nat
  reused : Option Bool
  errorMessage : Option Str
  attempts : Nat
  createdAt : Nat
  completedAt : Option Nat
  nextAttemptAt : Option Nat
  retrying : Bool

structure BookmarkView where
  bookmark : Bookmark
  provider : Str
  providerVideoId : Str
  canonicalUrl : Str
  title : Option Str
  channel : Option Str
  durationSec : Option Int
  transcriptLanguage : Option Str
  transcriptChars : Option Nat
  transcriptMethod : Option Str
  hasTranscript : Bool

/-- The part of a transcript that `format` asks for. -/
inductive Body where
  | text (s : Str)
  | segments (l : List ChunkDict)
  | markdown (s : Str)

inductive Answer where
  /-- 404, with its `error`. -/
  | notFound (error : Str)
  /-- 500 -/
  | failed
  | job (v : JobView)
  | bookmarks (vs : List BookmarkView)
  | source (id : Nat) (s : Source)
  | transcript (id : Nat) (language method : Str) (body : Body)

/-- `get_job(job_id)` -/
def getJob (db : Db) (userSub : Str) (i : Nat) : Answer :=
  match db.jobs i with
  | none => .notFound "job introuvable".toList
  | some j =>
      if j.userSub ≠ userSub then .notFound "job introuvable".toList
      else .job ⟨i, j.row.status, j.row.videoSourceId, j.row.reused, j.row.errorMessage,
        j.row.attempts, j.createdAt, j.row.completedAt, j.row.nextAttemptAt,
        j.row.nextAttemptAt.isSome && j.row.status == .pending⟩

/-- One row of the `JOIN`. -/
def viewOf (db : Db) (b : Bookmark) : Option BookmarkView :=
  (db.sources b.videoSourceId).map fun s =>
    let t := bestTranscript db b.videoSourceId none
    ⟨b, s.provider, s.providerVideoId, s.canonicalUrl, s.title, s.channel, s.durationSec,
      t.map (·.language), t.map (·.contentText.length), t.map (·.method), t.isSome⟩

/-- `list_my_bookmarks()`, with `limit` as given. -/
def listMyBookmarks (db : Db) (userSub : Str) (limit : Nat) : Answer :=
  .bookmarks ((((db.bookmarks.filter (·.userSub == userSub)).mergeSort fun a b =>
    decide (b.bookmarkedAt ≤ a.bookmarkedAt)).filterMap (viewOf db)).take (min limit 200))

/-- `get_source(source_id)` -/
def getSource (db : Db) (userSub : Str) (source : Nat) : Answer :=
  if userOwnsSource db userSub source then
    match db.sources source with
    | some s => .source source s
    | none => .notFound "source introuvable".toList
  else .notFound "source introuvable".toList

/-- `int(x)`; what is not finite raises. -/
def intOf : PyFloat → Option Int
  | .fin q => some (if 0 ≤ q then ⌊q⌋ else ⌈q⌉)
  | _ => none

/-- A paragraph of `_render_markdown`. -/
def paragraph (s : ChunkDict) : Option Str :=
  (intOf s.startSeconds).map fun ts =>
    strip ("**[".toList ++ strOfInt ts ++ "s]** ".toList ++ s.text)

/-- `_render_markdown(text, segments)` -/
def renderMarkdown (text : Str) (segments : List ChunkDict) : Option Str :=
  if segments.isEmpty then some text
  else (segments.mapM paragraph).map fun parts => "\n\n".toList.intercalate parts

/-- `get_transcript(source_id)` -/
def getTranscript (db : Db) (userSub : Str) (source : Nat) (language : Option Str)
    (format : Str) : Answer :=
  if userOwnsSource db userSub source then
    match bestTranscript db source language with
    | none => .notFound "transcript introuvable".toList
    | some t =>
        if format = "segments".toList then
          .transcript t.id t.language t.method (.segments t.segments)
        else if format = "markdown".toList then
          match renderMarkdown t.contentText t.segments with
          | some s => .transcript t.id t.language t.method (.markdown s)
          | none => .failed
        else .transcript t.id t.language t.method (.text t.contentText)
  else .notFound "transcript introuvable".toList

inductive Request where
  | job (i : Nat)
  | myBookmarks (limit : Nat)
  | source (source : Nat)
  | transcript (source : Nat) (language : Option Str) (format : Str)

def answer (db : Db) (userSub : Str) : Request → Answer
  | .job i => getJob db userSub i
  | .myBookmarks limit => listMyBookmarks db userSub limit
  | .source source => getSource db userSub source
  | .transcript source language format => getTranscript db userSub source language format

/-! ## What a user sees -/

/-- The user has a bookmark or a job on the source. -/
def Linked (db : Db) (userSub : Str) (source : Nat) : Prop :=
  (∃ b ∈ db.bookmarks, b.userSub = userSub ∧ b.videoSourceId = source) ∨
    ∃ i j, db.jobs i = some j ∧ j.userSub = userSub ∧ j.row.videoSourceId = some source

theorem userOwnsSource_iff (db : Db) (userSub : Str) (source : Nat) :
    userOwnsSource db userSub source = true ↔ userSub ≠ [] ∧ Linked db userSub source := by
  simp only [userOwnsSource, Bool.and_eq_true, bne_iff_ne, Bool.or_eq_true, List.any_eq_true,
    beq_iff_eq, Option.any_eq_true, Linked, List.mem_range]
  refine and_congr_right fun _ => or_congr Iff.rfl ⟨?_, ?_⟩
  · rintro ⟨i, -, j, hj, huser, hsource⟩
    exact ⟨i, j, hj, huser, hsource⟩
  · rintro ⟨i, j, hj, huser, hsource⟩
    refine ⟨i, ?_, j, hj, huser, hsource⟩
    by_contra hle
    rw [db.given i (not_lt.mp hle)] at hj
    cases hj

/-- What the user's own rows, and the sources they lead to, are in both. -/
structure SameView (userSub : Str) (db db' : Db) : Prop where
  jobs : ∀ i, (db.jobs i).filter (·.userSub = userSub) = (db'.jobs i).filter (·.userSub = userSub)
  bookmarks : db.bookmarks.filter (·.userSub == userSub) =
    db'.bookmarks.filter (·.userSub == userSub)
  sources : ∀ source, Linked db userSub source → db.sources source = db'.sources source
  transcripts : ∀ source, Linked db userSub source →
    transcriptsOf db source = transcriptsOf db' source

section View

variable {userSub : Str} {db db' : Db}

theorem SameView.job_iff (h : SameView userSub db db') {i : Nat} {j : IngestJob}
    (hj : j.userSub = userSub) : db.jobs i = some j ↔ db'.jobs i = some j := by
  have hof : ∀ d : Db, d.jobs i = some j ↔
      (d.jobs i).filter (·.userSub = userSub) = some j := fun d => by
    rw [Option.filter_eq_some_iff]
    exact ⟨fun hd => ⟨hd, decide_eq_true hj⟩, fun hd => hd.1⟩
  rw [hof db, hof db', h.jobs i]

theorem SameView.linked_iff (h : SameView userSub db db') (source : Nat) :
    Linked db userSub source ↔ Linked db' userSub source := by
  refine or_congr ?_ ?_
  · have hof : ∀ d : Db, (∃ b ∈ d.bookmarks, b.userSub = userSub ∧ b.videoSourceId = source) ↔
        ∃ b ∈ d.bookmarks.filter (·.userSub == userSub), b.videoSourceId = source := fun d => by
      simp only [List.mem_filter, beq_iff_eq, and_assoc]
    rw [hof db, hof db', h.bookmarks]
  · constructor
    · rintro ⟨i, j, hj, huser, hsource⟩
      exact ⟨i, j, (h.job_iff huser).mp hj, huser, hsource⟩
    · rintro ⟨i, j, hj, huser, hsource⟩
      exact ⟨i, j, (h.job_iff huser).mpr hj, huser, hsource⟩

theorem SameView.owns_eq (h : SameView userSub db db') (source : Nat) :
    userOwnsSource db userSub source = userOwnsSource db' userSub source := by
  rw [Bool.eq_iff_iff, userOwnsSource_iff, userOwnsSource_iff, h.linked_iff]

theorem SameView.best_eq (h : SameView userSub db db') {source : Nat}
    (hlinked : Linked db userSub source) (language : Option Str) :
    bestTranscript db source language = bestTranscript db' source language := by
  rw [bestTranscript, bestTranscript, h.transcripts source hlinked]

/-- A job of somebody else is not found, like one that is not there. -/
theorem getJob_eq (db : Db) (userSub : Str) (i : Nat) :
    getJob db userSub i =
      match (db.jobs i).filter (·.userSub = userSub) with
      | none => .notFound "job introuvable".toList
      | some j => .job ⟨i, j.row.status, j.row.videoSourceId, j.row.reused, j.row.errorMessage,
        j.row.attempts, j.createdAt, j.row.completedAt, j.row.nextAttemptAt,
        j.row.nextAttemptAt.isSome && j.row.status == .pending⟩ := by
  rw [getJob]
  cases hj : db.jobs i with
  | none => rfl
  | some j =>
      dsimp only
      split
      · rename_i hne
        rw [Option.filter_some, if_neg (by rwa [decide_eq_true_eq])]
      · rename_i heq
        rw [Option.filter_some, if_pos (by rwa [decide_eq_true_eq, ← not_ne_iff])]

theorem SameView.bookmarks_eq (h : SameView userSub db db') (limit : Nat) :
    listMyBookmarks db userSub limit = listMyBookmarks db' userSub limit := by
  rw [listMyBookmarks, listMyBookmarks, ← h.bookmarks]
  congr 2
  refine List.filterMap_congr fun b hb => ?_
  obtain ⟨hmem, huser⟩ := List.mem_filter.mp (List.mem_mergeSort.mp hb)
  have hlinked : Linked db userSub b.videoSourceId := Or.inl ⟨b, hmem, beq_iff_eq.mp huser, rfl⟩
  rw [viewOf, viewOf, h.sources _ hlinked, h.best_eq hlinked]

/-- What a user is answered only depends on their own jobs and bookmarks, and on the
sources these lead to: nothing else of the catalogue shows. -/
theorem answer_of_sameView (h : SameView userSub db db') (r : Request) :
    answer db userSub r = answer db' userSub r := by
  cases r with
  | job i => rw [answer, answer, getJob_eq, getJob_eq, h.jobs i]
  | myBookmarks limit => exact h.bookmarks_eq limit
  | source source =>
      rw [answer, answer, getSource, getSource, ← h.owns_eq]
      split
      · rename_i hown
        rw [h.sources source ((userOwnsSource_iff _ _ _).mp hown).2]
      · rfl
  | transcript source language format =>
      rw [answer, answer, getTranscript, getTranscript, ← h.owns_eq]
      split
      · rename_i hown
        rw [h.best_eq ((userOwnsSource_iff _ _ _).mp hown).2 language]
      · rfl

end View

/-! ## The system -/

/-- The statements that workers run against the jobs (`jobs.py`). -/
inductive Statement where
  | claim (job claimedBy began lease : Nat)
  | extendLease (job began lease : Nat)
  | complete (job began source : Nat) (reused : Bool)
  | fail (job began : Nat) (error : Str)
  | retry (job began : Nat) (error : Str) (delay : Nat)
  | resetOrphans (began : Nat)

def Statement.run (t : Table) : Statement → Table
  | .claim job claimedBy began lease =>
      t.update job (·.claimable began) (·.claimed claimedBy began lease)
  | .extendLease job began lease => VideoIngest.extendLease t job began lease
  | .complete job began source reused => VideoIngest.complete t job began source reused
  | .fail job began error => VideoIngest.fail t job began error
  | .retry job began error delay => VideoIngest.retry t job began error delay
  | .resetOrphans began => VideoIngest.resetOrphans t began

/-- The columns the statements write. -/
def Db.table (db : Db) : Table := fun i => (db.jobs i).map IngestJob.row

def Db.withTable (db : Db) (t : Table) : Db :=
  { db with
    jobs := fun i => (db.jobs i).map fun j => { j with row := (t i).getD j.row }
    given := fun i hi => by rw [db.given i hi]; rfl }

/-- `find_source_by_provider_id(conn, provider=…, provider_video_id=…)` -/
def findSource (db : Db) (provider providerVideoId : Str) : Option Nat :=
  (List.range db.nextSource).find? fun i => (db.sources i).any fun s =>
    s.provider == provider && s.providerVideoId == providerVideoId

/-- `ON CONFLICT (provider, provider_video_id) DO UPDATE`: the old columns are `old`. -/
def Source.refreshed (s old : Source) (now : Nat) : Source :=
  { old with
    title := s.title.or old.title
    channel := s.channel.or old.channel
    durationSec := s.durationSec.or old.durationSec
    publishedAt := s.publishedAt.or old.publishedAt
    metadata := s.metadata
    fetchedAt := now }

/-- `upsert_source(conn, meta)` -/
def upsertSource (db : Db) (s : Source) : Db :=
  match findSource db s.provider s.providerVideoId with
  | some i => { db with
      sources := Function.update db.sources i
        ((db.sources i).map fun old => s.refreshed old db.now) }
  | none => { db with
      sources := Function.update db.sources db.nextSource (some { s with fetchedAt := db.now })
      nextSource := db.nextSource + 1 }

/-- `update_source_duration`, `WHERE … duration_sec IS NULL` -/
def updateSourceDuration (db : Db) (source : Nat) (durationSec : Int) : Db :=
  { db with
    sources := Function.update db.sources source ((db.sources source).map fun s =>
      { s with durationSec := some (s.durationSec.getD durationSec) }) }

/-- The row is the one that `(video_source_id, language, method)` names. -/
def Transcript.isKey (t : Transcript) (source : Nat) (language method : Str) : Bool :=
  t.videoSourceId == source && t.language == language && t.method == method

/-- `insert_transcript`, `ON CONFLICT (video_source_id, language, method) DO UPDATE` -/
def insertTranscript (db : Db) (source : Nat) (language method contentText : Str)
    (segments : List ChunkDict) : Db :=
  if db.transcripts.any (·.isKey source language method) then
    { db with
      transcripts := db.transcripts.map fun t =>
        if t.isKey source language method then
          { t with contentText := contentText, segments := segments }
        else t }
  else
    { db with
      transcripts := db.transcripts ++
        [⟨db.nextTranscript, source, language, method, contentText, segments, db.now⟩]
      nextTranscript := db.nextTranscript + 1 }

/-- `add_bookmark(conn, …)` -/
def addBookmark (db : Db) (userSub : Str) (source : Nat) (context contextId : Option Str) : Db :=
  { db with
    bookmarks := db.bookmarks ++ [⟨db.nextBookmark, userSub, source, db.now, context, contextId⟩]
    nextBookmark := db.nextBookmark + 1 }

/-- `enqueue(conn, …)` -/
def enqueue (db : Db) (userSub : Str) : Db :=
  { db with
    jobs := Function.update db.jobs db.nextJob (some ⟨userSub, db.now, newRow⟩)
    nextJob := db.nextJob + 1
    given := fun i hi => by
      rw [Function.update_of_ne (by omega)]
      exact db.given i (by omega) }

/-- `DELETE FROM video_sources`: transcripts and bookmarks go with it, jobs forget it. -/
def purgeSource (db : Db) (source : Nat) : Db :=
  { db with
    sources := Function.update db.sources source none
    transcripts := db.transcripts.filter (·.videoSourceId != source)
    bookmarks := db.bookmarks.filter (·.videoSourceId != source)
    jobs := fun i => (db.jobs i).map fun j =>
      if j.row.videoSourceId = some source then
        { j with row := { j.row with videoSourceId := none } }
      else j
    given := fun i hi => by rw [db.given i hi]; rfl }

inductive Act where
  | wait (d : Nat)
  /-- `import_video` finds the source, with a transcript. -/
  | importHit (userSub provider providerVideoId : Str) (language context contextId : Option Str)
  /-- `import_video` does not. -/
  | enqueue (userSub : Str)
  | upsertSource (s : Source)
  | updateSourceDuration (source : Nat) (durationSec : Int)
  | insertTranscript (source : Nat) (language method contentText : Str)
      (segments : List ChunkDict)
  /-- `run_job` adds the bookmark of the user of its job. -/
  | addBookmark (job source : Nat) (context contextId : Option Str)
  | statement (s : Statement)
  /-- `purge_source(source_id)`, by an administrator -/
  | purge (source : Nat)

/-- What the foreign keys, and the look-up of `import_video`, allow. -/
def Act.Allowed (db : Db) : Act → Bool
  | .importHit _ provider providerVideoId language _ _ =>
      (findSource db provider providerVideoId).any fun source => hasTranscript db source language
  | .insertTranscript source _ _ _ _ => (db.sources source).isSome
  | .addBookmark job source _ _ => (db.jobs job).isSome && (db.sources source).isSome
  | .statement (.complete _ _ source _) => (db.sources source).isSome
  | _ => true

def perform (db : Db) : Act → Db
  | .wait d => { db with now := db.now + d }
  | .importHit userSub provider providerVideoId _ context contextId =>
      match findSource db provider providerVideoId with
      | some source => addBookmark db userSub source context contextId
      | none => db
  | .enqueue userSub => enqueue db userSub
  | .upsertSource s => upsertSource db s
  | .updateSourceDuration source durationSec => updateSourceDuration db source durationSec
  | .insertTranscript source language method contentText segments =>
      insertTranscript db source language method contentText segments
  | .addBookmark job source context contextId =>
      match db.jobs job with
      | some j => addBookmark db j.userSub source context contextId
      | none => db
  | .statement s => db.withTable (s.run db.table)
  | .purge source => purgeSource db source

def step (db : Db) (a : Act) : Option Db := if a.Allowed db then some (perform db a) else none

/-! ## What a step does to the rows -/

section Rows

variable {userSub : Str} {db : Db} {a : Act}

theorem perform_of_step {db' : Db} (h : step db a = some db') : db' = perform db a := by
  rw [step] at h
  split at h
  · exact (Option.some.inj h).symm
  · cases h

theorem jobs_upsertSource (s : Source) : (upsertSource db s).jobs = db.jobs := by
  rw [upsertSource]
  split
  · rfl
  · rfl

theorem bookmarks_upsertSource (s : Source) : (upsertSource db s).bookmarks = db.bookmarks := by
  rw [upsertSource]
  split
  · rfl
  · rfl

theorem transcripts_upsertSource (s : Source) :
    (upsertSource db s).transcripts = db.transcripts := by
  rw [upsertSource]
  split
  · rfl
  · rfl

theorem jobs_insertTranscript (source : Nat) (l m t : Str) (segments : List ChunkDict) :
    (insertTranscript db source l m t segments).jobs = db.jobs := by
  rw [insertTranscript]
  split
  · rfl
  · rfl

theorem bookmarks_insertTranscript (source : Nat) (l m t : Str) (segments : List ChunkDict) :
    (insertTranscript db source l m t segments).bookmarks = db.bookmarks := by
  rw [insertTranscript]
  split
  · rfl
  · rfl

theorem sources_insertTranscript (source : Nat) (l m t : Str) (segments : List ChunkDict) :
    (insertTranscript db source l m t segments).sources = db.sources := by
  rw [insertTranscript]
  split
  · rfl
  · rfl

/-- Only the request of a user gives them a job; no step gives a job to somebody else. -/
theorem owner_of_perform {i : Nat} {j' : IngestJob} (hj : (perform db a).jobs i = some j') :
    (∃ j, db.jobs i = some j ∧ j.userSub = j'.userSub) ∨ a = .enqueue j'.userSub := by
  cases a with
  | enqueue u =>
      have hjobs : (perform db (.enqueue u)).jobs =
        Function.update db.jobs db.nextJob (some ⟨u, db.now, newRow⟩) := rfl
      rw [hjobs] at hj
      by_cases hi : i = db.nextJob
      · rw [hi, Function.update_self] at hj
        cases hj
        exact Or.inr rfl
      · rw [Function.update_of_ne hi] at hj
        exact Or.inl ⟨j', hj, rfl⟩
  | statement s =>
      obtain ⟨j, hold, rfl⟩ := Option.map_eq_some_iff.mp hj
      exact Or.inl ⟨j, hold, rfl⟩
  | purge source =>
      obtain ⟨j, hold, rfl⟩ := Option.map_eq_some_iff.mp hj
      refine Or.inl ⟨j, hold, ?_⟩
      split
      · rfl
      · rfl
  | importHit u p v l c k =>
      rw [perform] at hj
      split at hj
      · exact Or.inl ⟨j', hj, rfl⟩
      · exact Or.inl ⟨j', hj, rfl⟩
  | addBookmark job source c k =>
      rw [perform] at hj
      split at hj
      · exact Or.inl ⟨j', hj, rfl⟩
      · exact Or.inl ⟨j', hj, rfl⟩
  | insertTranscript source l m t segments =>
      rw [perform, jobs_insertTranscript] at hj
      exact Or.inl ⟨j', hj, rfl⟩
  | upsertSource s =>
      rw [perform, jobs_upsertSource] at hj
      exact Or.inl ⟨j', hj, rfl⟩
  | wait d => exact Or.inl ⟨j', hj, rfl⟩
  | updateSourceDuration source d => exact Or.inl ⟨j', hj, rfl⟩

/-- A bookmark that a step adds is of the user who asks, or of the user of the job. -/
theorem bookmark_of_perform {b : Bookmark} (hb : b ∈ (perform db a).bookmarks) :
    b ∈ db.bookmarks ∨ (∃ p v l c k, a = .importHit b.userSub p v l c k) ∨
      ∃ i j, db.jobs i = some j ∧ j.userSub = b.userSub ∧ ∃ s c k, a = .addBookmark i s c k := by
  cases a with
  | importHit u p v l c k =>
      rw [perform] at hb
      split at hb
      · rcases List.mem_append.mp hb with hb | hb
        · exact Or.inl hb
        · cases List.mem_singleton.mp hb
          exact Or.inr (Or.inl ⟨p, v, l, c, k, rfl⟩)
      · exact Or.inl hb
  | addBookmark job source c k =>
      rw [perform] at hb
      split at hb
      · rename_i j hj
        rcases List.mem_append.mp hb with hb | hb
        · exact Or.inl hb
        · cases List.mem_singleton.mp hb
          exact Or.inr (Or.inr ⟨job, j, hj, rfl, source, c, k, rfl⟩)
      · exact Or.inl hb
  | purge source => exact Or.inl (List.mem_of_mem_filter hb)
  | insertTranscript source l m t segments =>
      rw [perform, bookmarks_insertTranscript] at hb
      exact Or.inl hb
  | upsertSource s =>
      rw [perform, bookmarks_upsertSource] at hb
      exact Or.inl hb
  | enqueue u => exact Or.inl hb
  | statement s => exact Or.inl hb
  | wait d => exact Or.inl hb
  | updateSourceDuration source d => exact Or.inl hb

end Rows

/-! ## A user who has asked for nothing -/

/-- The user asks for a video. -/
def Act.AskedBy (userSub : Str) : Act → Prop
  | .importHit u _ _ _ _ _ => u = userSub
  | .enqueue u => u = userSub
  | _ => False

/-- No job and no bookmark is the user's. -/
structure Unknown (userSub : Str) (db : Db) : Prop where
  jobs : ∀ i j, db.jobs i = some j → j.userSub ≠ userSub
  bookmarks : ∀ b ∈ db.bookmarks, b.userSub ≠ userSub

theorem unknown_start (userSub : Str) : Unknown userSub .start := ⟨nofun, nofun⟩

/-- The step lemma. -/
theorem unknown_step {userSub : Str} {db db' : Db} {a : Act} (h : Unknown userSub db)
    (ha : ¬ a.AskedBy userSub) (hstep : step db a = some db') : Unknown userSub db' := by
  cases perform_of_step hstep
  constructor
  · intro i j hj huser
    rcases owner_of_perform hj with ⟨j₀, hj₀, howner⟩ | rfl
    · exact h.jobs i j₀ hj₀ (howner.trans huser)
    · exact ha huser
  · intro b hb huser
    rcases bookmark_of_perform hb with hb | ⟨p, v, l, c, k, rfl⟩ | ⟨i, j, hj, howner, -⟩
    · exact h.bookmarks b hb huser
    · exact ha huser
    · exact h.jobs i j hj (howner.trans huser)

theorem Unknown.sameView {userSub : Str} {db : Db} (h : Unknown userSub db) :
    SameView userSub db .start := by
  have hnone : ∀ source, ¬ Linked db userSub source := by
    rintro source (⟨b, hb, huser, -⟩ | ⟨i, j, hj, huser, -⟩)
    · exact h.bookmarks b hb huser
    · exact h.jobs i j hj huser
  refine ⟨fun i => ?_, ?_, fun source hs => absurd hs (hnone source),
    fun source hs => absurd hs (hnone source)⟩
  · have hempty : (Db.start.jobs i).filter (·.userSub = userSub) = none := rfl
    rw [hempty, Option.filter_eq_none_iff]
    intro j hj huser
    exact h.jobs i j hj (of_decide_eq_true huser)
  · have hempty : Db.start.bookmarks.filter (·.userSub == userSub) = [] := rfl
    rw [hempty, List.filter_eq_nil_iff]
    intro b hb huser
    exact h.bookmarks b hb (beq_iff_eq.mp huser)

/-- **Nothing is shown** to a user who has asked for nothing, whatever others, the workers and the
administrators have done. -/
theorem nothing_shown {userSub : Str} {as : List Act} {db : Db}
    (hrun : TSys.run step .start as = some db) (has : ∀ a ∈ as, ¬ a.AskedBy userSub)
    (r : Request) : answer db userSub r = answer .start userSub r := by
  have hguarded : TSys.Guarded step (fun _ a => ¬ a.AskedBy userSub) .start as :=
    TSys.guarded_of_actions step .start has
  have hunknown : Unknown userSub db :=
    TSys.inv_of_guarded step (Unknown userSub)
      (fun _ _ _ hinv ha hstep => unknown_step hinv ha hstep) (unknown_start userSub) hguarded hrun
  exact answer_of_sameView hunknown.sameView r

/-- What the system does for somebody else, who watches one video. -/
def watched : List Act :=
  [.enqueue ['v'], .upsertSource ⟨['y'], ['1'], ['u'], none, none, none, none, .obj [], 0⟩,
    .insertTranscript 0 ['f', 'r'] ['m'] ['t'] [], .addBookmark 0 0 none none,
    .statement (.complete 0 0 0 false)]

theorem nothing_shown_watched : ∃ db, TSys.run step .start watched = some db ∧
    ∀ r, answer db ['w'] r = answer .start ['w'] r := by
  obtain ⟨db, hrun⟩ : ∃ db, TSys.run step .start watched = some db := ⟨_, rfl⟩
  refine ⟨db, hrun, nothing_shown hrun fun a ha => ?_⟩
  fin_cases ha
  all_goals simp [Act.AskedBy]

/-! ## What others do -/

/-- What a statement writes to `video_source_id`. -/
theorem sourceId_of_run {s : Statement} {t : Table} {i : Nat} {r' : Row}
    (h : s.run t i = some r') : ∃ r, t i = some r ∧ (r'.videoSourceId = r.videoSourceId ∨
      ∃ job began source reused, s = .complete job began source reused ∧
        r'.videoSourceId = some source) := by
  have hupdate : ∀ {k : Nat} {guard : Row → Bool} {f : Row → Row},
      t.update k guard f i = some r' → (∀ r, (f r).videoSourceId = r.videoSourceId) →
        ∃ r, t i = some r ∧ (r'.videoSourceId = r.videoSourceId ∨
          ∃ job began source reused, s = .complete job began source reused ∧
            r'.videoSourceId = some source) := by
    intro k guard f hr hf
    rw [Table.update] at hr
    split at hr
    · obtain ⟨r, hold, rfl⟩ := Option.map_eq_some_iff.mp hr
      refine ⟨r, hold, Or.inl ?_⟩
      split
      · exact hf r
      · rfl
    · exact ⟨r', hr, Or.inl rfl⟩
  cases s with
  | complete job began source reused =>
      rw [Statement.run, VideoIngest.complete, Table.update] at h
      split at h
      · obtain ⟨r, hold, rfl⟩ := Option.map_eq_some_iff.mp h
        exact ⟨r, hold, Or.inr ⟨job, began, source, reused, rfl, rfl⟩⟩
      · exact ⟨r', h, Or.inl rfl⟩
  | resetOrphans began =>
      obtain ⟨r, hr, rfl⟩ := Option.map_eq_some_iff.mp h
      refine ⟨r, hr, Or.inl ?_⟩
      split
      · rfl
      · rfl
  | claim job claimedBy began lease => exact hupdate h fun _ => rfl
  | extendLease job began lease => exact hupdate h fun _ => rfl
  | fail job began error => exact hupdate h fun _ => rfl
  | retry job began error delay => exact hupdate h fun _ => rfl

/-- The sources that rows lead to have been given an id. -/
structure Inv (db : Db) : Prop where
  sources : ∀ i, db.nextSource ≤ i → db.sources i = none
  bookmarks : ∀ b ∈ db.bookmarks, b.videoSourceId < db.nextSource
  jobs : ∀ i j source, db.jobs i = some j → j.row.videoSourceId = some source →
    source < db.nextSource

theorem inv_start : Inv .start := ⟨fun _ _ => rfl, nofun, nofun⟩

theorem Inv.lt {db : Db} (h : Inv db) {source : Nat} (hs : (db.sources source).isSome) :
    source < db.nextSource := by
  by_contra hle
  rw [h.sources source (not_lt.mp hle)] at hs
  cases hs

theorem Inv.addBookmark {db : Db} (h : Inv db) {source : Nat} (hs : source < db.nextSource)
    (userSub : Str) (context contextId : Option Str) :
    Inv (addBookmark db userSub source context contextId) := by
  refine ⟨h.sources, fun b hb => ?_, h.jobs⟩
  rcases List.mem_append.mp hb with hb | hb
  · exact h.bookmarks b hb
  · cases List.mem_singleton.mp hb
    exact hs

theorem findSource_lt {db : Db} {provider providerVideoId : Str} {source : Nat}
    (h : findSource db provider providerVideoId = some source) : source < db.nextSource :=
  List.mem_range.mp (List.mem_of_find?_eq_some h)

/-- The step lemma. -/
theorem Inv.step {db db' : Db} {a : Act} (h : Inv db) (hstep : step db a = some db') : Inv db' := by
  have hallowed : a.Allowed db = true := by
    rw [Catalogue.step] at hstep
    split at hstep
    · assumption
    · cases hstep
  cases perform_of_step hstep
  cases a with
  | importHit u p v l c k =>
      rw [perform]
      split
      · rename_i source hfound
        exact h.addBookmark (findSource_lt hfound) u c k
      · exact h
  | addBookmark job source c k =>
      rw [perform]
      split
      · exact h.addBookmark (h.lt (Bool.and_eq_true_iff.mp hallowed).2) _ c k
      · exact h
  | enqueue u =>
      refine ⟨h.sources, h.bookmarks, fun i j source hj hsource => ?_⟩
      have hjobs : (perform db (.enqueue u)).jobs =
        Function.update db.jobs db.nextJob (some ⟨u, db.now, newRow⟩) := rfl
      rw [hjobs] at hj
      by_cases hi : i = db.nextJob
      · rw [hi, Function.update_self] at hj
        cases hj
        cases hsource
      · rw [Function.update_of_ne hi] at hj
        exact h.jobs i j source hj hsource
  | upsertSource s =>
      rw [perform, upsertSource]
      split
      · rename_i i hfound
        refine ⟨fun k hk => ?_, h.bookmarks, h.jobs⟩
        have hne : k ≠ i := fun heq => absurd (findSource_lt hfound) (not_lt.mpr (heq ▸ hk))
        exact (Function.update_of_ne hne _ _).trans (h.sources k hk)
      · refine ⟨fun k hk => ?_, fun b hb => Nat.lt_succ_of_lt (h.bookmarks b hb),
          fun i j source hj hs => Nat.lt_succ_of_lt (h.jobs i j source hj hs)⟩
        have hlt : db.nextSource < k := hk
        exact (Function.update_of_ne hlt.ne' _ _).trans (h.sources k hlt.le)
  | updateSourceDuration source d =>
      refine ⟨fun k hk => ?_, h.bookmarks, h.jobs⟩
      have hnone := h.sources k hk
      have hsources : (perform db (.updateSourceDuration source d)).sources =
          Function.update db.sources source ((db.sources source).map fun s =>
            { s with durationSec := some (s.durationSec.getD d) }) := rfl
      rw [hsources]
      by_cases heq : k = source
      · rw [← heq, Function.update_self, hnone]
        rfl
      · rw [Function.update_of_ne heq, hnone]
  | insertTranscript source l m t segments =>
      rw [perform]
      refine ⟨?_, ?_, ?_⟩
      · rw [sources_insertTranscript]
        intro k hk
        refine h.sources k (le_trans (le_of_eq ?_) hk)
        rw [insertTranscript]
        split
        · rfl
        · rfl
      · rw [bookmarks_insertTranscript]
        intro b hb
        refine lt_of_lt_of_eq (h.bookmarks b hb) ?_
        rw [insertTranscript]
        split
        · rfl
        · rfl
      · rw [jobs_insertTranscript]
        intro i j k hj hk
        refine lt_of_lt_of_eq (h.jobs i j k hj hk) ?_
        rw [insertTranscript]
        split
        · rfl
        · rfl
  | statement s =>
      refine ⟨h.sources, h.bookmarks, fun i j' source hj hsource => ?_⟩
      obtain ⟨j, hold, rfl⟩ := Option.map_eq_some_iff.mp hj
      cases hrow : s.run db.table i with
      | none =>
          rw [hrow] at hsource
          exact h.jobs i j source hold hsource
      | some r' =>
          rw [hrow] at hsource
          obtain ⟨r, hr, hsame | ⟨job, began, source', reused, rfl, hwritten⟩⟩ :=
            sourceId_of_run hrow
          · have hrow : db.table i = some j.row := by rw [Db.table, hold]; rfl
            rw [hr] at hrow
            cases hrow
            exact h.jobs i j source hold (hsame.symm.trans hsource)
          · cases hwritten.symm.trans hsource
            exact h.lt hallowed
  | purge source =>
      refine ⟨fun k hk => ?_, fun b hb => h.bookmarks b (List.mem_of_mem_filter hb),
        fun i j' k hj hk => ?_⟩
      · have hsources : (perform db (.purge source)).sources =
          Function.update db.sources source none := rfl
        rw [hsources]
        by_cases heq : k = source
        · rw [heq, Function.update_self]
        · rw [Function.update_of_ne heq, h.sources k hk]
      · obtain ⟨j, hold, rfl⟩ := Option.map_eq_some_iff.mp hj
        split at hk
        · cases hk
        · exact h.jobs i j k hold hk
  | wait d => exact ⟨h.sources, h.bookmarks, h.jobs⟩

/-- The step is somebody else's, and writes no source the user is linked to. -/
def Act.Foreign (userSub : Str) (db : Db) : Act → Prop
  | .wait _ => True
  | .importHit u _ _ _ _ _ => u ≠ userSub
  | .enqueue u => u ≠ userSub
  | .upsertSource s => ∀ source, findSource db s.provider s.providerVideoId = some source →
      ¬ Linked db userSub source
  | .updateSourceDuration source _ => ¬ Linked db userSub source
  | .insertTranscript source _ _ _ _ => ¬ Linked db userSub source
  | .purge source => ¬ Linked db userSub source
  | .addBookmark job _ _ _ => ∀ j, db.jobs job = some j → j.userSub ≠ userSub
  | .statement s => ∀ i j, db.jobs i = some j → j.userSub = userSub → s.run db.table i = some j.row

section Foreign

variable {userSub : Str} {db : Db}

theorem Inv.linked_lt (h : Inv db) {source : Nat} (hlinked : Linked db userSub source) :
    source < db.nextSource := by
  rcases hlinked with ⟨b, hb, -, rfl⟩ | ⟨i, j, hj, -, hs⟩
  · exact h.bookmarks b hb
  · exact h.jobs i j source hj hs

theorem SameView.refl (userSub : Str) (db : Db) : SameView userSub db db :=
  ⟨fun _ => rfl, rfl, fun _ _ => rfl, fun _ _ => rfl⟩

theorem SameView.trans {db' db'' : Db} (h : SameView userSub db db')
    (h' : SameView userSub db' db'') : SameView userSub db db'' where
  jobs i := (h.jobs i).trans (h'.jobs i)
  bookmarks := h.bookmarks.trans h'.bookmarks
  sources s hs := (h.sources s hs).trans (h'.sources s ((h.linked_iff s).mp hs))
  transcripts s hs := (h.transcripts s hs).trans (h'.transcripts s ((h.linked_iff s).mp hs))

/-- Somebody else's bookmark. -/
theorem sameView_addBookmark {u : Str} (hne : u ≠ userSub) (source : Nat)
    (context contextId : Option Str) :
    SameView userSub db (addBookmark db u source context contextId) := by
  refine ⟨fun _ => rfl, ?_, fun _ _ => rfl, fun _ _ => rfl⟩
  rw [addBookmark, List.filter_append, List.filter_cons_of_neg, List.filter_nil, List.append_nil]
  exact fun heq => hne (beq_iff_eq.mp heq)

/-- A write to the sources, where the user is not linked to the one it is about. -/
theorem sameView_sources {source : Nat} {new : Option Source} {next : Nat}
    (hnot : ¬ Linked db userSub source) :
    SameView userSub db
      { db with sources := Function.update db.sources source new, nextSource := next } := by
  refine ⟨fun _ => rfl, rfl, fun s hs => ?_, fun _ _ => rfl⟩
  have hne : s ≠ source := fun heq => hnot (heq ▸ hs)
  exact (Function.update_of_ne hne _ _).symm

theorem transcriptsOf_insert {source s : Nat} (hne : s ≠ source) (l m t : Str)
    (segments : List ChunkDict) :
    transcriptsOf (insertTranscript db source l m t segments) s = transcriptsOf db s := by
  rw [insertTranscript]
  split
  · have hkey : ∀ row : Transcript, row.isKey source l m = true → row.videoSourceId = source :=
      fun row hrow => by
        rw [Transcript.isKey, Bool.and_eq_true, Bool.and_eq_true, beq_iff_eq] at hrow
        exact hrow.1.1
    rw [transcriptsOf, transcriptsOf, List.filter_map]
    have hfilter : ((fun row : Transcript => row.videoSourceId == s) ∘ fun row : Transcript =>
        if row.isKey source l m then { row with contentText := t, segments := segments } else row) =
        fun row => row.videoSourceId == s := by
      funext row
      dsimp only [Function.comp_apply]
      split
      · rfl
      · rfl
    rw [hfilter]
    refine (List.map_congr_left fun row hrow => ?_).trans (List.map_id _)
    refine if_neg fun hisKey => hne ?_
    exact (beq_iff_eq.mp (List.mem_filter.mp hrow).2).symm.trans (hkey row hisKey)
  · rw [transcriptsOf, transcriptsOf, List.filter_append, List.filter_cons_of_neg, List.filter_nil,
      List.append_nil]
    exact fun heq => hne (beq_iff_eq.mp heq).symm

/-- The step lemma of the view. -/
theorem sameView_perform {a : Act} (hinv : Inv db) (ha : a.Foreign userSub db) :
    SameView userSub db (perform db a) := by
  cases a with
  | wait d => exact ⟨fun _ => rfl, rfl, fun _ _ => rfl, fun _ _ => rfl⟩
  | importHit u p v l c k =>
      rw [perform]
      split
      · exact sameView_addBookmark ha _ c k
      · exact SameView.refl userSub db
  | addBookmark job source c k =>
      rw [perform]
      split
      · rename_i j hj
        exact sameView_addBookmark (ha j hj) source c k
      · exact SameView.refl userSub db
  | upsertSource s =>
      rw [perform, upsertSource]
      split
      · rename_i i hfound
        exact sameView_sources (ha i hfound)
      · exact sameView_sources fun hlinked => lt_irrefl _ (hinv.linked_lt hlinked)
  | updateSourceDuration source d => exact sameView_sources ha
  | insertTranscript source l m t segments =>
      rw [perform]
      refine ⟨fun i => by rw [jobs_insertTranscript], by rw [bookmarks_insertTranscript],
        fun s _ => by rw [sources_insertTranscript], fun s hs => ?_⟩
      have hne : s ≠ source := fun heq => ha (heq ▸ hs)
      exact (transcriptsOf_insert hne l m t segments).symm
  | enqueue u =>
      refine ⟨fun i => ?_, rfl, fun _ _ => rfl, fun _ _ => rfl⟩
      have hjobs : (perform db (.enqueue u)).jobs =
        Function.update db.jobs db.nextJob (some ⟨u, db.now, newRow⟩) := rfl
      rw [hjobs]
      by_cases hi : i = db.nextJob
      · rw [hi, Function.update_self, db.given _ (le_refl _), Option.filter_none,
          Option.filter_some, if_neg fun heq => ha (of_decide_eq_true heq)]
      · rw [Function.update_of_ne hi]
  | statement s =>
      refine ⟨fun i => ?_, rfl, fun _ _ => rfl, fun _ _ => rfl⟩
      have hjobs : (perform db (.statement s)).jobs i = (db.jobs i).map fun j =>
        { j with row := (s.run db.table i).getD j.row } := rfl
      rw [hjobs]
      cases hj : db.jobs i with
      | none => rfl
      | some j =>
          rw [Option.map_some, Option.filter_some, Option.filter_some]
          by_cases huser : j.userSub = userSub
          · rw [ha i j hj huser]
            rfl
          · have hnot : ¬ decide (j.userSub = userSub) = true := by simpa using huser
            rw [if_neg hnot, if_neg hnot]
  | purge source =>
      refine ⟨fun i => ?_, ?_, fun s hs => ?_, fun s hs => ?_⟩
      · have hjobs : (perform db (.purge source)).jobs i = (db.jobs i).map fun j =>
          if j.row.videoSourceId = some source then
            { j with row := { j.row with videoSourceId := none } }
          else j := rfl
        rw [hjobs]
        cases hj : db.jobs i with
        | none => rfl
        | some j =>
            rw [Option.map_some]
            split
            · rename_i hsource
              have hother : j.userSub ≠ userSub := fun huser =>
                ha (Or.inr ⟨i, j, hj, huser, hsource⟩)
              have hnot : ¬ decide (j.userSub = userSub) = true := by simpa using hother
              rw [Option.filter_some, Option.filter_some, if_neg hnot, if_neg hnot]
            · rfl
      · have hbookmarks : (perform db (.purge source)).bookmarks =
          db.bookmarks.filter (·.videoSourceId != source) := rfl
        rw [hbookmarks, List.filter_filter]
        refine List.filter_congr fun b hb => ?_
        cases huser : b.userSub == userSub with
        | false => rfl
        | true =>
            have hne : b.videoSourceId ≠ source := fun heq =>
              ha (Or.inl ⟨b, hb, beq_iff_eq.mp huser, heq⟩)
            rw [Bool.true_and, bne_iff_ne.mpr hne]
      · have hne : s ≠ source := fun heq => ha (heq ▸ hs)
        exact (Function.update_of_ne hne _ _).symm
      · have hne : s ≠ source := fun heq => ha (heq ▸ hs)
        have htranscripts : transcriptsOf (perform db (.purge source)) s =
          (db.transcripts.filter (·.videoSourceId != source)).filter (·.videoSourceId == s) := rfl
        rw [htranscripts, List.filter_filter, transcriptsOf]
        refine List.filter_congr fun t _ => ?_
        cases hs : t.videoSourceId == s with
        | false => rfl
        | true =>
            rw [Bool.true_and, bne_iff_ne.mpr fun heq => hne ((beq_iff_eq.mp hs).symm.trans heq)]

end Foreign

theorem inv_of_run {as : List Act} {db : Db} (hrun : TSys.run step .start as = some db) :
    Inv db := by
  have hall : TSys.Guarded step (fun _ _ => True) .start as :=
    TSys.guarded_of_forall step fun _ _ => trivial
  exact TSys.inv_of_guarded step Inv (fun _ _ _ hinv _ hstep => hinv.step hstep) inv_start hall hrun

/-- **Others do not show.** Whatever others import, and whatever the workers and the administrators
write to other sources, every answer to a user stays what it was. -/
theorem answers_kept {userSub : Str} {as bs : List Act} {db db' : Db}
    (hrun : TSys.run step .start as = some db)
    (hforeign : TSys.Guarded step (fun d a => a.Foreign userSub d) db bs)
    (hmore : TSys.run step db bs = some db') (r : Request) :
    answer db' userSub r = answer db userSub r := by
  have hinv : ∀ d a d', Inv d ∧ SameView userSub db d → a.Foreign userSub d → step d a = some d' →
      Inv d' ∧ SameView userSub db d' := by
    rintro d a d' ⟨hd, hview⟩ ha hstep
    refine ⟨hd.step hstep, ?_⟩
    cases perform_of_step hstep
    exact hview.trans (sameView_perform hd ha)
  have hend := TSys.inv_of_guarded step (fun d => Inv d ∧ SameView userSub db d) hinv
    ⟨inv_of_run hrun, SameView.refl userSub db⟩ hforeign hmore
  exact (answer_of_sameView hend.2 r).symm

theorem answers_kept_watched : ∃ db db', TSys.run step .start [.enqueue ['w']] = some db ∧
    TSys.run step db [.enqueue ['v'], .wait 1] = some db' ∧
    ∀ r, answer db' ['w'] r = answer db ['w'] r := by
  have hrun : TSys.run step .start [.enqueue ['w']] = some (enqueue .start ['w']) := rfl
  have hmore : TSys.run step (enqueue .start ['w']) [.enqueue ['v'], .wait 1] =
    some (perform (enqueue (enqueue .start ['w']) ['v']) (.wait 1)) := rfl
  refine ⟨_, _, hrun, hmore, answers_kept hrun ?_ hmore⟩
  refine TSys.guarded_cons step (fun heq => absurd heq (by decide)) rfl ?_
  exact TSys.guarded_cons step trivial rfl trivial

end MesReunions.VideoIngest.Catalogue
