import Mathlib.Data.List.Basic
import MesReunions.Base.TSys
import MesReunions.Preparations.Corpus

/-!
# The jobs that generate preparations

`generation_jobs.py` of the portal, and the worker of `routes.py` that reports to it. The store is a
table that several pods share. A report is best-effort: it can be lost, and so can the worker.

* `Script`, `trace` — what the services answered in a generation, and the reports of its worker.
* `Mark` — where the worker is; `Lags` — the row says the same, or less.
* `Sane` — what a row says is consistent, and its end is the end of the generation.
* **`shown_of_run`** — what is shown to a user is a job they asked for, and is sane.
* **`progress_of_run`** — what is shown later says no less, nothing changes after the end, and the
  job is shown for an hour from its end.
-/

namespace MesReunions.Preparations.GenerationJobs

/-! ## The table -/

/-- `phase` -/
inductive Phase where
  | queued
  | init
  | testDrive
  | listingDocs
  | readingDoc
  | generatingLlm
  | persisting
  | extractingGlossary
  | done
  | failed
  deriving DecidableEq

/-- The order of the phases; a generation ends in one of the last two. -/
def Phase.rank : Phase → Nat
  | queued => 0
  | init => 1
  | testDrive => 2
  | listingDocs => 3
  | readingDoc => 4
  | generatingLlm => 5
  | persisting => 6
  | extractingGlossary => 7
  | done => 8
  | failed => 8

def Phase.isEnd : Phase → Bool
  | done | failed => true
  | _ => false

/-- A row of `preparation_generation_jobs`. -/
structure Job where
  userSub : Str
  phase : Phase
  currentDoc : Option Str
  docsProcessed : Nat
  docsTotal : Nat
  preparationId : Option Str
  error : Option Str
  startedAt : Nat
  finishedAt : Option Nat

/-- The fields of a call of `update_job`; `finishes` says that `finished_at` is among them. -/
structure Update where
  phase : Option Phase := none
  currentDoc : Option (Option Str) := none
  docsProcessed : Option Nat := none
  docsTotal : Option Nat := none
  preparationId : Option (Option Str) := none
  error : Option Str := none
  finishes : Bool := false

/-- `setattr(row, k, v)` for each field. -/
def Job.apply (now : Nat) (u : Update) (j : Job) : Job :=
  { j with
    phase := u.phase.getD j.phase
    currentDoc := u.currentDoc.getD j.currentDoc
    docsProcessed := u.docsProcessed.getD j.docsProcessed
    docsTotal := u.docsTotal.getD j.docsTotal
    preparationId := u.preparationId.getD j.preparationId
    error := u.error.or j.error
    finishedAt := if u.finishes then some now else j.finishedAt }

/-- The row that `create_job` adds. -/
def Job.queued (now : Nat) (userSub : Str) : Job :=
  ⟨userSub, .queued, none, 0, 0, none, none, now, none⟩

/-- `mark_failed(job_id, error)` -/
def markFailed (error : Str) : Update :=
  { phase := some .failed, error := some (error.take 500), finishes := true }

/-- `mark_done(job_id, preparation_id)` -/
def markDone (preparationId : Option Str) : Update :=
  { phase := some .done, preparationId := some preparationId, finishes := true }

/-! ## The worker -/

/-- Why a generation fails: one of the calls of `_fail`, or another exception, with its text. -/
inductive Failure where
  | noRefreshToken
  | unreadableToken
  | refreshRejected
  | identityUnavailable
  | driveForbidden
  | driveRefused
  | driveNotFound
  | driveUnavailable
  | noTemplate
  | llmRefused
  | llmUnavailable
  | llmUnusable
  | raised (text : Str)

/-- `err_msg`, or `str(exc)` -/
def Failure.text : Failure → Str
  | noRefreshToken => ("Aucun token Drive enregistré. Déconnectez-vous puis reconnectez-vous pour " ++
      "réautoriser l'accès au Drive.").toList
  | unreadableToken => "Token Drive illisible côté serveur.".toList
  | refreshRejected => "Le jeton Drive a expiré. Déconnectez-vous puis reconnectez-vous.".toList
  | identityUnavailable => "Le service d'identité est temporairement indisponible.".toList
  | driveForbidden => ("Vous n'avez pas accès à ce dossier sur le Drive. Vérifiez l'URL collée ou " ++
      "demandez l'accès au propriétaire.").toList
  | driveRefused => "Accès Drive refusé. Déconnectez-vous puis reconnectez-vous.".toList
  | driveNotFound => "Dossier Drive introuvable. Vérifiez l'URL ou l'identifiant collé.".toList
  | driveUnavailable => "Le Drive est temporairement indisponible.".toList
  | noTemplate => "Modèle de prompt indisponible.".toList
  | llmRefused => "Le service LLM a refusé la requête (clé invalide).".toList
  | llmUnavailable => "Le service LLM est temporairement indisponible.".toList
  | llmUnusable => "Le LLM n'a pas pu produire un brief exploitable.".toList
  | raised text => text

/-- `_fail` reports the error before it raises. -/
def Failure.updates (f : Failure) : List Update :=
  match f with
  | .raised text => [markFailed text]
  | f => [{ error := some f.text }, markFailed f.text]

/-- What became of the folder of a generation. -/
inductive DriveRun where
  /-- It fails before the folder is listed. -/
  | failed (f : Failure)
  | unlisted (f : Failure)
  | read (children : List Child)
  /-- The download of `item` raises; `rest` is not tried. -/
  | broken (children : List Child) (item : Item) (rest : List Item) (f : Failure)

/-- What the services answered. -/
structure Script where
  folder : Option DriveRun
  template : Option Failure
  llm : Option Failure
  /-- The id of the preparation that was persisted. -/
  persisted : Option Str

section Trace

variable (lower : Str → Str) (cfg : Config)

def reading (item : Item) (ingested total : Nat) : Update :=
  { phase := some .readingDoc, currentDoc := some (itemName item), docsProcessed := some ingested,
    docsTotal := some total }

/-- What is reported before a download. -/
def before (total : Nat) (st : State) (item : Item) : List Update :=
  if isFolder lower item = true ∨ itemId item = [] ∨ cfg.maxDocs ≤ st.ingested then []
  else [reading item st.ingested total]

/-- What is reported once a document is added. -/
def after (total : Nat) (st st' : State) (item : Item) : List Update :=
  if st.ingested < st'.ingested then [reading item st'.ingested total] else []

/-- The reports of the loop of `assemble_corpus`. -/
def readings (total : Nat) : State → List Child → List Update
  | _, [] => []
  | st, x :: xs =>
      let st' := Preparations.step lower cfg st x
      before lower cfg total st x.1 ++ after total st st' x.1 ++ readings total st' xs

/-- `docs_total` -/
def docsTotal (items : List Item) : Nat :=
  min (items.countP fun item => !isFolder lower item) cfg.maxDocs

/-- The reports about the folder, and how it ended. -/
def driveUpdates : DriveRun → List Update × Option Failure
  | .failed f => ([], some f)
  | .unlisted f => ([{ phase := some .listingDocs }], some f)
  | .read children =>
      let total := docsTotal lower cfg (children.map Prod.fst)
      ([{ phase := some .listingDocs }, { phase := some .listingDocs, docsTotal := some total }] ++
        readings lower cfg total .start children, none)
  | .broken children item rest f =>
      let total := docsTotal lower cfg (children.map Prod.fst ++ item :: rest)
      ([{ phase := some .listingDocs }, { phase := some .listingDocs, docsTotal := some total }] ++
        readings lower cfg total .start children ++
        before lower cfg total (children.foldl (Preparations.step lower cfg) .start) item, some f)

/-- The reports from the prompt on. -/
def promptUpdates (s : Script) : List Update :=
  match s.template, s.llm with
  | some f, _ => f.updates
  | none, some f => { phase := some .generatingLlm } :: f.updates
  | none, none =>
      { phase := some .generatingLlm } :: { phase := some .persisting } ::
        match s.persisted with
        | none => [markDone none]
        | some i => [{ phase := some .extractingGlossary, preparationId := some (some i) },
            markDone (some i)]

/-- The reports of `_run_generation_worker`, in their order. -/
def trace (s : Script) : List Update :=
  { phase := some .init } ::
    match s.folder with
    | none => promptUpdates s
    | some run =>
        let drive := driveUpdates lower cfg run
        { phase := some .testDrive } :: drive.1 ++
          match drive.2 with
          | some f => f.updates
          | none => promptUpdates s

/-- How the generation ends. -/
def Script.result (s : Script) : Except Failure (Option Str) :=
  match (s.folder.bind fun run => (driveUpdates lower cfg run).2).or (s.template.or s.llm) with
  | some f => .error f
  | none => .ok s.persisted

end Trace

/-! ## The system -/

/-- The table, and the reports that each worker has still to make. Ids are given in order. -/
structure Sys where
  now : Nat
  jobs : Nat → Option Job
  workers : Nat → List Update
  nextId : Nat

def Sys.start : Sys := ⟨0, fun _ => none, fun _ => [], 0⟩

/-- `_TTL_SECONDS`, in microseconds. -/
def ttl : Nat := 3600 * 1000000

/-- `_gc(db)` -/
def Sys.gc (s : Sys) : Sys :=
  { s with jobs := fun i => (s.jobs i).filter fun j => !j.finishedAt.any fun t => t + ttl < s.now }

inductive Act where
  | wait (d : Nat)
  /-- `create_preparation`: whether the purge and the new row are stored, and what will become of the
  generation. -/
  | create (userSub : Str) (script : Script) (purged stored : Bool)
  /-- The next report of a worker, stored or lost. -/
  | report (id : Nat) (stored : Bool)
  /-- The pod of a worker stops. -/
  | crash (id : Nat)

def step (lower : Str → Str) (cfg : Config) (s : Sys) : Act → Option Sys
  | .wait d => some { s with now := s.now + d }
  | .create userSub script purged stored =>
      let s := if purged then s.gc else s
      if stored then
        some { s with
          jobs := Function.update s.jobs s.nextId (some (Job.queued s.now userSub))
          workers := Function.update s.workers s.nextId (trace lower cfg script)
          nextId := s.nextId + 1 }
      else some s
  | .report id stored =>
      match s.workers id with
      | [] => none
      | u :: us =>
          some { s with
            jobs := if stored then
                Function.update s.jobs id ((s.jobs id).map (Job.apply s.now u))
              else s.jobs
            workers := Function.update s.workers id us }
  | .crash id => some { s with workers := Function.update s.workers id [] }

/-- `get_job(job_id, user_sub)` -/
def getJob (s : Sys) (id : Nat) (userSub : Str) : Option Job :=
  match s.jobs id with
  | none => none
  | some j =>
      if userSub ≠ [] ∧ j.userSub ≠ [] ∧ j.userSub ≠ userSub then none else some j

/-! ## Where a worker is -/

/-- What the row would say if no report had been lost. -/
structure Mark where
  rank : Nat
  processed : Nat
  total : Option Nat
  preparationId : Option (Option Str)
  erred : Bool
  ended : Bool

def Mark.start : Mark := ⟨0, 0, none, none, false, false⟩

def Mark.next (m : Mark) (u : Update) : Mark where
  rank := (u.phase.map Phase.rank).getD m.rank
  processed := u.docsProcessed.getD m.processed
  total := u.docsTotal.or m.total
  preparationId := u.preparationId.or m.preparationId
  erred := m.erred || u.error.isSome
  ended := m.ended || u.finishes

/-- A report that can come next, in a generation that ends with `result`. -/
structure Follows (result : Except Failure (Option Str)) (m : Mark) (u : Update) : Prop where
  live : m.ended = false
  rank : ∀ p, u.phase = some p → m.rank ≤ p.rank
  finishes : u.finishes = true ↔ ∃ p, u.phase = some p ∧ p.isEnd = true
  done : u.phase = some .done → m.erred = false ∧ u.error = none ∧
    ∃ i, result = .ok i ∧ u.preparationId = some i
  failed : u.phase = some .failed → ∃ f, result = .error f ∧ u.error = some (f.text.take 500)
  processed : ∀ n, u.docsProcessed = some n → m.processed ≤ n ∧ ∃ t, u.docsTotal = some t ∧ n ≤ t
  total : ∀ t, u.docsTotal = some t → m.processed ≤ t ∧ ∀ t', m.total = some t' → t' = t
  preparation : ∀ i, u.preparationId = some i → ∀ i', m.preparationId = some i' → i' = i

/-- The reports that are left can come one after the other. -/
def Ordered (result : Except Failure (Option Str)) : Mark → List Update → Prop
  | _, [] => True
  | m, u :: us => Follows result m u ∧ Ordered result (m.next u) us

/-- The row says what was reported, or less. -/
structure Lags (j : Job) (m : Mark) : Prop where
  rank : j.phase.rank ≤ m.rank
  processed : j.docsProcessed ≤ m.processed
  total : j.docsTotal = 0 ∨ m.total = some j.docsTotal
  preparation : j.preparationId = none ∨ m.preparationId = some j.preparationId
  error : m.erred = false → j.error = none
  finished : m.ended = false → j.finishedAt = none

/-- A row is consistent, and what it says of the end is how the generation ended. -/
structure Sane (result : Except Failure (Option Str)) (j : Job) : Prop where
  finished : j.finishedAt.isSome = j.phase.isEnd
  done : j.phase = .done → j.error = none ∧ result = .ok j.preparationId
  failed : j.phase = .failed → ∃ f, result = .error f ∧ j.error = some (f.text.take 500)
  documents : j.docsProcessed ≤ j.docsTotal

/-- A row that is read later says no less, and the same once it is finished. -/
structure Grows (j j' : Job) : Prop where
  userSub : j'.userSub = j.userSub
  startedAt : j'.startedAt = j.startedAt
  rank : j.phase.rank ≤ j'.phase.rank
  processed : j.docsProcessed ≤ j'.docsProcessed
  total : j.docsTotal = 0 ∨ j'.docsTotal = j.docsTotal
  preparation : j.preparationId = none ∨ j'.preparationId = j.preparationId
  error : j.error.isSome → j'.error.isSome
  finished : j.finishedAt.isSome → j' = j

theorem Grows.refl (j : Job) : Grows j j :=
  ⟨rfl, rfl, le_rfl, le_rfl, Or.inr rfl, Or.inr rfl, id, fun _ => rfl⟩

theorem Grows.trans {j j' j'' : Job} (h : Grows j j') (h' : Grows j' j'') : Grows j j'' where
  userSub := h'.userSub.trans h.userSub
  startedAt := h'.startedAt.trans h.startedAt
  rank := h.rank.trans h'.rank
  processed := h.processed.trans h'.processed
  total := by
    rcases h.total with hzero | heq
    · exact Or.inl hzero
    · rw [← heq]
      exact h'.total
  preparation := by
    rcases h.preparation with hnone | heq
    · exact Or.inl hnone
    · rw [← heq]
      exact h'.preparation
  error := fun he => h'.error (h.error he)
  finished := fun hf => by
    have heq := h.finished hf
    rw [← heq] at hf
    exact (h'.finished hf).trans heq

section Report

variable {result : Except Failure (Option Str)} {m : Mark} {u : Update} {j : Job} {now : Nat}

/-- A report that is lost leaves the row behind. -/
theorem Lags.lost (h : Lags j m) (hu : Follows result m u) : Lags j (m.next u) where
  rank := by
    show _ ≤ (u.phase.map Phase.rank).getD m.rank
    cases hp : u.phase with
    | none => exact h.rank
    | some p => exact h.rank.trans (hu.rank p hp)
  processed := by
    show _ ≤ u.docsProcessed.getD m.processed
    cases hn : u.docsProcessed with
    | none => exact h.processed
    | some n => exact h.processed.trans (hu.processed n hn).1
  total := by
    show _ ∨ u.docsTotal.or m.total = _
    rcases h.total with hzero | heq
    · exact Or.inl hzero
    · cases ht : u.docsTotal with
      | none => exact Or.inr heq
      | some t => exact Or.inr (congrArg some ((hu.total t ht).2 _ heq).symm)
  preparation := by
    show _ ∨ u.preparationId.or m.preparationId = _
    rcases h.preparation with hnone | heq
    · exact Or.inl hnone
    · cases hi : u.preparationId with
      | none => exact Or.inr heq
      | some i => exact Or.inr (congrArg some (hu.preparation i hi _ heq).symm)
  error := fun he => h.error (Bool.or_eq_false_iff.mp he).1
  finished := fun hf => h.finished (Bool.or_eq_false_iff.mp hf).1

/-- A report that is stored brings the row up. -/
theorem Lags.stored (h : Lags j m) : Lags (j.apply now u) (m.next u) where
  rank := by
    show (u.phase.getD j.phase).rank ≤ (u.phase.map Phase.rank).getD m.rank
    cases u.phase with
    | none => exact h.rank
    | some p => exact le_rfl
  processed := by
    show u.docsProcessed.getD j.docsProcessed ≤ u.docsProcessed.getD m.processed
    cases u.docsProcessed with
    | none => exact h.processed
    | some n => exact le_rfl
  total := by
    show u.docsTotal.getD j.docsTotal = 0 ∨ u.docsTotal.or m.total = some (u.docsTotal.getD j.docsTotal)
    cases u.docsTotal with
    | none => exact h.total
    | some t => exact Or.inr rfl
  preparation := by
    show u.preparationId.getD j.preparationId = none ∨
      u.preparationId.or m.preparationId = some (u.preparationId.getD j.preparationId)
    cases u.preparationId with
    | none => exact h.preparation
    | some i => exact Or.inr rfl
  error := fun he => by
    obtain ⟨hm, hu⟩ := Bool.or_eq_false_iff.mp he
    show u.error.or j.error = none
    rw [Option.isSome_eq_false_iff.mp hu |> Option.isNone_iff_eq_none.mp, h.error hm]
    rfl
  finished := fun hf => by
    obtain ⟨hm, hu⟩ := Bool.or_eq_false_iff.mp hf
    show (if u.finishes = true then some now else j.finishedAt) = none
    rw [hu, h.finished hm]
    rfl

/-- A row that is not finished grows. -/
theorem grows_apply (h : Lags j m) (hu : Follows result m u) : Grows j (j.apply now u) where
  userSub := rfl
  startedAt := rfl
  rank := by
    show _ ≤ (u.phase.getD j.phase).rank
    cases hp : u.phase with
    | none => exact le_rfl
    | some p => exact h.rank.trans (hu.rank p hp)
  processed := by
    show _ ≤ u.docsProcessed.getD j.docsProcessed
    cases hn : u.docsProcessed with
    | none => exact le_rfl
    | some n => exact h.processed.trans (hu.processed n hn).1
  total := by
    show _ ∨ u.docsTotal.getD j.docsTotal = _
    rcases h.total with hzero | heq
    · exact Or.inl hzero
    · cases ht : u.docsTotal with
      | none => exact Or.inr rfl
      | some t => exact Or.inr ((hu.total t ht).2 _ heq).symm
  preparation := by
    show _ ∨ u.preparationId.getD j.preparationId = _
    rcases h.preparation with hnone | heq
    · exact Or.inl hnone
    · cases hi : u.preparationId with
      | none => exact Or.inr rfl
      | some i => exact Or.inr (hu.preparation i hi _ heq).symm
  error := fun he => by
    show (u.error.or j.error).isSome = true
    cases u.error with
    | none => exact he
    | some _ => rfl
  finished := fun hf => by
    rw [h.finished hu.live] at hf
    cases hf

theorem sane_apply (h : Lags j m) (hs : Sane result j) (hu : Follows result m u) :
    Sane result (j.apply now u) where
  finished := by
    show (if u.finishes = true then some now else j.finishedAt).isSome = (u.phase.getD j.phase).isEnd
    cases hf : u.finishes with
    | true =>
        obtain ⟨p, hp, hend⟩ := hu.finishes.mp hf
        rw [hp, Option.getD_some, hend]
        rfl
    | false =>
        have hnone : j.finishedAt = none := h.finished hu.live
        have hend : ∀ p, u.phase = some p → p.isEnd = false := fun p hp =>
          Bool.eq_false_iff.mpr fun hend =>
            Bool.false_ne_true (hf.symm.trans (hu.finishes.mpr ⟨p, hp, hend⟩))
        rw [if_neg Bool.false_ne_true, hs.finished]
        cases hp : u.phase with
        | none => rfl
        | some p => rw [Option.getD_some, hend p hp, ← hs.finished, hnone]; rfl
  done := by
    intro hdone
    have hphase : u.phase.getD j.phase = .done := hdone
    cases hp : u.phase with
    | none =>
        -- The row was at its end, and no report comes after it.
        rw [hp, Option.getD_none] at hphase
        have hend := hs.finished
        rw [h.finished hu.live, hphase] at hend
        cases hend
    | some p =>
        rw [hp, Option.getD_some] at hphase
        obtain ⟨hm, herror, i, hresult, hi⟩ := hu.done (by rw [hp, hphase])
        constructor
        · show u.error.or j.error = none
          rw [herror, h.error hm]
          rfl
        · show result = .ok (u.preparationId.getD j.preparationId)
          rw [hi, hresult]
          rfl
  failed := by
    intro hfailed
    have hphase : u.phase.getD j.phase = .failed := hfailed
    cases hp : u.phase with
    | none =>
        rw [hp, Option.getD_none] at hphase
        have hend := hs.finished
        rw [h.finished hu.live, hphase] at hend
        cases hend
    | some p =>
        rw [hp, Option.getD_some] at hphase
        obtain ⟨f, hresult, herror⟩ := hu.failed (by rw [hp, hphase])
        refine ⟨f, hresult, ?_⟩
        show u.error.or j.error = _
        rw [herror]
        rfl
  documents := by
    show u.docsProcessed.getD j.docsProcessed ≤ u.docsTotal.getD j.docsTotal
    cases hn : u.docsProcessed with
    | some n =>
        obtain ⟨-, t, ht, hle⟩ := hu.processed n hn
        rw [ht]
        exact hle
    | none =>
        cases ht : u.docsTotal with
        | none => exact hs.documents
        | some t => exact h.processed.trans (hu.total t ht).1

end Report

/-! ## The reports of a worker -/

section Reports

variable {lower : Str → Str} {cfg : Config} {result : Except Failure (Option Str)} {m : Mark}

/-- Nothing has ended, and no preparation is there. -/
structure Underway (m : Mark) (r : Nat) : Prop where
  live : m.ended = false
  erred : m.erred = false
  preparation : m.preparationId = none
  rank : m.rank ≤ r

theorem Underway.mono {r r' : Nat} (h : Underway m r) (hle : r ≤ r') : Underway m r' :=
  ⟨h.live, h.erred, h.preparation, h.rank.trans hle⟩

/-- A report of a phase that is no end. -/
theorem follows_phase {p : Phase} (h : Underway m p.rank) (hend : p.isEnd = false) :
    Follows result m { phase := some p } where
  live := h.live
  rank := fun p' hp => by
    cases hp
    exact h.rank
  finishes := by
    constructor
    · intro hf
      cases hf
    · rintro ⟨p', hp, hend'⟩
      cases hp
      rw [hend] at hend'
      cases hend'
  done := fun hp => by
    cases hp
    cases hend
  failed := fun hp => by
    cases hp
    cases hend
  processed := nofun
  total := nofun
  preparation := nofun

theorem underway_phase {p : Phase} (h : Underway m p.rank) :
    Underway (m.next { phase := some p }) p.rank :=
  ⟨by rw [Mark.next, h.live]; rfl, by rw [Mark.next, h.erred]; rfl, h.preparation, le_rfl⟩

theorem ordered_phase {p : Phase} {us : List Update} (h : Underway m p.rank)
    (hend : p.isEnd = false)
    (hrest : ∀ m', Underway m' p.rank → Ordered result m' us) :
    Ordered result m ({ phase := some p } :: us) :=
  ⟨follows_phase h hend, hrest _ (underway_phase h)⟩

theorem follows_markFailed {f : Failure} (hresult : result = .error f) (hlive : m.ended = false)
    (hrank : m.rank ≤ 8) : Follows result m (markFailed f.text) where
  live := hlive
  rank := fun p' hp => by
    cases hp
    exact hrank
  finishes := ⟨fun _ => ⟨.failed, rfl, rfl⟩, fun _ => rfl⟩
  done := nofun
  failed := fun _ => ⟨f, hresult, rfl⟩
  processed := nofun
  total := nofun
  preparation := nofun

theorem follows_error {e : Str} (hlive : m.ended = false) : Follows result m { error := some e } where
  live := hlive
  rank := nofun
  finishes := ⟨nofun, fun ⟨_, hp, _⟩ => nomatch hp⟩
  done := nofun
  failed := nofun
  processed := nofun
  total := nofun
  preparation := nofun

theorem ordered_failure {f : Failure} (hresult : result = .error f) (h : Underway m 8) :
    Ordered result m f.updates := by
  have hfailed : ∀ m', m'.ended = false → m'.rank ≤ 8 → Ordered result m' [markFailed f.text] :=
    fun m' hlive hrank => ⟨follows_markFailed hresult hlive hrank, trivial⟩
  have htold : Ordered result m [{ error := some f.text }, markFailed f.text] := by
    refine ⟨follows_error h.live, hfailed _ ?_ h.rank⟩
    rw [Mark.next, h.live]
    rfl
  cases f with
  | raised text => exact hfailed m h.live h.rank
  | _ => exact htold

theorem follows_markDone {i : Option Str} (hresult : result = .ok i) (hlive : m.ended = false)
    (herred : m.erred = false) (hrank : m.rank ≤ 8)
    (hpreparation : ∀ i', m.preparationId = some i' → i' = i) : Follows result m (markDone i) where
  live := hlive
  rank := fun p' hp => by
    cases hp
    exact hrank
  finishes := ⟨fun _ => ⟨.done, rfl, rfl⟩, fun _ => rfl⟩
  done := fun _ => ⟨herred, rfl, i, hresult, rfl⟩
  failed := nofun
  processed := nofun
  total := nofun
  preparation := fun i' hi i'' hi'' => by
    cases hi
    exact hpreparation i'' hi''

theorem ordered_glossary {i : Str} (hresult : result = .ok (some i)) (h : Underway m 7) :
    Ordered result m [{ phase := some .extractingGlossary, preparationId := some (some i) },
      markDone (some i)] := by
  have hfirst : Follows result m
      { phase := some .extractingGlossary, preparationId := some (some i) } :=
    { live := h.live
      rank := fun p' hp => by
        cases hp
        exact h.rank
      finishes := ⟨nofun, fun ⟨p', hp, hend⟩ => by cases hp; cases hend⟩
      done := nofun
      failed := nofun
      processed := nofun
      total := nofun
      preparation := fun i' _ i'' hi'' => by
        rw [h.preparation] at hi''
        cases hi'' }
  refine ⟨hfirst, follows_markDone hresult ?_ ?_ (Nat.le_succ 7) fun i' hi' => ?_, trivial⟩
  · rw [Mark.next, h.live]
    rfl
  · rw [Mark.next, h.erred]
    rfl
  · exact (Option.some.inj hi').symm

/-- How a generation whose folder was read ends. -/
def Script.promptResult (s : Script) : Except Failure (Option Str) :=
  match s.template.or s.llm with
  | some f => .error f
  | none => .ok s.persisted

theorem ordered_prompt {s : Script} (h : Underway m 4) :
    Ordered s.promptResult m (promptUpdates s) := by
  obtain ⟨folder, template, llm, persisted⟩ := s
  cases template with
  | some f => exact ordered_failure rfl (h.mono (by decide))
  | none =>
      cases llm with
      | some f =>
          refine ordered_phase (h.mono (by decide)) rfl fun m' h' => ?_
          exact ordered_failure rfl (h'.mono (by decide))
      | none =>
          refine ordered_phase (h.mono (by decide)) rfl fun m' h' => ?_
          refine ordered_phase (h'.mono (by decide)) rfl fun m'' h'' => ?_
          cases persisted with
          | none =>
              refine ⟨follows_markDone rfl h''.live h''.erred (h''.rank.trans (by decide))
                fun i' hi' => ?_, trivial⟩
              rw [h''.preparation] at hi'
              cases hi'
          | some i => exact ordered_glossary rfl (h''.mono (by decide))

/-- The folder is listed, and some documents have been read. -/
structure AtDocument (m : Mark) (total n : Nat) : Prop extends Underway m 4 where
  total : m.total = some total
  processed : m.processed ≤ n

theorem follows_reading {item : Item} {total n n' : Nat} (h : AtDocument m total n) (hle : n ≤ n')
    (hn : n' ≤ total) : Follows result m (reading item n' total) where
  live := h.live
  rank := fun p' hp => by
    cases hp
    exact h.rank
  finishes := ⟨nofun, fun ⟨p', hp, hend⟩ => by cases hp; cases hend⟩
  done := nofun
  failed := nofun
  processed := fun k hk => by
    cases hk
    exact ⟨h.processed.trans hle, total, rfl, hn⟩
  total := fun t ht => by
    cases ht
    refine ⟨h.processed.trans (hle.trans hn), fun t' ht' => ?_⟩
    rw [h.total] at ht'
    exact (Option.some.inj ht').symm
  preparation := nofun

theorem atDocument_reading {item : Item} {total n n' : Nat} (h : AtDocument m total n) :
    AtDocument (m.next (reading item n' total)) total n' where
  live := by
    rw [Mark.next, h.live]
    rfl
  erred := by
    rw [Mark.next, h.erred]
    rfl
  preparation := h.preparation
  rank := le_rfl
  total := rfl
  processed := le_rfl

/-- The documents among the children. -/
def leaves (lower : Str → Str) (items : List Item) : Nat :=
  items.countP fun item => !isFolder lower item

theorem ordered_before {item : Item} {total : Nat} {st : State} {us : List Update}
    (h : AtDocument m total st.ingested)
    (hroom : isFolder lower item = false → st.ingested < cfg.maxDocs → st.ingested ≤ total)
    (hrest : ∀ m', AtDocument m' total st.ingested → Ordered result m' us) :
    Ordered result m (before lower cfg total st item ++ us) := by
  rw [before]
  split
  · exact hrest m h
  · rename_i hread
    obtain ⟨hleaf, -, hdocs⟩ := not_or.mp hread |>.imp_right not_or.mp
    have hle := hroom (Bool.eq_false_iff.mpr hleaf) (not_le.mp hdocs)
    exact ⟨follows_reading h le_rfl hle, hrest _ (atDocument_reading h)⟩

/-- A document that is read is one more, and there was room for it. -/
theorem ingested_step (lower : Str → Str) (cfg : Config) (st : State) (x : Child) :
    (Preparations.step lower cfg st x).ingested = st.ingested ∨
      (Preparations.step lower cfg st x).ingested = st.ingested + 1 ∧
        isFolder lower x.1 = false ∧ st.ingested < cfg.maxDocs := by
  rcases step_cases lower cfg st x with ⟨status, -, -, heq⟩ | ⟨doc, text, hreads, -, heq⟩
  · rw [heq]
    exact Or.inl rfl
  · rw [heq]
    exact Or.inr ⟨rfl, hreads.leaf, hreads.docs⟩

theorem ingested_le (lower : Str → Str) (cfg : Config) (children : List Child) (st : State) :
    (children.foldl (Preparations.step lower cfg) st).ingested ≤
      st.ingested + leaves lower (children.map Prod.fst) := by
  induction children generalizing st with
  | nil => exact le_rfl
  | cons x xs ih =>
      rw [List.foldl_cons, List.map_cons, leaves, List.countP_cons]
      refine (ih _).trans ?_
      rw [leaves]
      rcases ingested_step lower cfg st x with heq | ⟨heq, hleaf, -⟩
      · omega
      · rw [hleaf, heq]
        simp only [Bool.not_false, if_true]
        omega

theorem ordered_readings {total bound : Nat} (htotal : total = min bound cfg.maxDocs)
    {us : List Update} : ∀ {xs : List Child} {st : State} {m : Mark}, AtDocument m total st.ingested →
    st.ingested + leaves lower (xs.map Prod.fst) ≤ bound →
    (∀ m', AtDocument m' total (xs.foldl (Preparations.step lower cfg) st).ingested →
      Ordered result m' us) →
    Ordered result m (readings lower cfg total st xs ++ us) := by
  intro xs
  induction xs with
  | nil => exact fun h _ hrest => hrest _ h
  | cons x xs ih =>
      intro st m h hcount hrest
      rw [List.map_cons, leaves, List.countP_cons] at hcount
      rw [readings, List.append_assoc, List.append_assoc]
      refine ordered_before h (fun hleaf hdocs => ?_) fun m' h' => ?_
      · rw [hleaf] at hcount
        simp only [Bool.not_false, if_true] at hcount
        omega
      · rw [after]
        rcases ingested_step lower cfg st x with heq | ⟨heq, hleaf, hdocs⟩
        · rw [if_neg (by omega)]
          refine ih (by rw [heq]; exact h') ?_ hrest
          rw [heq]
          exact le_trans (by rw [leaves]; omega) hcount
        · rw [hleaf] at hcount
          simp only [Bool.not_false, if_true] at hcount
          rw [if_pos (by omega)]
          refine ⟨follows_reading h' (by omega) (by omega), ?_⟩
          refine ih (atDocument_reading h') ?_ hrest
          rw [heq, leaves]
          omega

/-- The folder is listed; then come the documents. -/
theorem ordered_listed {total : Nat} {us : List Update} (h : Underway m 2) (hprocessed : m.processed = 0)
    (hnone : m.total = none) (hrest : ∀ m', AtDocument m' total 0 → Ordered result m' us) :
    Ordered result m ([{ phase := some .listingDocs },
      { phase := some .listingDocs, docsTotal := some total }] ++ us) := by
  have hfirst : Underway m Phase.listingDocs.rank := h.mono (by decide)
  have hsecond : Underway (m.next { phase := some .listingDocs }) Phase.listingDocs.rank :=
    underway_phase hfirst
  refine ⟨follows_phase hfirst rfl, ?_, hrest _ ?_⟩
  · exact
      { live := hsecond.live
        rank := fun p' hp => by
          cases hp
          exact hsecond.rank
        finishes := ⟨nofun, fun ⟨p', hp, hend⟩ => by cases hp; cases hend⟩
        done := nofun
        failed := nofun
        processed := nofun
        total := fun t _ => by
          refine ⟨?_, fun t' ht' => ?_⟩
          · show m.processed ≤ t
            rw [hprocessed]
            exact Nat.zero_le t
          · have hbefore : m.total = some t' := ht'
            rw [hnone] at hbefore
            cases hbefore
        preparation := nofun }
  · refine ⟨⟨?_, ?_, h.preparation, Nat.le_succ 3⟩, rfl, ?_⟩
    · rw [Mark.next, hsecond.live]
      rfl
    · rw [Mark.next, hsecond.erred]
      rfl
    · show m.processed ≤ 0
      rw [hprocessed]

theorem ordered_drive {run : DriveRun} {us : List Update} (h : Underway m 2)
    (hprocessed : m.processed = 0) (hnone : m.total = none)
    (hrest : ∀ m', Underway m' 4 → Ordered result m' us) :
    Ordered result m ((driveUpdates lower cfg run).1 ++ us) := by
  cases run with
  | failed f => exact hrest m (h.mono (by decide))
  | unlisted f =>
      exact ordered_phase (h.mono (by decide)) rfl fun m' h' => hrest m' (h'.mono (by decide))
  | read children =>
      rw [driveUpdates, List.append_assoc]
      refine ordered_listed h hprocessed hnone fun m' h' => ?_
      refine ordered_readings rfl h' (Nat.zero_add _).le fun m₂ h₂ => ?_
      exact hrest m₂ h₂.toUnderway
  | broken children item rest f =>
      rw [driveUpdates, List.append_assoc, List.append_assoc]
      refine ordered_listed h hprocessed hnone fun m' h' => ?_
      have hcount : leaves lower (children.map Prod.fst) ≤
          leaves lower (children.map Prod.fst ++ item :: rest) := by
        rw [leaves, leaves, List.countP_append]
        exact Nat.le_add_right _ _
      refine ordered_readings rfl h' ((Nat.zero_add _).le.trans hcount) fun m₂ h₂ => ?_
      refine ordered_before h₂ (fun hleaf hdocs => le_min ?_ hdocs.le) fun m₃ h₃ => ?_
      · have hread := ingested_le lower cfg children State.start
        exact (hread.trans (Nat.zero_add _).le).trans hcount
      · exact hrest m₃ h₃.toUnderway

/-- **The reports of a worker.** They can come one after the other, and end as the generation. -/
theorem ordered_trace (s : Script) :
    Ordered (s.result lower cfg) Mark.start (trace lower cfg s) := by
  have hstart : Underway Mark.start 1 := ⟨rfl, rfl, rfl, Nat.zero_le _⟩
  cases hfolder : s.folder with
  | none =>
      have hresult : s.result lower cfg = s.promptResult := by
        rw [Script.result, hfolder]
        rfl
      rw [trace, hfolder, hresult]
      exact ordered_phase hstart rfl fun m' h' => ordered_prompt (h'.mono (by decide))
  | some run =>
      rw [trace, hfolder]
      refine ⟨follows_phase hstart rfl, ?_⟩
      have hinit : Underway (Mark.start.next { phase := some .init }) Phase.init.rank :=
        underway_phase hstart
      refine ⟨follows_phase (hinit.mono (by decide)) rfl, ?_⟩
      refine ordered_drive (underway_phase (hinit.mono (by decide))) rfl rfl fun m' h' => ?_
      cases hfailure : (driveUpdates lower cfg run).2 with
      | some f =>
          refine ordered_failure ?_ (h'.mono (by decide))
          rw [Script.result, hfolder, Option.bind_some, hfailure]
          rfl
      | none =>
          have hresult : s.result lower cfg = s.promptResult := by
            rw [Script.result, hfolder, Option.bind_some, hfailure]
            rfl
          rw [hresult]
          exact ordered_prompt h'

end Reports

/-! ## The jobs of a run -/

section Steps

variable {lower : Str → Str} {cfg : Config} {s s' : Sys} {a : Act} {i : Nat}

/-- A row, with the worker that is behind it. -/
structure Tracked (result : Except Failure (Option Str)) (s : Sys) (i : Nat) (j : Job) : Prop where
  sane : Sane result j
  past : ∀ t, j.finishedAt = some t → t ≤ s.now
  worker : ∃ m, Lags j m ∧ Ordered result m (s.workers i)

/-- The worker of a row may stop, and time may pass. -/
theorem Tracked.congr {result : Except Failure (Option Str)} {j : Job} (h : Tracked result s i j)
    (hnow : s.now ≤ s'.now) (hworkers : s'.workers i = s.workers i ∨ s'.workers i = []) :
    Tracked result s' i j := by
  refine ⟨h.sane, fun t ht => (h.past t ht).trans hnow, ?_⟩
  obtain ⟨m, hlags, hordered⟩ := h.worker
  refine ⟨m, hlags, ?_⟩
  rcases hworkers with heq | heq
  · rw [heq]
    exact hordered
  · rw [heq]
    trivial

/-- A report is stored, or lost. -/
theorem Tracked.report {result : Except Failure (Option Str)} {j j' : Job} {u : Update}
    {us : List Update} (h : Tracked result s i j) (hworker : s.workers i = u :: us)
    (hnow : s'.now = s.now) (hworkers : s'.workers i = us) (hj' : j' = j ∨ j' = j.apply s.now u) :
    Tracked result s' i j' ∧ Grows j j' := by
  obtain ⟨m, hlags, hordered⟩ := h.worker
  rw [hworker] at hordered
  obtain ⟨hfollows, hrest⟩ := hordered
  rcases hj' with rfl | rfl
  · refine ⟨⟨h.sane, fun t ht => (h.past t ht).trans hnow.ge, m.next u, hlags.lost hfollows, ?_⟩,
      Grows.refl j'⟩
    rw [hworkers]
    exact hrest
  · refine ⟨⟨sane_apply hlags h.sane hfollows, fun t ht => ?_, m.next u, hlags.stored, ?_⟩,
      grows_apply hlags hfollows⟩
    · have hfinished : (if u.finishes = true then some s.now else j.finishedAt) = some t := ht
      rw [hnow]
      split at hfinished
      · exact (Option.some.inj hfinished).ge
      · exact h.past t hfinished
    · rw [hworkers]
      exact hrest

theorem gc_some {j : Job} (h : s.gc.jobs i = some j) : s.jobs i = some j :=
  (Option.filter_eq_some_iff.mp h).1

/-- A row after a step is a new one, or it was there and has grown. -/
theorem step_job {j' : Job} (h : step lower cfg s a = some s') (hj' : s'.jobs i = some j') :
    (∃ userSub script purged, a = .create userSub script purged true ∧ i = s.nextId ∧
      j' = Job.queued s.now userSub ∧ s'.workers i = trace lower cfg script) ∨
    ∃ j, s.jobs i = some j ∧ (j' = j ∨ ∃ u, j' = j.apply s.now u) ∧
      ∀ result, Tracked result s i j → Tracked result s' i j' ∧ Grows j j' := by
  cases a with
  | wait d =>
      cases h
      exact Or.inr ⟨j', hj', Or.inl rfl, fun result ht =>
        ⟨ht.congr (Nat.le_add_right _ _) (Or.inl rfl), Grows.refl j'⟩⟩
  | create userSub script purged stored =>
      have hpurged : ∀ {k : Job}, (if purged = true then s.gc else s).jobs i = some k →
          s.jobs i = some k := by
        intro k hk
        split at hk
        · exact gc_some hk
        · exact hk
      have hnow : (if purged = true then s.gc else s).now = s.now := by split <;> rfl
      have hworkers : (if purged = true then s.gc else s).workers = s.workers := by split <;> rfl
      have hnext : (if purged = true then s.gc else s).nextId = s.nextId := by split <;> rfl
      rw [step] at h
      split at h
      · rename_i hstored
        cases h
        dsimp only at hj'
        by_cases hi : i = s.nextId
        · rw [hnext, hi, Function.update_self] at hj'
          refine Or.inl ⟨userSub, script, purged, by rw [hstored], hi, ?_, ?_⟩
          · rw [← Option.some.inj hj', hnow]
          · show Function.update _ _ _ i = _
            rw [hnext, hi, Function.update_self]
        · rw [hnext, Function.update_of_ne hi] at hj'
          refine Or.inr ⟨j', hpurged hj', Or.inl rfl, fun result ht => ⟨ht.congr hnow.ge (Or.inl ?_),
            Grows.refl j'⟩⟩
          show Function.update _ _ _ i = _
          rw [hnext, Function.update_of_ne hi, hworkers]
      · cases h
        refine Or.inr ⟨j', hpurged hj', Or.inl rfl, fun result ht => ⟨ht.congr hnow.ge (Or.inl ?_),
          Grows.refl j'⟩⟩
        rw [hworkers]
  | report id stored =>
      rw [step] at h
      split at h
      · cases h
      · rename_i u us hworker
        cases h
        by_cases hi : i = id
        · subst hi
          have hfrom : ∃ j, s.jobs i = some j ∧ (j' = j ∨ j' = j.apply s.now u) := by
            dsimp only at hj'
            split at hj'
            · rw [Function.update_self] at hj'
              obtain ⟨j, hj, rfl⟩ := Option.map_eq_some_iff.mp hj'
              exact ⟨j, hj, Or.inr rfl⟩
            · exact ⟨j', hj', Or.inl rfl⟩
          obtain ⟨j, hj, hor⟩ := hfrom
          exact Or.inr ⟨j, hj, hor.imp_right fun heq => ⟨u, heq⟩, fun result ht =>
            ht.report hworker rfl (Function.update_self ..) hor⟩
        · have hj : s.jobs i = some j' := by
            dsimp only at hj'
            split at hj'
            · rw [Function.update_of_ne hi] at hj'
              exact hj'
            · exact hj'
          exact Or.inr ⟨j', hj, Or.inl rfl, fun result ht =>
            ⟨ht.congr le_rfl (Or.inl (Function.update_of_ne hi ..)), Grows.refl j'⟩⟩
  | crash id =>
      cases h
      refine Or.inr ⟨j', hj', Or.inl rfl, fun result ht => ⟨ht.congr le_rfl ?_, Grows.refl j'⟩⟩
      by_cases hi : i = id
      · rw [hi]
        exact Or.inr (Function.update_self ..)
      · exact Or.inl (Function.update_of_ne hi ..)

theorem step_now (h : step lower cfg s a = some s') : s.now ≤ s'.now := by
  cases a with
  | wait d =>
      cases h
      exact Nat.le_add_right _ _
  | create userSub script purged stored =>
      rw [step] at h
      split at h
      · cases h
        show s.now ≤ (if purged = true then s.gc else s).now
        split <;> exact le_rfl
      · cases h
        split <;> exact le_rfl
  | report id stored =>
      rw [step] at h
      split at h
      · cases h
      · cases h
        exact le_rfl
  | crash id =>
      cases h
      exact le_rfl

theorem step_nextId (h : step lower cfg s a = some s') : s.nextId ≤ s'.nextId := by
  cases a with
  | wait d =>
      cases h
      exact le_rfl
  | create userSub script purged stored =>
      rw [step] at h
      split at h
      · cases h
        show s.nextId ≤ (if purged = true then s.gc else s).nextId + 1
        split <;> exact Nat.le_succ _
      · cases h
        split <;> exact le_rfl
  | report id stored =>
      rw [step] at h
      split at h
      · cases h
      · cases h
        exact le_rfl
  | crash id =>
      cases h
      exact le_rfl

/-- A row that goes has been finished for longer than the limit. -/
theorem step_removed {j : Job} (h : step lower cfg s a = some s') (hj : s.jobs i = some j)
    (hi : i < s.nextId) (hgone : s'.jobs i = none) :
    ∃ t, j.finishedAt = some t ∧ t + ttl < s.now := by
  cases a with
  | wait d =>
      cases h
      have hsome : s.jobs i = none := hgone
      rw [hj] at hsome
      cases hsome
  | create userSub script purged stored =>
      have hgc : (if purged = true then s.gc else s).jobs i = none := by
        have hnext : (if purged = true then s.gc else s).nextId = s.nextId := by split <;> rfl
        rw [step] at h
        split at h
        · cases h
          dsimp only at hgone
          rw [hnext, Function.update_of_ne (Nat.ne_of_lt hi)] at hgone
          exact hgone
        · cases h
          exact hgone
      split at hgc
      · have hfilter : (some j).filter (fun j => !j.finishedAt.any fun t => t + ttl < s.now) = none := by
          rw [← hj]
          exact hgc
        rw [Option.filter_some] at hfilter
        split at hfilter
        · cases hfilter
        · rename_i hnot
          rw [Bool.not_eq_true', Bool.not_eq_false, Option.any_eq_true] at hnot
          obtain ⟨t, ht, hlt⟩ := hnot
          exact ⟨t, ht, of_decide_eq_true hlt⟩
      · rw [hj] at hgc
        cases hgc
  | report id stored =>
      rw [step] at h
      split at h
      · cases h
      · cases h
        dsimp only at hgone
        split at hgone
        · by_cases hid : i = id
          · rw [hid, Function.update_self, ← hid, hj] at hgone
            cases hgone
          · rw [Function.update_of_ne hid, hj] at hgone
            cases hgone
        · rw [hj] at hgone
          cases hgone
  | crash id =>
      cases h
      have hsome : s.jobs i = none := hgone
      rw [hj] at hsome
      cases hsome

end Steps

section Runs

variable {lower : Str → Str} {cfg : Config}

/-- The creation that gave an id, in a run from the empty table. -/
def Created (lower : Str → Str) (cfg : Config) (as : List Act) (i : Nat) (userSub : Str)
    (script : Script) : Prop :=
  ∃ earlier later purged s, as = earlier ++ .create userSub script purged true :: later ∧
    TSys.run (step lower cfg) .start earlier = some s ∧ s.nextId = i

theorem Created.append {as : List Act} {i : Nat} {userSub : Str} {script : Script}
    (h : Created lower cfg as i userSub script) (bs : List Act) :
    Created lower cfg (as ++ bs) i userSub script := by
  obtain ⟨earlier, later, purged, s, rfl, hrun, hi⟩ := h
  exact ⟨earlier, later ++ bs, purged, s, by rw [List.append_assoc, List.cons_append], hrun, hi⟩

/-- Each row belongs to a creation, whose generation it follows. -/
def Reached (lower : Str → Str) (cfg : Config) (as : List Act) (s : Sys) : Prop :=
  ∀ i j, s.jobs i = some j → i < s.nextId ∧ ∃ userSub script,
    Created lower cfg as i userSub script ∧ j.userSub = userSub ∧
      Tracked (script.result lower cfg) s i j

theorem reached_step {as : List Act} {s s' : Sys} {a : Act}
    (hrun : TSys.run (step lower cfg) .start as = some s) (h : Reached lower cfg as s)
    (hstep : step lower cfg s a = some s') : Reached lower cfg (as ++ [a]) s' := by
  intro i j' hj'
  rcases step_job hstep hj' with ⟨userSub, script, purged, rfl, rfl, rfl, hworker⟩ |
    ⟨j, hj, -, hkeep⟩
  · refine ⟨?_, userSub, script, ⟨as, [], purged, s, rfl, hrun, rfl⟩, rfl, ?_⟩
    · by_contra hle
      -- The id that was given is below the next one.
      rw [step] at hstep
      have hnext : (if purged = true then s.gc else s).nextId = s.nextId := by split <;> rfl
      rw [if_pos rfl] at hstep
      cases hstep
      exact hle (by rw [hnext]; exact Nat.lt_succ_self _)
    · refine ⟨⟨rfl, nofun, nofun, le_rfl⟩, nofun, Mark.start, ?_, ?_⟩
      · exact ⟨le_rfl, le_rfl, Or.inl rfl, Or.inl rfl, fun _ => rfl, fun _ => rfl⟩
      · rw [hworker]
        exact ordered_trace script
  · obtain ⟨hlt, userSub, script, hcreated, huser, htracked⟩ := h i j hj
    obtain ⟨htracked', hgrows⟩ := hkeep _ htracked
    exact ⟨hlt.trans_le (step_nextId hstep), userSub, script, hcreated.append [a],
      hgrows.userSub.trans huser, htracked'⟩

theorem reached_of_run {as : List Act} : ∀ {s : Sys},
    TSys.run (step lower cfg) .start as = some s → Reached lower cfg as s := by
  induction as using List.reverseRecOn with
  | nil =>
      intro s hrun i j hj
      cases hrun
      cases hj
  | append_singleton as a ih =>
      intro s hrun
      rw [TSys.run_append] at hrun
      obtain ⟨s₁, hrun₁, hlast⟩ := Option.bind_eq_some_iff.mp hrun
      rw [TSys.run] at hlast
      split at hlast
      · cases hlast
      · rename_i s₂ hstep
        rw [TSys.run] at hlast
        cases hlast
        exact reached_step hrun₁ (ih hrun₁) hstep

theorem getJob_eq_some {s : Sys} {i : Nat} {userSub : Str} {j : Job} :
    getJob s i userSub = some j ↔
      s.jobs i = some j ∧ (userSub = [] ∨ j.userSub = [] ∨ j.userSub = userSub) := by
  rw [getJob]
  cases s.jobs i with
  | none => simp
  | some j' =>
      dsimp only
      rw [Option.ite_none_left_eq_some, Option.some_inj]
      constructor
      · rintro ⟨hnot, rfl⟩
        exact ⟨rfl, by tauto⟩
      · rintro ⟨rfl, hor⟩
        exact ⟨by tauto, rfl⟩

/-- **What is shown.** In every run, a job that is shown to a user was created by them (or by a
request without a user); what it says is consistent, and once it says that the generation has ended,
this is how it ended. -/
theorem shown_of_run {as : List Act} {s : Sys} {i : Nat} {userSub : Str} {j : Job}
    (hrun : TSys.run (step lower cfg) .start as = some s) (h : getJob s i userSub = some j) :
    ∃ owner script, Created lower cfg as i owner script ∧
      (userSub = [] ∨ owner = [] ∨ owner = userSub) ∧ Sane (script.result lower cfg) j := by
  obtain ⟨hj, hor⟩ := getJob_eq_some.mp h
  obtain ⟨-, owner, script, hcreated, rfl, htracked⟩ := reached_of_run hrun i j hj
  exact ⟨j.userSub, script, hcreated, hor, htracked.sane⟩

/-- A row grows, and is there for the time of the limit. -/
structure Keeps (i base : Nat) (j : Job) (s : Sys) : Prop where
  given : i < s.nextId
  past : base ≤ s.now
  grown : ∀ j', s.jobs i = some j' → Grows j j' ∧ ∃ result, Tracked result s i j'
  finished : ∀ j' t, s.jobs i = some j' → j'.finishedAt = some t → base ≤ t
  there : s.now ≤ base + ttl → (s.jobs i).isSome = true

theorem keeps_step {i base : Nat} {j : Job} {s s' : Sys} {a : Act} (h : Keeps i base j s)
    (hstep : step lower cfg s a = some s') : Keeps i base j s' where
  given := h.given.trans_le (step_nextId hstep)
  past := h.past.trans (step_now hstep)
  grown := by
    intro j'' hj''
    rcases step_job hstep hj'' with ⟨_, _, _, -, hi, -⟩ | ⟨j', hj', -, hkeep⟩
    · exact absurd hi (Nat.ne_of_lt h.given)
    · obtain ⟨hgrows, result, htracked⟩ := h.grown j' hj'
      obtain ⟨htracked', hgrows'⟩ := hkeep result htracked
      exact ⟨hgrows.trans hgrows', result, htracked'⟩
  finished := by
    intro j'' t hj'' ht
    rcases step_job hstep hj'' with ⟨_, _, _, -, hi, -⟩ | ⟨j', hj', heq, -⟩
    · exact absurd hi (Nat.ne_of_lt h.given)
    · rcases heq with rfl | ⟨u, rfl⟩
      · exact h.finished j'' t hj' ht
      · have hfinished : (if u.finishes = true then some s.now else j'.finishedAt) = some t := ht
        split at hfinished
        · rw [← Option.some.inj hfinished]
          exact h.past
        · exact h.finished j' t hj' hfinished
  there := by
    intro htime
    have hthere := h.there ((step_now hstep).trans htime)
    obtain ⟨j', hj'⟩ := Option.isSome_iff_exists.mp hthere
    by_contra hgone
    have hnone : s'.jobs i = none := Option.not_isSome_iff_eq_none.mp hgone
    obtain ⟨t, ht, hlt⟩ := step_removed hstep hj' h.given hnone
    have hbase := h.finished j' t hj' ht
    have hnow := (step_now hstep).trans htime
    omega

/-- **What is shown later.** In every run, a job that is shown once and shown again later, to
whoever it is, says no less than before, and the same if it had ended; and it is shown to the same
user for an hour from then, or from its end. -/
theorem progress_of_run {as bs : List Act} {s s' : Sys} {i : Nat} {userSub : Str} {j : Job}
    (hrun : TSys.run (step lower cfg) .start as = some s) (h : getJob s i userSub = some j)
    (hlater : TSys.run (step lower cfg) s bs = some s') :
    (∀ other j', getJob s' i other = some j' → Grows j j') ∧
      (s'.now ≤ j.finishedAt.getD s.now + ttl → ∃ j', getJob s' i userSub = some j') := by
  obtain ⟨hj, hor⟩ := getJob_eq_some.mp h
  obtain ⟨hlt, owner, script, -, -, htracked⟩ := reached_of_run hrun i j hj
  have hpast : j.finishedAt.getD s.now ≤ s.now := by
    cases ht : j.finishedAt with
    | none => exact le_rfl
    | some t => exact htracked.past t ht
  have hstart : Keeps i (j.finishedAt.getD s.now) j s := by
    refine ⟨hlt, hpast, fun j' hj' => ?_, fun j' t hj' ht => ?_, fun _ => ?_⟩
    · rw [hj] at hj'
      cases hj'
      exact ⟨Grows.refl j, _, htracked⟩
    · rw [hj] at hj'
      cases hj'
      rw [ht, Option.getD_some]
    · rw [hj]
      rfl
  have hguarded : TSys.Guarded (step lower cfg) (fun _ _ => True) s bs :=
    TSys.guarded_of_forall (step lower cfg) fun _ _ => trivial
  have hend : Keeps i (j.finishedAt.getD s.now) j s' :=
    TSys.inv_of_guarded (step lower cfg) (Keeps i (j.finishedAt.getD s.now) j)
      (fun _ _ _ hkeeps _ hstep => keeps_step hkeeps hstep) hstart hguarded hlater
  constructor
  · intro other j' hj'
    exact (hend.grown j' (getJob_eq_some.mp hj').1).1
  · intro htime
    obtain ⟨j', hj'⟩ := Option.isSome_iff_exists.mp (hend.there htime)
    refine ⟨j', getJob_eq_some.mpr ⟨hj', ?_⟩⟩
    rw [(hend.grown j' hj').1.userSub]
    exact hor

end Runs

/-! ## A generation -/

/-- A folder with one document. -/
def oneDocument : Script where
  folder := some (.read [(⟨.str "d".toList, some "Note".toList, none, none, none, none, false,
    false⟩, .text "Bonjour".toList)])
  template := none
  llm := none
  persisted := some "p".toList

def smallConfig : Config := ⟨20, 40000⟩

/-- Ana asks for a preparation; the third report is lost. -/
def underway : List Act :=
  [.create "ana".toList oneDocument true true, .report 0 true, .report 0 true, .report 0 false,
    .report 0 true, .report 0 true]

/-- The reports go on to the end; then Bob asks for one, and the table is purged. -/
def onward : List Act :=
  List.replicate 5 (.report 0 true) ++ [.wait 1000000, .create "bob".toList oneDocument true true]

theorem underway_isSome : ((TSys.run (step id smallConfig) .start underway).bind fun s =>
    getJob s 0 "ana".toList).isSome = true := by
  decide +kernel

theorem onward_isSome : ((TSys.run (step id smallConfig) .start underway).bind fun s =>
    TSys.run (step id smallConfig) s onward).isSome = true := by
  decide +kernel

theorem shown_of_run_underway : ∃ s j, TSys.run (step id smallConfig) .start underway = some s ∧
    getJob s 0 "ana".toList = some j ∧ ∃ owner script,
      Created id smallConfig underway 0 owner script ∧
        ("ana".toList = [] ∨ owner = [] ∨ owner = "ana".toList) ∧
        Sane (script.result id smallConfig) j := by
  obtain ⟨j, hbind⟩ := Option.isSome_iff_exists.mp underway_isSome
  obtain ⟨s, hrun, hj⟩ := Option.bind_eq_some_iff.mp hbind
  exact ⟨s, j, hrun, hj, shown_of_run hrun hj⟩

theorem progress_of_run_onward : ∃ s s' j, getJob s 0 "ana".toList = some j ∧
    TSys.run (step id smallConfig) s onward = some s' ∧
    (∀ other j', getJob s' 0 other = some j' → Grows j j') ∧
      (s'.now ≤ j.finishedAt.getD s.now + ttl → ∃ j', getJob s' 0 "ana".toList = some j') := by
  obtain ⟨j, hbind⟩ := Option.isSome_iff_exists.mp underway_isSome
  obtain ⟨s, hrun, hj⟩ := Option.bind_eq_some_iff.mp hbind
  obtain ⟨s', hbind'⟩ := Option.isSome_iff_exists.mp onward_isSome
  obtain ⟨s₁, hrun₁, hlater⟩ := Option.bind_eq_some_iff.mp hbind'
  have heq : s₁ = s := Option.some.inj (hrun₁.symm.trans hrun)
  subst heq
  exact ⟨s₁, s', j, hj, hlater, progress_of_run hrun hj hlater⟩

end MesReunions.Preparations.GenerationJobs
