import MesReunions.Base.TSys
import MesReunions.Outcome.Writers

/-!
# Status and error

Any number of sessions over one row: each loads it, and commits later what its writer makes of
the row it loaded. The sweep of the capped rows is a single statement.

* `Row.Agrees` — no error beside `kevent_completed`, and one beside `kevent_partially_completed`.
* `Work.Fits` — what a writer has to find for that; `commit_agrees_iff` says that it is exact.
* **`agrees_of_guarded`** — the row agrees in every run whose commits all fit.
* **`diarization_lost`** — it does not in every run.
-/

namespace MesReunions.Outcome

open Llm

/-! ## The system -/

/-- A session that has loaded the row. -/
structure Session where
  work : Work
  loaded : Row

structure World where
  now : Nat
  row : Option Row
  sessions : Nat → Option Session

def World.start : World := ⟨0, none, fun _ => none⟩

inductive Act where
  | wait (d : Nat)
  | create (src : Source)
  | load (q : Nat) (w : Work)
  | commit (q : Nat)
  | drop (q : Nat)
  /-- `_mark_capped_as_failed`; when the version and the activity say so is left open. -/
  | markCapped (message : Str)

def step (s : World) : Act → Option World
  | .wait d => some { s with now := s.now + d }
  | .create src =>
      match s.row with
      | none => some { s with row := some (src.row s.now) }
      | some _ => none
  | .load q w =>
      match s.row, s.sessions q with
      | some r, none => some { s with sessions := Function.update s.sessions q (some ⟨w, r⟩) }
      | _, _ => none
  | .commit q =>
      match s.row, s.sessions q with
      | some r, some session => some { s with
          row := some (r.commit session.loaded (session.work.assign session.loaded s.now))
          sessions := Function.update s.sessions q none }
      | _, _ => none
  | .drop q => some { s with sessions := Function.update s.sessions q none }
  | .markCapped message =>
      match s.row with
      | some r =>
          if nonTerminalStatuses.contains r.transcriptionStatus then
            some { s with row := some (r.markCapped s.now message) }
          else some s
      | none => some s

/-! ## Agreement -/

/-- A status and a kind of error that go together. -/
def Agree (status : Status) (kind : Option Str) : Prop :=
  (status = .keventCompleted → kind = none) ∧ (status = .keventPartiallyCompleted → kind ≠ none)

def Row.Agrees (r : Row) : Prop := Agree r.transcriptionStatus r.lastErrorKind

/-- The kind is to be cleared, or need not be: a status that turns to `kevent_completed` comes
with a kind that the session clears, or finds none. -/
def Clears (names : Bool) (loaded current : Row) : Prop :=
  loaded.transcriptionStatus ≠ .keventCompleted →
    names = true ∧ loaded.lastErrorKind ≠ none ∨ current.lastErrorKind = none

/-- A status that turns to `kevent_partially_completed` without a word finds a kind. -/
def Keeps (loaded current : Row) : Prop :=
  loaded.transcriptionStatus ≠ .keventPartiallyCompleted → current.lastErrorKind ≠ none

/-- `kevent_partially_completed` with the kind cleared: only commits that overlap can save it. -/
def Loses (loaded current : Row) : Prop :=
  if loaded.lastErrorKind = none then current.lastErrorKind ≠ none
  else loaded.transcriptionStatus = .keventPartiallyCompleted ∧
    current.transcriptionStatus ≠ .keventPartiallyCompleted

/-- A kind is named: where the session finds the status or the kind it names there already, it
has to be there still. -/
def Names (status : Status) (kind : Str) (loaded current : Row) : Prop :=
  if loaded.transcriptionStatus = status then
    loaded.lastErrorKind = some kind ∨ current.transcriptionStatus ≠ .keventCompleted
  else status = .keventPartiallyCompleted → loaded.lastErrorKind = some kind →
    current.lastErrorKind ≠ none

/-- What a writer has to find. -/
def Work.Fits (loaded current : Row) : Work → Prop
  | .pipeline p =>
      if p.chain.fails then
        Names .keventPartiallyCompleted "llm_chain_partial".toList loaded current
      else if p.llm.isSome then
        if p.lacks then Loses loaded current else Clears true loaded current
      else if p.lacks then Keeps loaded current else Clears false loaded current
  | .chain c =>
      if c.fails then Names .keventPartiallyCompleted "llm_chain_partial".toList loaded current
      else Clears c.llm.isSome loaded current
  | .chainCrashed .reprocess =>
      Names .keventPartiallyCompleted "worker_crash".toList loaded current
  | .chainCrashed .mcr => Keeps loaded current
  | .pipelineFailed kind _ | .terminalError kind _ => Names .keventFailed kind loaded current
  | .mcrFailed kind _ => Names .mcrImportFailed kind loaded current
  | _ => True

/-! ## What is committed -/

section Commit

variable {loaded current new : Row}

theorem agree_other {status : Status} (hdone : status ≠ .keventCompleted)
    (hpart : status ≠ .keventPartiallyCompleted) {kind : Option Str} : Agree status kind :=
  ⟨fun h => absurd h hdone, fun h => absurd h hpart⟩

theorem commit_agrees_def : (current.commit loaded new).Agrees ↔
    Agree (written loaded.transcriptionStatus new.transcriptionStatus current.transcriptionStatus)
      (written loaded.lastErrorKind new.lastErrorKind current.lastErrorKind) := Iff.rfl

/-- A status that says nothing of the error, and a kind left alone. -/
theorem commit_other (hc : current.Agrees) (hdone : new.transcriptionStatus ≠ .keventCompleted)
    (hpart : new.transcriptionStatus ≠ .keventPartiallyCompleted)
    (hkind : new.lastErrorKind = loaded.lastErrorKind) : (current.commit loaded new).Agrees := by
  rw [commit_agrees_def, hkind, written_self]
  rcases written_eq loaded.transcriptionStatus new.transcriptionStatus
    current.transcriptionStatus with h | h
  · rw [h]
    exact agree_other hdone hpart
  · rw [h]
    exact hc

theorem commit_clears (hc : current.Agrees) (names : Bool)
    (hstatus : new.transcriptionStatus = .keventCompleted)
    (hkind : new.lastErrorKind = if names then none else loaded.lastErrorKind)
    (hl : loaded.Agrees) : (current.commit loaded new).Agrees ↔ Clears names loaded current := by
  rw [commit_agrees_def, hstatus, hkind, Clears]
  by_cases hls : loaded.transcriptionStatus = .keventCompleted
  · have hlk := hl.1 hls
    rw [hls, hlk, ite_self, written_self, written_self]
    exact ⟨fun _ h => absurd rfl h, fun _ => hc⟩
  · rw [written_of_ne hls]
    cases names with
    | false =>
        rw [if_neg (by simp), written_self]
        simp [Agree, hls]
    | true =>
        rw [if_pos rfl]
        by_cases hlk : loaded.lastErrorKind = none
        · rw [hlk, written_self]
          simp [Agree, hls]
        · rw [written_of_ne hlk]
          simp [Agree, hlk]

theorem commit_keeps (hc : current.Agrees)
    (hstatus : new.transcriptionStatus = .keventPartiallyCompleted)
    (hkind : new.lastErrorKind = loaded.lastErrorKind) :
    (current.commit loaded new).Agrees ↔ Keeps loaded current := by
  rw [commit_agrees_def, hstatus, hkind, written_self, Keeps]
  by_cases hls : loaded.transcriptionStatus = .keventPartiallyCompleted
  · rw [hls, written_self]
    exact ⟨fun _ h => absurd rfl h, fun _ => hc⟩
  · rw [written_of_ne hls]
    simp [Agree, hls]

theorem commit_loses (hl : loaded.Agrees)
    (hstatus : new.transcriptionStatus = .keventPartiallyCompleted)
    (hkind : new.lastErrorKind = none) :
    (current.commit loaded new).Agrees ↔ Loses loaded current := by
  rw [commit_agrees_def, hstatus, hkind, Loses]
  by_cases hlk : loaded.lastErrorKind = none
  · have hls : loaded.transcriptionStatus ≠ .keventPartiallyCompleted := fun h => hl.2 h hlk
    rw [if_pos hlk, hlk, written_self, written_of_ne hls]
    simp [Agree]
  · rw [if_neg hlk, written_of_ne hlk]
    by_cases hls : loaded.transcriptionStatus = .keventPartiallyCompleted
    · rw [hls, written_self]
      simp [Agree]
    · rw [written_of_ne hls]
      simp [Agree, hls]

theorem commit_names (hc : current.Agrees) {status : Status} {kind : Str}
    (hdone : status ≠ .keventCompleted) (hstatus : new.transcriptionStatus = status)
    (hkind : new.lastErrorKind = some kind) :
    (current.commit loaded new).Agrees ↔ Names status kind loaded current := by
  rw [commit_agrees_def, hstatus, hkind, Names]
  by_cases hls : loaded.transcriptionStatus = status
  · rw [if_pos hls, hls, written_self]
    by_cases hlk : loaded.lastErrorKind = some kind
    · rw [hlk, written_self]
      exact ⟨fun _ => .inl rfl, fun _ => hc⟩
    · rw [written_of_ne hlk]
      simp [Agree, hlk]
  · rw [if_neg hls, written_of_ne hls]
    by_cases hlk : loaded.lastErrorKind = some kind
    · rw [hlk, written_self]
      simp [Agree, hdone]
    · rw [written_of_ne hlk]
      simp [Agree, hdone, hlk]

end Commit

theorem commit_chain {loaded current : Row} (hl : loaded.Agrees) (hc : current.Agrees)
    (c : ChainRun) (now : Nat) :
    (current.commit loaded ((Work.chain c).assign loaded now)).Agrees ↔
      (Work.chain c).Fits loaded current := by
  rw [Work.Fits]
  cases hllm : c.llm.isSome with
  | true =>
      rcases ChainRun.returned_some hllm with
        ⟨hfails, hstatus, msg, herror⟩ | ⟨hfails, hstatus, herror⟩
      · rw [if_pos hfails]
        exact commit_names hc (by decide) (congrArg ofChain hstatus)
          (by simp [Work.assign, Row.setUserAudioStatus, ErrorFields.ofUpdates, herror])
      · rw [if_neg (by simp [hfails])]
        exact commit_clears hc true (congrArg ofChain hstatus)
          (by simp [Work.assign, Row.setUserAudioStatus, ErrorFields.ofUpdates, herror]) hl
  | false =>
      obtain ⟨hfails, hreturned⟩ := @ChainRun.returned_none c (Option.not_isSome_iff_eq_none.mp
        (by simp [hllm]))
      rw [if_neg (by simp [hfails])]
      have hstatus : ofChain c.returned.2 = .keventCompleted := by rw [hreturned]; rfl
      exact commit_clears hc false hstatus
        (by simp [Work.assign, Row.setUserAudioStatus, ErrorFields.ofUpdates, hreturned]) hl

theorem commit_pipeline {loaded current : Row} (hl : loaded.Agrees) (hc : current.Agrees)
    (p : PipelineRun) (now : Nat) :
    (current.commit loaded ((Work.pipeline p).assign loaded now)).Agrees ↔
      (Work.pipeline p).Fits loaded current := by
  have hupdates : p.returned.1 = p.chain.returned.1 := rfl
  have hstatus := @PipelineRun.returned_status p
  rw [Work.Fits]
  cases hllm : p.llm.isSome with
  | true =>
      rcases @ChainRun.returned_some p.chain hllm with
        ⟨hfails, hchain, msg, herror⟩ | ⟨hfails, hchain, herror⟩
      · rw [if_pos hfails]
        rw [hchain] at hstatus
        exact commit_names hc (by decide) hstatus
          (by simp [Work.assign, Row.setUserAudioStatus, ErrorFields.ofUpdates, hupdates, herror])
      · rw [if_neg (by simp [hfails]), if_pos rfl]
        rw [hchain] at hstatus
        have hkind : ((Work.pipeline p).assign loaded now).lastErrorKind = none := by
          simp [Work.assign, Row.setUserAudioStatus, ErrorFields.ofUpdates, hupdates, herror]
        cases hlacks : p.lacks with
        | true =>
            rw [hlacks] at hstatus
            exact commit_loses hl hstatus hkind
        | false =>
            rw [hlacks] at hstatus
            exact commit_clears hc true hstatus hkind hl
  | false =>
      obtain ⟨hfails, hreturned⟩ := @ChainRun.returned_none p.chain
        (Option.not_isSome_iff_eq_none.mp (ne_true_of_eq_false hllm))
      rw [if_neg (by simp [hfails]), if_neg (by decide)]
      rw [hreturned] at hstatus hupdates
      have hkind : ((Work.pipeline p).assign loaded now).lastErrorKind = loaded.lastErrorKind := by
        simp [Work.assign, Row.setUserAudioStatus, ErrorFields.ofUpdates, hupdates]
      cases hlacks : p.lacks with
      | true =>
          rw [hlacks] at hstatus
          exact commit_keeps hc hstatus hkind
      | false =>
          rw [hlacks] at hstatus
          exact commit_clears hc false hstatus hkind hl

/-- **What a commit leaves** agrees exactly when the writer fits. -/
theorem commit_agrees_iff {loaded current : Row} (hl : loaded.Agrees) (hc : current.Agrees)
    (w : Work) (now : Nat) :
    (current.commit loaded (w.assign loaded now)).Agrees ↔ w.Fits loaded current := by
  have other : ∀ {new : Row}, new.transcriptionStatus ≠ .keventCompleted →
      new.transcriptionStatus ≠ .keventPartiallyCompleted →
        new.lastErrorKind = loaded.lastErrorKind → ((current.commit loaded new).Agrees ↔ True) :=
    fun hdone hpart hkind => iff_of_true (commit_other hc hdone hpart hkind) trivial
  cases w with
  | pipeline p => exact commit_pipeline hl hc p now
  | chain c => exact commit_chain hl hc c now
  | chainCrashed caller =>
      cases caller with
      | reprocess => exact commit_names hc (by decide) rfl rfl
      | mcr => exact commit_keeps hc rfl rfl
      | materialize => exact other (fun h => (by cases h)) (fun h => (by cases h)) rfl
  | pipelineFailed kind message => exact commit_names hc (by decide) rfl rfl
  | terminalError kind message => exact commit_names hc (by decide) rfl rfl
  | mcrFailed kind message => exact commit_names hc (by decide) rfl rfl
  | mcrTakeUp =>
      by_cases hpending : loaded.transcriptionStatus = .pending
      · rw [Work.assign, if_pos hpending]
        exact other (by simp [hpending]) (by simp [hpending]) rfl
      · rw [Work.assign, if_neg hpending]
        exact other (fun h => (by cases h)) (fun h => (by cases h)) rfl
  | progress g =>
      cases g <;> exact other (fun h => (by cases h)) (fun h => (by cases h)) rfl
  | mcrPush p =>
      cases p <;> exact other (fun h => (by cases h)) (fun h => (by cases h)) rfl
  | relay r =>
      cases r <;> exact other (fun h => (by cases h)) (fun h => (by cases h)) rfl
  | _ => exact other (fun h => (by cases h)) (fun h => (by cases h)) rfl

/-! ## Runs -/

/-- The row agrees, and so do the rows that the sessions have loaded. -/
structure World.Agrees (s : World) : Prop where
  row : ∀ r, s.row = some r → r.Agrees
  loaded : ∀ q session, s.sessions q = some session → session.loaded.Agrees

/-- A commit whose writer fits. -/
def Act.Fits (s : World) : Act → Prop
  | .commit q => ∀ r session, s.row = some r → s.sessions q = some session →
      session.work.Fits session.loaded r
  | _ => True

theorem Source.row_agrees (src : Source) (now : Nat) : (src.row now).Agrees := by
  cases src with
  | pulled autoTranscribe =>
      cases autoTranscribe <;> exact agree_other (fun h => (by cases h)) (fun h => (by cases h))
  | _ => exact agree_other (fun h => (by cases h)) (fun h => (by cases h))

/-- The step lemma. -/
theorem World.Agrees.step {s s' : World} {a : Act} (h : s.Agrees) (hfits : a.Fits s)
    (hstep : Outcome.step s a = some s') : s'.Agrees := by
  have loaded_update : ∀ q (v : Option Session),
      (∀ session, v = some session → session.loaded.Agrees) →
        ∀ q' session, Function.update s.sessions q v q' = some session → session.loaded.Agrees := by
    intro q v hv q' session hq'
    by_cases hq : q' = q
    · subst hq
      rw [Function.update_self] at hq'
      exact hv session hq'
    · rw [Function.update_of_ne hq] at hq'
      exact h.loaded q' session hq'
  have dropped : ∀ session, (none : Option Session) = some session → session.loaded.Agrees :=
    fun _ h => (by cases h)
  cases a with
  | wait d =>
      cases hstep
      exact ⟨h.row, h.loaded⟩
  | create src =>
      simp only [Outcome.step] at hstep
      split at hstep
      · cases hstep
        exact ⟨fun r hr => Option.some.inj hr ▸ src.row_agrees s.now, h.loaded⟩
      · cases hstep
  | load q w =>
      simp only [Outcome.step] at hstep
      split at hstep
      · rename_i r hr _
        cases hstep
        refine ⟨h.row, loaded_update q _ fun session hsession => ?_⟩
        cases hsession
        exact h.row r hr
      · cases hstep
  | commit q =>
      simp only [Outcome.step] at hstep
      split at hstep
      · rename_i r session hr hsession
        cases hstep
        refine ⟨fun r' hr' => ?_, loaded_update q none dropped⟩
        cases hr'
        exact (commit_agrees_iff (h.loaded q session hsession) (h.row r hr) _ _).mpr
          (hfits r session hr hsession)
      · cases hstep
  | drop q =>
      cases hstep
      exact ⟨h.row, loaded_update q none dropped⟩
  | markCapped message =>
      simp only [Outcome.step] at hstep
      split at hstep
      · split at hstep
        · cases hstep
          refine ⟨fun r hr => ?_, h.loaded⟩
          cases hr
          exact agree_other (fun h => (by cases h)) (fun h => (by cases h))
        · cases hstep
          exact h
      · cases hstep
        exact h

/-- **Status and error** agree in every run whose commits fit. -/
theorem agrees_of_guarded {as : List Act} {s : World}
    (hguarded : TSys.Guarded step (fun s a => a.Fits s) .start as)
    (hrun : TSys.run step .start as = some s) (r : Row) (hr : s.row = some r) :
    (r.transcriptionStatus = .keventCompleted → r.lastErrorKind = none) ∧
      (r.transcriptionStatus = .keventPartiallyCompleted → r.lastErrorKind ≠ none) := by
  have hstart : World.start.Agrees := ⟨fun _ h => (by cases h), fun _ _ h => (by cases h)⟩
  exact (TSys.inv_of_guarded step World.Agrees (fun _ _ _ h hfits hstep => h.step hfits hstep)
    hstart hguarded hrun).row r hr

/-! ## What is lost -/

/-- A transcription whose text is cleaned, with the outcome of its diarization. -/
def cleaningRun (diarization : Diarization) : PipelineRun where
  cfg := (cleaningChain fun _ => .answer "Bonjour.".toList).cfg
  text := "Bonjour.".toList
  diarization := diarization
  namingEnabled := false
  named := false
  llm := some (cleaningChain fun _ => .answer "Bonjour.".toList).llm
  glossary := []

theorem cleaningRun_fails (diarization : Diarization) (h : diarization = .off ∨ diarization = .failed) :
    (cleaningRun diarization).chain.fails = false := by
  rcases h with rfl | rfl <;> decide +kernel

/-- A run that completes agrees. -/
theorem agrees_of_complete : ∃ as s r, TSys.run step .start as = some s ∧ s.row = some r ∧
    r.transcriptionStatus = .keventCompleted ∧ r.lastErrorKind = none := by
  have hfits : TSys.Guarded step (fun s a => a.Fits s) .start
      [.create (.pulled true), .load 0 (.pipeline (cleaningRun .off)), .commit 0] := by
    refine ⟨trivial, fun s hs => ⟨trivial, fun s' hs' => ⟨?_, fun _ _ => trivial⟩⟩⟩
    cases hs
    cases hs'
    intro r session hr hsession
    cases hr
    cases hsession
    rw [Work.Fits, if_neg (by simp [cleaningRun_fails .off (.inl rfl)])]
    exact fun _ => .inr rfl
  obtain ⟨s, hrun, r, hr, hstatus⟩ : ∃ s, TSys.run step .start
      [.create (.pulled true), .load 0 (.pipeline (cleaningRun .off)), .commit 0] = some s ∧
        ∃ r, s.row = some r ∧ r.transcriptionStatus = .keventCompleted :=
    ⟨_, rfl, _, rfl, by decide +kernel⟩
  exact ⟨_, s, r, hrun, hr, hstatus, (agrees_of_guarded hfits hrun r hr).1 hstatus⟩

/-- **A diarization that fails** while every step of the chain goes through: the row is partial,
and does not say why. -/
theorem diarization_lost : ¬ ∀ (as : List Act) (s : World) (r : Row),
    TSys.run step .start as = some s → s.row = some r →
      (r.transcriptionStatus = .keventCompleted → r.lastErrorKind = none) ∧
        (r.transcriptionStatus = .keventPartiallyCompleted → r.lastErrorKind ≠ none) := by
  intro h
  have hrow := (h [.create (.pulled true), .load 0 (.pipeline (cleaningRun .failed)), .commit 0]
    _ _ rfl rfl).2
  exact hrow (by decide +kernel) (by decide +kernel)

end MesReunions.Outcome
