import Mathlib.Logic.Function.Basic
import MesReunions.Base.TSys

/-!
# Reprocess requests for one audio file

`reprocess_audio` of `puller.py`: the row is loaded, a lock of the database is asked for, the status
and the version are committed, and the chain of LLM steps runs in a thread. `pg_try_advisory_xact_lock`
says whether it got the lock, which ends with the transaction, and nobody reads the answer.

* `Action.Current` — a request commits over the row that it loaded, and starts its chain alone.
* **`single_iff`** — the runs with one chain at a time and one version for each request.
* **`two_chains`** — two requests that overlap.
* `lock_ignored` — a run goes on in the same way whoever has the lock.
-/

namespace MesReunions.Reprocess

open TSys

/-! ## The row and its requests -/

inductive Status where
  | kevent_reprocessing
  | kevent_completed
  | kevent_partially_completed
  | other
deriving DecidableEq

/-- An entry of `reprocess_history`. -/
structure Entry where
  version : Nat
  briefId : Option Nat
deriving DecidableEq

/-- The columns of `user_audio_files` that the endpoint reads. -/
structure Row where
  /-- `transcription_text` or `speaker_tagged_text` is not empty. -/
  hasText : Bool
  status : Status
  version : Nat
  history : List Entry
  reprocessedWith : Option Nat
deriving DecidableEq

structure Request where
  /-- The worker process that answers. -/
  process : Nat
  briefId : Option Nat
  force : Bool
deriving DecidableEq

/-- Where a request is. -/
inductive Phase where
  | loaded (row : Row)
  | locked (row : Row)
  /-- The version is committed, and the thread is still to start. -/
  | committed (version : Nat)
deriving DecidableEq

structure World where
  row : Row
  sessions : Nat → Option (Request × Phase)
  /-- The locks of open transactions: a key and the request that has it. -/
  locks : List (Nat × Nat)
  /-- The chains that run, with the brief of each. -/
  chains : List (Nat × Request)
  /-- How many requests have committed. -/
  commits : Nat

def World.start (row : Row) : World := ⟨row, fun _ => none, [], [], 0⟩

inductive Outcome where
  | completed
  | partially
  /-- The chain raises; whether its status is then written. -/
  | crashed (saved : Bool)
deriving DecidableEq

inductive Action where
  /-- The row is looked up; `owned` says that it is one of the user's. -/
  | request (r : Nat) (q : Request) (owned : Bool)
  | lock (r : Nat)
  | commit (r : Nat) (ok : Bool)
  /-- The texts are read back and the thread starts. -/
  | spawn (r : Nat) (ok : Bool)
  | finish (r : Nat) (outcome : Outcome)
  /-- A worker process dies with its requests and its threads. -/
  | die (process : Nat)
deriving DecidableEq

def World.set (s : World) (r : Nat) (session : Option (Request × Phase)) : World :=
  { s with sessions := Function.update s.sessions r session }

/-- The transaction of request `r` ends. -/
def World.unlock (s : World) (r : Nat) : World :=
  { s with locks := s.locks.filter fun l => l.2 ≠ r }

/-- What `db.commit()` writes: the columns that differ from what was loaded. -/
def Row.reprocessing (row loaded : Row) : Row :=
  let history := loaded.history ++ [⟨loaded.version, loaded.reprocessedWith⟩]
  { row with
    status := if loaded.status = .kevent_reprocessing then row.status else .kevent_reprocessing
    version := loaded.version + 1
    history := history.drop (history.length - 5) }

/-- What the thread writes at its end. -/
def Row.finished (row : Row) (q : Request) : Outcome → Row
  | .completed => { row with status := .kevent_completed, reprocessedWith := q.briefId }
  | .partially => { row with status := .kevent_partially_completed, reprocessedWith := q.briefId }
  | .crashed true => { row with status := .kevent_partially_completed }
  | .crashed false => row

section System

-- `hash(str(audio_id)) & 0x7FFFFFFF`, which each process computes with a seed of its own.
variable (key : Nat → Nat)

def step (s : World) : Action → Option World
  | .request r q owned =>
      match s.sessions r with
      | some _ => none
      | none =>
          if !owned || !s.row.hasText then some s
          else if !q.force && s.row.reprocessedWith == q.briefId then some s
          else some (s.set r (some (q, .loaded s.row)))
  | .lock r =>
      match s.sessions r with
      | some (q, .loaded row) =>
          let k := key q.process
          -- The answer is dropped: the request goes on either way.
          let locks := if s.locks.any (fun l => l.1 = k) then s.locks else (k, r) :: s.locks
          some ({ s with locks }.set r (some (q, .locked row)))
      | _ => none
  | .commit r ok =>
      match s.sessions r with
      | some (q, .locked row) =>
          if ok then
            some (({ s with
              row := s.row.reprocessing row
              commits := s.commits + 1 }.unlock r).set r (some (q, .committed (row.version + 1))))
          else some ((s.unlock r).set r none)
      | _ => none
  | .spawn r ok =>
      match s.sessions r with
      | some (q, .committed _) =>
          if ok then some ({ s with chains := (r, q) :: s.chains }.set r none)
          else some (s.set r none)
      | _ => none
  | .finish r outcome =>
      match s.chains.find? fun c => c.1 = r with
      | some (_, q) =>
          some { s with
            row := s.row.finished q outcome
            chains := s.chains.eraseP fun c => c.1 = r }
      | none => none
  | .die process =>
      some { s with
        sessions := fun r => (s.sessions r).filter fun c => c.1.process ≠ process
        locks := s.locks.filter fun l => (s.sessions l.2).any fun c => c.1.process ≠ process
        chains := s.chains.filter fun c => c.2.process ≠ process }

end System

/-! ## Statements -/

/-- At most one chain runs, and each request that has committed has moved the version by one. -/
structure Single (start : Row) (s : World) : Prop where
  one : s.chains.length ≤ 1
  bumped : s.row.version = start.version + s.commits

/-- A request commits over the version that it loaded, and starts its chain while no other runs. -/
def Action.Current (s : World) : Action → Prop
  | .commit r true =>
      match s.sessions r with
      | some (_, .locked row) => row.version = s.row.version
      | _ => True
  | .spawn r true => (s.sessions r).isSome = true → s.chains = []
  | _ => True

instance (s : World) (a : Action) : Decidable (a.Current s) := by
  unfold Action.Current
  split
  · split <;> infer_instance
  · infer_instance
  · infer_instance

/-! ## Steps -/

variable {key : Nat → Nat} {s s' : World}

/-- **What a step does** to the version, the number of commits and the chains. -/
inductive Effect (s s' : World) : Action → Prop where
  | quiet {a : Action} (hcurrent : a.Current s) (hversion : s'.row.version = s.row.version)
      (hcommits : s'.commits = s.commits) (hchains : s'.chains.length ≤ s.chains.length) :
      Effect s s' a
  | committed {r : Nat} {q : Request} {row : Row} (hsession : s.sessions r = some (q, .locked row))
      (hversion : s'.row.version = row.version + 1) (hcommits : s'.commits = s.commits + 1)
      (hchains : s'.chains = s.chains) : Effect s s' (.commit r true)
  | spawned {r : Nat} {q : Request} {version : Nat}
      (hsession : s.sessions r = some (q, .committed version))
      (hversion : s'.row.version = s.row.version) (hcommits : s'.commits = s.commits)
      (hchains : s'.chains = (r, q) :: s.chains) : Effect s s' (.spawn r true)

theorem version_finished {row : Row} {q : Request} {outcome : Outcome} :
    (row.finished q outcome).version = row.version := by
  cases outcome with
  | crashed saved => cases saved <;> rfl
  | _ => rfl

theorem step_effect {a : Action} (hs : step key s a = some s') : Effect s s' a := by
  cases a with
  | request r q owned =>
      simp only [step] at hs
      split at hs
      · cases hs
      · split at hs
        · cases hs
          exact .quiet trivial rfl rfl (Nat.le_refl _)
        · split at hs <;> cases hs <;> exact .quiet trivial rfl rfl (Nat.le_refl _)
  | lock r =>
      simp only [step] at hs
      split at hs
      · cases hs
        exact .quiet trivial rfl rfl (Nat.le_refl _)
      · cases hs
  | commit r ok =>
      simp only [step] at hs
      split at hs
      · rename_i q row hsession
        cases ok with
        | true =>
            cases hs
            exact .committed hsession rfl rfl rfl
        | false =>
            cases hs
            exact .quiet trivial rfl rfl (Nat.le_refl _)
      · cases hs
  | spawn r ok =>
      simp only [step] at hs
      split at hs
      · rename_i q version hsession
        cases ok with
        | true =>
            cases hs
            exact .spawned hsession rfl rfl rfl
        | false =>
            cases hs
            exact .quiet trivial rfl rfl (Nat.le_refl _)
      · cases hs
  | finish r outcome =>
      simp only [step] at hs
      split at hs
      · cases hs
        exact .quiet trivial version_finished rfl (List.length_eraseP_le ..)
      · cases hs
  | die process =>
      cases hs
      exact .quiet trivial rfl rfl (List.length_filter_le ..)

/-- From a state with one chain and a version for each request, a step leads to such a state
exactly when it is current. -/
theorem single_step_iff {start : Row} {a : Action} (h : Single start s)
    (hs : step key s a = some s') : Single start s' ↔ a.Current s := by
  cases step_effect hs with
  | quiet hcurrent hversion hcommits hchains =>
      refine ⟨fun _ => hcurrent, fun _ => ⟨Nat.le_trans hchains h.one, ?_⟩⟩
      rw [hversion, hcommits]
      exact h.bumped
  | committed hsession hversion hcommits hchains =>
      rename_i r q row
      have hbumped := h.bumped
      constructor
      · intro h'
        have hbumped' := h'.bumped
        simp only [Action.Current, hsession]
        omega
      · intro hcurrent
        simp only [Action.Current, hsession] at hcurrent
        exact ⟨by rw [hchains]; exact h.one, by omega⟩
  | spawned hsession hversion hcommits hchains =>
      have hbumped := h.bumped
      constructor
      · intro h' _
        have hone := h'.one
        rw [hchains, List.length_cons] at hone
        exact List.length_eq_zero_iff.mp (by omega)
      · intro hcurrent
        have hnone : s.chains = [] := hcurrent (by rw [hsession]; rfl)
        exact ⟨by rw [hchains, hnone]; exact Nat.le_refl 1, by omega⟩

/-- **One chain at a time, one version a request.** So it is in every state of a run exactly when
each request commits over the version that it loaded and starts its chain alone. -/
theorem single_iff {row : Row} {as : List Action} (hrun : run (step key) (.start row) as = some s) :
    Along (step key) (fun _ _ s' => Single row s') (.start row) as ↔
      Guarded (step key) (fun s a => a.Current s) (.start row) as :=
  along_iff_guarded (step key) (Single row) (fun _ _ _ h hs => single_step_iff h hs)
    (fun _ _ _ h hcurrent hs => (single_step_iff h hs).mpr hcurrent)
    ⟨Nat.zero_le 1, rfl⟩ hrun

/-- A row with a transcript that was never reprocessed. -/
def transcribed : Row := ⟨true, .kevent_completed, 0, [], none⟩

/-- Two requests, one after the other, from two processes. -/
def inTurn : List Action :=
  [.request 0 ⟨1, some 3, false⟩ true, .lock 0, .commit 0 true, .spawn 0 true,
    .finish 0 .completed, .request 1 ⟨2, some 3, true⟩ true, .lock 1, .commit 1 true, .spawn 1 true]

theorem inTurn_single : ∃ s, run (step id) (.start transcribed) inTurn = some s ∧
    Along (step id) (fun _ _ s' => Single transcribed s') (.start transcribed) inTurn := by
  obtain ⟨s, hrun⟩ : ∃ s, run (step id) (.start transcribed) inTurn = some s := ⟨_, rfl⟩
  exact ⟨s, hrun, (single_iff hrun).mpr (by decide)⟩

/-- **Two chains at once**: the two processes do not even ask for the same lock. -/
theorem two_chains : ¬ ∀ (as : List Action) (s : World),
    run (step id) (.start transcribed) as = some s → Single transcribed s := by
  intro h
  have hone := (h [.request 0 ⟨1, some 3, false⟩ true, .request 1 ⟨2, some 3, false⟩ true,
    .lock 0, .lock 1, .commit 0 true, .commit 1 true, .spawn 0 true, .spawn 1 true] _ rfl).one
  exact absurd hone (by decide)

/-! ## The lock -/

/-- The state without what it says of the locks. -/
def World.noLocks (s : World) : World := { s with locks := [] }

/-- **The lock is ignored.** A step is possible whoever has it, and does the same. -/
theorem lock_ignored (s : World) (a : Action) :
    (step key s.noLocks a).map World.noLocks = (step key s a).map World.noLocks := by
  obtain ⟨row, sessions, locks, chains, commits⟩ := s
  cases a with
  | request r q owned =>
      cases hsession : sessions r with
      | some session => simp [step, World.noLocks, hsession]
      | none =>
          by_cases hrefused : (!owned || !row.hasText) = true
          · simp [step, World.noLocks, hsession, hrefused]
          · by_cases hidle : (!q.force && row.reprocessedWith == q.briefId) = true
            · simp [step, World.noLocks, hsession, hrefused, hidle]
            · simp [step, World.noLocks, hsession, hrefused, hidle, World.set]
  | lock r =>
      simp only [step, World.noLocks]
      split <;> rfl
  | commit r ok =>
      simp only [step, World.noLocks]
      split
      · cases ok <;> rfl
      · rfl
  | spawn r ok =>
      simp only [step, World.noLocks]
      split
      · cases ok <;> rfl
      · rfl
  | finish r outcome =>
      simp only [step, World.noLocks]
      split <;> rfl
  | die process => rfl

end MesReunions.Reprocess
