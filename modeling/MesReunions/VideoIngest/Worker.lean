import MesReunions.Base.TSys
import MesReunions.VideoIngest.Jobs

/-!
# Workers

`services/video_ingest/app/worker.py` and `orchestrator.run_and_record`: any number
of workers, each with a main thread (claim a job, work, write the outcome), a
heartbeat thread (read the current job, extend its lease in a transaction of its
own) and a watchdog. Every one of them may stall between any two statements, and a
worker may die.

A statement is one step. A claim is known by its job and by the value `attempts`
took, which no other claim of the job shares.
-/

namespace MesReunions.VideoIngest

structure Config where
  ticksPerSecond : Nat
  leaseSeconds : Nat
  maxAttempts : Nat
  retryBaseDelay : Nat

/-- `(%s || ' seconds')::INTERVAL` -/
def Config.seconds (cfg : Config) (n : Nat) : Nat := n * cfg.ticksPerSecond

/-- `LEASE_SECONDS`, as an interval. -/
def Config.lease (cfg : Config) : Nat := cfg.seconds cfg.leaseSeconds

/-- `retry_delay_seconds(attempts)` -/
def Config.retryDelaySeconds (cfg : Config) (attempts : Nat) : Nat :=
  cfg.retryBaseDelay * 3 ^ (attempts - 1)

/-- What `claim_next` returned: the job and its `attempts`. -/
structure Claim where
  job : Nat
  attempts : Nat
  deriving DecidableEq

/-- The main thread. While it works, `lease` is the end of the lease it or its
heartbeat last wrote; once the outcome is written, `current_job_id_ref` still holds
the job until the `finally` clears it. -/
inductive Main where
  | idle
  | working (claim : Claim) (lease : Nat)
  | recorded (claim : Claim)
  deriving DecidableEq

/-- A heartbeat that has read `current_job_id_ref` and not yet run its `UPDATE`. -/
structure Beat where
  worker : Nat
  claim : Claim
  readAt : Nat
  deriving DecidableEq

/-- How `run_job` ends. `lost` is a process that could not write any outcome. -/
inductive Outcome where
  | result (videoSourceId : Nat) (reused : Bool)
  | videoUnavailable (e : Str)
  | transient (e : Str)
  | needsAudio (e : Str)
  | providerError (e : Str)
  | unexpected
  | lost

structure World where
  now : Nat
  jobs : Table
  main : Nat → Main
  beats : List Beat
  /-- Who made the most recent claim of a job. -/
  lastClaimer : Nat → Option Nat

/-- No worker is up yet. -/
def World.start (jobs : Table) : World where
  now := 0
  jobs := jobs
  main := fun _ => .idle
  beats := []
  lastClaimer := fun _ => none

inductive Op where
  | tick (d : Nat)
  | enqueue (job : Nat)
  | claimNext (worker job began : Nat)
  | beatRead (worker : Nat)
  | beatWrite (b : Beat) (began : Nat)
  | finish (worker began : Nat) (outcome : Outcome)
  | clear (worker : Nat)
  | crash (worker : Nat)
  | resetOrphans (began : Nat)

/-- `run_and_record(conn, providers, job)`, and the `except` of `run_forever` that
marks the job failed when it raised. -/
def runAndRecord (cfg : Config) (t : Table) (c : Claim) (began : Nat) : Outcome → Table
  | .result videoSourceId reused => complete t c.job began videoSourceId reused
  | .videoUnavailable e => fail t c.job began ("video_unavailable: ".toList ++ e)
  | .transient e =>
      if cfg.maxAttempts ≤ c.attempts then
        fail t c.job began ("provider_error (abandon après ".toList ++ strOfNat c.attempts ++
          " tentatives): ".toList ++ e)
      else
        let delay := cfg.retryDelaySeconds c.attempts
        retry t c.job began ("transient (tentative ".toList ++ strOfNat c.attempts ++ "/".toList ++
          strOfNat cfg.maxAttempts ++ ", retry dans ".toList ++ strOfNat delay ++
          "s): ".toList ++ e) (cfg.seconds delay)
  | .needsAudio e => fail t c.job began ("needs_audio: ".toList ++ e)
  | .providerError e => fail t c.job began ("provider_error: ".toList ++ e)
  | .unexpected => fail t c.job began "unexpected_error".toList
  | .lost => t

/-- The lease a worker knows of, after its heartbeat wrote `lease` for `c`. -/
def Main.extended (m : Main) (c : Claim) (lease : Nat) : Main :=
  match m with
  | .working c' _ => if c' = c then .working c lease else m
  | _ => m

/-- One step. `claim_next` takes the oldest job it may and that no other transaction
has locked, so any job it may take. -/
def step (cfg : Config) (s : World) : Op → Option World
  | .tick d => some { s with now := s.now + d }
  | .enqueue job =>
      if s.jobs job = none then
        some { s with jobs := Function.update s.jobs job (some newRow) }
      else none
  | .claimNext worker job began =>
      match s.jobs job with
      | none => none
      | some r =>
          if s.main worker = .idle ∧ began ≤ s.now ∧ r.claimable began then
            some { s with
              jobs := s.jobs.update job (fun _ => true) (·.claimed worker began cfg.lease)
              main := Function.update s.main worker
                (.working ⟨job, r.attempts + 1⟩ (began + cfg.lease))
              lastClaimer := Function.update s.lastClaimer job (some worker) }
          else none
  | .beatRead worker =>
      match s.main worker with
      | .idle => none
      | .working c _ => some { s with beats := ⟨worker, c, s.now⟩ :: s.beats }
      | .recorded c => some { s with beats := ⟨worker, c, s.now⟩ :: s.beats }
  | .beatWrite b began =>
      if b ∈ s.beats ∧ b.readAt ≤ began ∧ began ≤ s.now then
        some { s with
          jobs := extendLease s.jobs b.claim.job began cfg.lease
          main := Function.update s.main b.worker
            (if (s.jobs b.claim.job).any (·.status == .running) then
              (s.main b.worker).extended b.claim (began + cfg.lease) else s.main b.worker)
          beats := s.beats.erase b }
      else none
  | .finish worker began outcome =>
      match s.main worker with
      | .working c _ =>
          if began ≤ s.now then
            some { s with jobs := runAndRecord cfg s.jobs c began outcome
                          main := Function.update s.main worker (.recorded c) }
          else none
      | _ => none
  | .clear worker =>
      match s.main worker with
      | .recorded _ => some { s with main := Function.update s.main worker .idle }
      | _ => none
  | .crash worker => some { s with main := Function.update s.main worker .idle }
  | .resetOrphans began =>
      if began ≤ s.now then some { s with jobs := VideoIngest.resetOrphans s.jobs began } else none

end MesReunions.VideoIngest
