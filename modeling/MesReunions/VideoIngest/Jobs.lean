import MesReunions.Base.Num

/-!
# The job table

`services/video_ingest/app/jobs.py`: the statements the workers run against
`video_ingest_jobs`, one definition each. Inside a transaction `NOW()` is the time
the transaction began, which is each function's `began`; a statement takes effect
later. The columns that only describe the request are left out.
-/

namespace MesReunions.VideoIngest

/-- `video_ingest_jobs.status` -/
inductive Status where
  | pending
  | running
  | done
  | failed
  deriving DecidableEq

def Status.isTerminal : Status → Bool
  | .done => true
  | .failed => true
  | _ => false

/-- A row. Times and durations are in ticks of the database clock. -/
structure Row where
  status : Status
  claimedBy : Option Nat
  leaseUntil : Option Nat
  attempts : Nat
  nextAttemptAt : Option Nat
  errorMessage : Option Str
  videoSourceId : Option Nat
  reused : Option Bool
  completedAt : Option Nat
  deriving DecidableEq

abbrev Table := Nat → Option Row

/-- `UPDATE ... WHERE id = %s AND ...` -/
def Table.update (t : Table) (id : Nat) (guard : Row → Bool) (f : Row → Row) : Table :=
  fun k => if k = id then (t k).map fun r => if guard r then f r else r else t k

/-- A new row (`enqueue`). -/
def newRow : Row where
  status := .pending
  claimedBy := none
  leaseUntil := none
  attempts := 0
  nextAttemptAt := none
  errorMessage := none
  videoSourceId := none
  reused := none
  completedAt := none

/-- The `WHERE` of `claim_next`. -/
def Row.claimable (r : Row) (began : Nat) : Bool :=
  (r.status == .pending && match r.nextAttemptAt with
    | none => true
    | some t => decide (t ≤ began)) ||
  (r.status == .running && match r.leaseUntil with
    | none => false
    | some t => decide (t < began))

/-- The `UPDATE` of `claim_next`. -/
def Row.claimed (r : Row) (claimedBy began lease : Nat) : Row :=
  { r with status := .running, claimedBy := some claimedBy,
           leaseUntil := some (began + lease), attempts := r.attempts + 1 }

/-- `extend_lease(conn, job_id, lease_seconds=...)` -/
def extendLease (t : Table) (id began lease : Nat) : Table :=
  t.update id (·.status == .running) fun r => { r with leaseUntil := some (began + lease) }

/-- `error[:2000] if error else None` -/
def clipped (error : Str) : Option Str := if error = [] then none else some (error.take 2000)

/-- `complete(conn, job_id, video_source_id=..., reused=...)` -/
def complete (t : Table) (id began videoSourceId : Nat) (reused : Bool) : Table :=
  t.update id (fun _ => true) fun r =>
    { r with status := .done, videoSourceId := some videoSourceId, reused := some reused,
             completedAt := some began, errorMessage := none, leaseUntil := none }

/-- `fail(conn, job_id, error=...)` -/
def fail (t : Table) (id began : Nat) (error : Str) : Table :=
  t.update id (fun _ => true) fun r =>
    { r with status := .failed, errorMessage := clipped error, completedAt := some began,
             leaseUntil := none }

/-- `retry(conn, job_id, error=..., delay_seconds=...)` -/
def retry (t : Table) (id began : Nat) (error : Str) (delay : Nat) : Table :=
  t.update id (fun _ => true) fun r =>
    { r with status := .pending, claimedBy := none, leaseUntil := none,
             nextAttemptAt := some (began + delay),
             errorMessage := clipped error }

/-- The `WHERE` of `reset_orphans`. -/
def Row.orphan (r : Row) (began : Nat) : Bool :=
  r.status == .running && match r.leaseUntil with
    | none => false
    | some t => decide (t < began)

/-- `reset_orphans(conn)` -/
def resetOrphans (t : Table) (began : Nat) : Table := fun k =>
  (t k).map fun r => if r.orphan began then { r with status := .pending, claimedBy := none } else r

/-! ## What one statement leaves alone -/

theorem update_of_ne {t : Table} {id k : Nat} (h : k ≠ id) (guard : Row → Bool)
    (f : Row → Row) : t.update id guard f k = t k := if_neg h

theorem update_self {t : Table} {id : Nat} {r : Row} (h : t id = some r) (guard : Row → Bool)
    (f : Row → Row) : t.update id guard f id = some (if guard r then f r else r) := by
  simp [Table.update, h]

end MesReunions.VideoIngest
