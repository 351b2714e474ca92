import MesReunions.Base.Fields
import MesReunions.Base.Float

/-!
# The summary of the queue

`compute_queue_summary` of `queue_eta.py`, from the document that the gateway answers.

* `computeQueueSummary` — the summary, or the exception.
* `Neutral`, `Placed` — what the jobs and the position of the own job have to be.
* **`summary_iff`** — a summary in its bounds comes back exactly for these documents.
* **`text_job_raises`** — a job that is a string.
-/

namespace MesReunions.QueueEta

open Str Json PyFloat

/-! ## Values -/

/-- `(j or {}).get(key)` -/
def jobGet (j : Json) (key : String) : Except PyError Json :=
  if j.truthy then
    match j with
    | .obj fields => .ok ((get? fields key.toList).getD .null)
    | _ => .error .attributeError
  else .ok .null

/-- `v == s` -/
def isStr (s : Str) : Json → Bool
  | .str t => t == s
  | _ => false

/-- `v` when `isinstance(v, int)`; `True` is `1`. -/
def asInt : Json → Option Int
  | .int n => some n
  | .bool b => some (if b then 1 else 0)
  | _ => none

/-- `n * x` -/
def intMul (n : Int) (x : PyFloat) : Except PyError PyFloat :=
  match ofRat n with
  | .fin q => .ok (mul (.fin q) x)
  | _ => .error .overflowError

/-- `round(x)` -/
def roundInt : PyFloat → Except PyError Int
  | .fin q => .ok (roundHalfEven q)
  | .inf _ => .error .overflowError
  | .nan => .error .valueError

/-- `a / x`, for a positive `x`. -/
def ratDiv (a : ℚ) : PyFloat → PyFloat
  | .fin q => ofRat (a / q)
  | .inf _ => .fin 0
  | .nan => .nan

/-! ## The summary -/

/-- The dates: texts as instants, in microseconds, and back. -/
structure Clock where
  fromisoformat : Str → Option Int
  isoformat : Int → Str

/-- `raw.replace("Z", "+00:00")` -/
def replaceZ (raw : Str) : Str := raw.flatMap fun c => if c = 'Z' then "+00:00".toList else [c]

/-- `_parse_dt(raw)`; every exception is caught. -/
def parseDt (clock : Clock) (raw : Json) : Option Int :=
  if raw.truthy then
    match raw with
    | .str s => clock.fromisoformat (replaceZ s)
    | _ => clock.fromisoformat []
  else none

structure QueueSummary where
  pendingTotal : Nat
  processingTotal : Nat
  yourPosition : Option Int
  etaSeconds : Option Int
  throughputPerMin : Option PyFloat
  stale : Bool
  fetchedAt : Str

/-- `STALE_AFTER_SECONDS`, in microseconds. -/
def staleAfter : Int := 30 * 1000000

/-- `[j for j in jobs if (j or {}).get("status") == status]` -/
def withStatus (status : String) : List Json → Except PyError (List Json)
  | [] => .ok []
  | j :: jobs => do
      let found := isStr status.toList (← jobGet j "status")
      let rest ← withStatus status jobs
      .ok (if found then j :: rest else rest)

/-- The loop that looks for `own_job_id`. -/
def findPosition (own : Str) : List Json → Except PyError (Option Int)
  | [] => .ok none
  | j :: pending => do
      if isStr own (← jobGet j "job_id") then
        let pos ← jobGet j "queue_position"
        .ok ((asInt pos).filter fun n => 1 ≤ n)
      else findPosition own pending

/-- The most recent of the dates. -/
def maxDt (clock : Clock) : List Json → Option Int → Except PyError (Option Int)
  | [], max => .ok max
  | j :: jobs, max => do
      let dt := parseDt clock (← jobGet j "updated_at")
      maxDt clock jobs (match dt, max with
        | some d, some m => some (if m < d then d else m)
        | some d, none => some d
        | none, m => m)

/-- `int(round(raw / 10) * 10)` -/
def etaOf (position : Int) (avgProcessS : PyFloat) : Except PyError Int := do
  let raw ← intMul position avgProcessS
  let tens ← roundInt (divRat raw 10)
  .ok (tens * 10)

/-- `your_position` -/
def ownPosition (own : Str) (pending : List Json) : Except PyError (Option Int) :=
  if own = [] then .ok none else findPosition own pending

/-- `eta_seconds` -/
def etaSeconds (avgProcessS : PyFloat) : Option Int → Except PyError (Option Int)
  | some n => if lt (.fin 0) avgProcessS then some <$> etaOf n avgProcessS else .ok none
  | none => .ok none

/-- `payload.get("jobs")`, when it is a list. -/
def jobsOf (payload : Json) : List Json :=
  match payload with
  | .obj fields =>
      match get? fields "jobs".toList with
      | some (.list jobs) => jobs
      | _ => []
  | _ => []

/-- `compute_queue_summary(payload, own_job_id, now, avg_process_s)` -/
def computeQueueSummary (clock : Clock) (payload : Json) (ownJobId : Option Str) (now : Int)
    (avgProcessS : PyFloat) : Except PyError QueueSummary := do
  let jobs := jobsOf payload
  let pending ← withStatus "pending" jobs
  let processing ← withStatus "processing" jobs
  let yourPosition ← ownPosition (ownJobId.getD []) pending
  let eta ← etaSeconds avgProcessS yourPosition
  let throughput :=
    if lt (.fin 0) avgProcessS then some (ratDiv 60 avgProcessS).round2 else none
  let newest ← maxDt clock (pending ++ processing) none
  let stale := newest.any fun dt => staleAfter < now - dt
  .ok ⟨pending.length, processing.length, yourPosition, eta, throughput, stale,
    clock.isoformat now⟩

/-! ## Which documents -/

/-- The element has fields, or stands for none. -/
def Neutral (j : Json) : Prop := j.isObj = true ∨ j.truthy = false

/-- A field of a job that has fields, or stands for none. -/
def fieldOf (j : Json) (key : String) : Json :=
  match j with
  | .obj fields => (get? fields key.toList).getD .null
  | _ => .null

def isPending (j : Json) : Bool := isStr "pending".toList (fieldOf j "status")

/-- The position of the own job. -/
def positionOf (own : Option Str) (jobs : List Json) : Option Int :=
  if own.getD [] = [] then none
  else ((jobs.filter isPending).find? fun j => isStr (own.getD []) (fieldOf j "job_id")).bind
    fun j => (asInt (fieldOf j "queue_position")).filter fun n => 1 ≤ n

/-- The position is one of the pending jobs, and the time until then is finite. -/
def Placed (own : Option Str) (avgProcessS : PyFloat) (jobs : List Json) : Prop :=
  ∀ n, positionOf own jobs = some n → n ≤ (jobs.filter isPending).length ∧
    (lt (.fin 0) avgProcessS = true →
      ∃ q, divRat (mul (ofRat n) avgProcessS) 10 = .fin q)

/-- A summary in its bounds. -/
def Total (r : Except PyError QueueSummary) : Prop :=
  ∃ s, r = .ok s ∧ (∀ n, s.yourPosition = some n → 1 ≤ n ∧ n ≤ s.pendingTotal) ∧
    ∀ n, s.etaSeconds = some n → 0 ≤ n

/-! ## The steps -/

theorem jobGet_of_neutral {j : Json} (h : Neutral j) (key : String) :
    jobGet j key = .ok (fieldOf j key) := by
  cases j with
  | obj fields => cases fields <;> rfl
  | _ => exact if_neg (by simp [h.resolve_left Bool.false_ne_true])

theorem neutral_of_jobGet {j : Json} {key : String} {v : Json} (h : jobGet j key = .ok v) :
    Neutral j := by
  by_cases htruthy : j.truthy = true
  · cases j with
    | obj fields => exact Or.inl rfl
    | _ =>
        have herror : jobGet _ key = .error .attributeError := if_pos htruthy
        rw [herror] at h
        cases h
  · exact Or.inr (by simpa using htruthy)

theorem withStatus_of_neutral {jobs : List Json} (h : ∀ j ∈ jobs, Neutral j) (status : String) :
    withStatus status jobs =
      .ok (jobs.filter fun j => isStr status.toList (fieldOf j "status")) := by
  induction jobs with
  | nil => rfl
  | cons j jobs ih =>
      rw [withStatus, jobGet_of_neutral (h j List.mem_cons_self),
        ih fun j' hj' => h j' (List.mem_cons_of_mem _ hj'), List.filter_cons]
      rfl

theorem neutral_of_withStatus {status : String} {jobs found : List Json}
    (h : withStatus status jobs = .ok found) : ∀ j ∈ jobs, Neutral j := by
  induction jobs generalizing found with
  | nil => exact nofun
  | cons j jobs ih =>
      rw [withStatus] at h
      cases hget : jobGet j "status" with
      | error e =>
          rw [hget] at h
          cases h
      | ok v =>
          rw [hget] at h
          cases hrest : withStatus status jobs with
          | error e =>
              rw [hrest] at h
              cases h
          | ok rest =>
              intro j' hj'
              rcases List.mem_cons.mp hj' with rfl | hj'
              · exact neutral_of_jobGet hget
              · exact ih hrest j' hj'

theorem findPosition_of_neutral {pending : List Json} (h : ∀ j ∈ pending, Neutral j) (own : Str) :
    findPosition own pending =
      .ok ((pending.find? fun j => isStr own (fieldOf j "job_id")).bind
        fun j => (asInt (fieldOf j "queue_position")).filter fun n => 1 ≤ n) := by
  induction pending with
  | nil => rfl
  | cons j pending ih =>
      have hj := h j List.mem_cons_self
      rw [findPosition, jobGet_of_neutral hj, jobGet_of_neutral hj, List.find?_cons]
      by_cases hown : isStr own (fieldOf j "job_id") = true
      · rw [hown]
        show (if isStr own (fieldOf j "job_id") = true then _ else _) = _
        rw [if_pos hown]
        rfl
      · rw [Bool.not_eq_true] at hown
        rw [hown]
        show (if isStr own (fieldOf j "job_id") = true then _ else _) = _
        rw [hown, if_neg Bool.false_ne_true]
        exact ih fun j' hj' => h j' (List.mem_cons_of_mem _ hj')

theorem maxDt_of_neutral (clock : Clock) {jobs : List Json} (h : ∀ j ∈ jobs, Neutral j)
    (max : Option Int) : ∃ newest, maxDt clock jobs max = .ok newest := by
  induction jobs generalizing max with
  | nil => exact ⟨max, rfl⟩
  | cons j jobs ih =>
      rw [maxDt, jobGet_of_neutral (h j List.mem_cons_self)]
      exact ih (fun j' hj' => h j' (List.mem_cons_of_mem _ hj')) _

/-! ## The time until the own job -/

theorem ofRat_nonneg {a : ℚ} (h : 0 ≤ a) : le (.fin 0) (ofRat a) = true := by
  have hle := ofRat_mono h
  rwa [ofRat_zero] at hle

/-- From an infinity, a positive float makes an infinity. -/
theorem mul_inf_of_pos (negative : Bool) {x : PyFloat} (h : lt (.fin 0) x = true) :
    ∃ m, mul (.inf negative) x = .inf m := by
  cases x with
  | fin b =>
      have hb : 0 < b := of_decide_eq_true h
      exact ⟨_, if_neg hb.ne'⟩
  | inf n => exact ⟨_, rfl⟩
  | nan => cases h

/-- The rounding of the time raises when the time is not finite. -/
theorem etaOf_ok_iff (n : Int) {avg : PyFloat} (havg : lt (.fin 0) avg = true) :
    (∃ eta, etaOf n avg = .ok eta) ↔ ∃ q, divRat (mul (ofRat n) avg) 10 = .fin q := by
  rw [etaOf, intMul]
  cases hn : ofRat (n : ℚ) with
  | fin a =>
      show (∃ eta, (roundInt (divRat (mul (.fin a) avg) 10) >>= fun tens => _) = .ok eta) ↔ _
      cases divRat (mul (.fin a) avg) 10 with
      | fin q => exact iff_of_true ⟨_, rfl⟩ ⟨q, rfl⟩
      | inf _ => exact iff_of_false (by rintro ⟨eta, h⟩; cases h) (by rintro ⟨q, h⟩; cases h)
      | nan => exact iff_of_false (by rintro ⟨eta, h⟩; cases h) (by rintro ⟨q, h⟩; cases h)
  | inf negative =>
      obtain ⟨m, hm⟩ := mul_inf_of_pos negative havg
      rw [hm]
      exact iff_of_false (by rintro ⟨eta, h⟩; cases h) (by rintro ⟨q, h⟩; cases h)
  | nan => exact absurd hn (ofRat_ne_nan _)

/-- A quotient of a product of positive numbers. -/
theorem divRat_mul_nonneg {n : Int} (hn : 1 ≤ n) {avg : PyFloat} (havg : lt (.fin 0) avg = true)
    {q : ℚ} (h : divRat (mul (ofRat n) avg) 10 = .fin q) : 0 ≤ q := by
  have hpos : (0 : ℚ) ≤ n := by exact_mod_cast le_trans zero_le_one hn
  have hle := ofRat_nonneg hpos
  cases hn' : ofRat (n : ℚ) with
  | fin a =>
      rw [hn'] at h hle
      have ha : 0 ≤ a := of_decide_eq_true hle
      cases avg with
      | fin b =>
          have hb : 0 < b := of_decide_eq_true havg
          have hmul := ofRat_nonneg (mul_nonneg ha hb.le)
          cases hab : ofRat (a * b) with
          | fin c =>
              rw [hab] at hmul
              have hc : 0 ≤ c := of_decide_eq_true hmul
              have hdiv := ofRat_nonneg (div_nonneg hc (by norm_num : (0 : ℚ) ≤ 10))
              have hq : ofRat (c / 10) = .fin q := by
                rw [mul, hab] at h
                exact h
              rw [hq] at hdiv
              exact of_decide_eq_true hdiv
          | inf _ =>
              rw [mul, hab] at h
              cases h
          | nan => exact absurd hab (ofRat_ne_nan _)
      | inf m =>
          rw [mul, infMul] at h
          split at h <;> cases h
      | nan => cases havg
  | inf negative =>
      obtain ⟨m, hm⟩ := mul_inf_of_pos negative havg
      rw [hn', hm] at h
      cases h
  | nan => exact absurd hn' (ofRat_ne_nan _)

theorem etaOf_nonneg {n : Int} (hn : 1 ≤ n) {avg : PyFloat} (havg : lt (.fin 0) avg = true)
    {eta : Int} (h : etaOf n avg = .ok eta) : 0 ≤ eta := by
  obtain ⟨q, hq⟩ := (etaOf_ok_iff n havg).mp ⟨eta, h⟩
  have hround := roundHalfEven_nonneg (divRat_mul_nonneg hn havg hq)
  rw [etaOf, intMul] at h
  cases hn' : ofRat (n : ℚ) with
  | fin a =>
      rw [hn'] at h hq
      replace h : (roundInt (divRat (mul (.fin a) avg) 10) >>= fun tens => .ok (tens * 10)) =
        .ok eta := h
      rw [hq] at h
      cases h
      omega
  | inf negative =>
      rw [hn'] at h
      cases h
  | nan => exact absurd hn' (ofRat_ne_nan _)

/-! ## The summary -/

theorem one_le_positionOf {own : Option Str} {jobs : List Json} {n : Int}
    (h : positionOf own jobs = some n) : 1 ≤ n := by
  rw [positionOf] at h
  split at h
  · cases h
  · obtain ⟨j, -, hj⟩ := Option.bind_eq_some_iff.mp h
    exact of_decide_eq_true (Option.filter_eq_some_iff.mp hj).2

/-- The summary of jobs that have fields, when the time can be rounded. -/
theorem compute_of_neutral (clock : Clock) {payload : Json} (own : Option Str) (now : Int)
    (avg : PyFloat) (h : ∀ j ∈ jobsOf payload, Neutral j) :
    ∃ stale throughput, computeQueueSummary clock payload own now avg =
      etaSeconds avg (positionOf own (jobsOf payload)) >>= fun eta =>
        .ok ⟨((jobsOf payload).filter isPending).length,
          ((jobsOf payload).filter fun j => isStr "processing".toList (fieldOf j "status")).length,
          positionOf own (jobsOf payload), eta, throughput, stale, clock.isoformat now⟩ := by
  have hpending : ∀ j ∈ (jobsOf payload).filter isPending, Neutral j :=
    fun j hj => h j (List.mem_filter.mp hj).1
  have hposition : ownPosition (own.getD []) ((jobsOf payload).filter isPending) =
      .ok (positionOf own (jobsOf payload)) := by
    rw [positionOf, ownPosition]
    split
    · rfl
    · exact findPosition_of_neutral hpending _
  have hseen : ∀ j ∈ (jobsOf payload).filter isPending ++
      (jobsOf payload).filter fun j => isStr "processing".toList (fieldOf j "status"),
      Neutral j := by
    intro j hj
    rcases List.mem_append.mp hj with hj | hj
    · exact hpending j hj
    · exact h j (List.mem_filter.mp hj).1
  obtain ⟨newest, hnewest⟩ := maxDt_of_neutral clock hseen none
  refine ⟨newest.any fun dt => staleAfter < now - dt,
    if lt (.fin 0) avg then some (ratDiv 60 avg).round2 else none, ?_⟩
  have hfilter : (jobsOf payload).filter (fun j => isStr "pending".toList (fieldOf j "status")) =
    (jobsOf payload).filter isPending := rfl
  rw [computeQueueSummary, withStatus_of_neutral h, withStatus_of_neutral h, hfilter]
  show (ownPosition _ _ >>= _) = _
  rw [hposition]
  show (_ >>= fun eta => maxDt clock _ none >>= _) = _
  rw [hnewest]
  rfl

/-- **The summary of the queue.** A summary in its bounds comes back exactly when each job has
fields (or stands for none), and the position that the own job carries is one of the pending jobs,
at a finite time. -/
theorem summary_iff (clock : Clock) (payload : Json) (own : Option Str) (now : Int)
    (avg : PyFloat) : Total (computeQueueSummary clock payload own now avg) ↔
      (∀ j ∈ jobsOf payload, Neutral j) ∧ Placed own avg (jobsOf payload) := by
  constructor
  · rintro ⟨s, hs, hposition, heta⟩
    have hneutral : ∀ j ∈ jobsOf payload, Neutral j := by
      cases hpending : withStatus "pending" (jobsOf payload) with
      | error e =>
          rw [computeQueueSummary, hpending] at hs
          cases hs
      | ok pending => exact neutral_of_withStatus hpending
    obtain ⟨stale, throughput, hcompute⟩ := compute_of_neutral clock own now avg hneutral
    rw [hcompute] at hs
    refine ⟨hneutral, fun n hn => ?_⟩
    rw [hn] at hs
    by_cases havg : lt (.fin 0) avg = true
    · cases heta' : etaOf n avg with
      | error e =>
          simp only [etaSeconds, havg, heta', if_true] at hs
          cases hs
      | ok eta =>
          simp only [etaSeconds, havg, heta', if_true] at hs
          cases hs
          exact ⟨(hposition n rfl).2, fun _ => (etaOf_ok_iff n havg).mp ⟨eta, heta'⟩⟩
    · simp only [etaSeconds, havg] at hs
      cases hs
      exact ⟨(hposition n rfl).2, fun h => absurd h havg⟩
  · rintro ⟨hneutral, hplaced⟩
    obtain ⟨stale, throughput, hcompute⟩ := compute_of_neutral clock own now avg hneutral
    rw [hcompute]
    cases hn : positionOf own (jobsOf payload) with
    | none => exact ⟨_, rfl, nofun, nofun⟩
    | some n =>
        obtain ⟨hle, hfinite⟩ := hplaced n hn
        have hbounds : ∀ m, some n = some m →
            1 ≤ m ∧ m ≤ ((jobsOf payload).filter isPending).length := by
          rintro m ⟨rfl⟩
          exact ⟨one_le_positionOf hn, hle⟩
        by_cases havg : lt (.fin 0) avg = true
        · obtain ⟨eta, heta⟩ := (etaOf_ok_iff n havg).mpr (hfinite havg)
          simp only [etaSeconds, havg, heta, if_true]
          refine ⟨_, rfl, hbounds, ?_⟩
          rintro m ⟨rfl⟩
          exact etaOf_nonneg (one_le_positionOf hn) havg heta
        · simp only [etaSeconds, havg]
          exact ⟨_, rfl, hbounds, nofun⟩

/-- **A job that is a text.** Nothing comes back. -/
theorem text_job_raises : ¬ ∀ (clock : Clock) (payload : Json) (own : Option Str) (now : Int),
    Total (computeQueueSummary clock payload own now (.fin 8)) := by
  intro h
  obtain ⟨s, hs, -⟩ := h ⟨fun _ => none, fun _ => []⟩ (.obj [("jobs".toList, .list [.str ['a']])])
    none 0
  have herror : computeQueueSummary ⟨fun _ => none, fun _ => []⟩
      (.obj [("jobs".toList, .list [.str ['a']])]) none 0 (.fin 8) = .error .attributeError := by
    rfl
  rw [herror] at hs
  cases hs

end MesReunions.QueueEta
