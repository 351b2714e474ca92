import MesReunions.Base.Json
import Mathlib.Data.List.Destutter

/-!
# Waiting for a Kevent job

`get_job` and `wait_for_job` of `kevent_client.py`: the gateway is polled until the job has ended, or
until the deadline has passed.

* `getJob`, `statusOf`, `ended` — what is made of one answer of the gateway.
* `waitForJob` — the loop, with the two callbacks, which may raise.
* `Ends` — how the loop ends with a poll, and `calls` — the callbacks made for a list of statuses.
* `waitFrom_of_stop` — the loop runs to the first poll that ends it.
* **`wait_for_job_ends`** — there is such a poll, and its outcome does not depend on the callbacks.
* `filterMap_status`, `filterMap_poll` — which callbacks are made.
-/

namespace MesReunions.Kevent

/-! ## One answer -/

/-- What is raised, with what its text is made of. -/
inductive Raised where
  | auth (code : Nat)
  | unreachable
  | serverError (code : Nat)
  | notFound
  | refused (code : Nat)
  | notJson
  | failed (err : Json)
  | noResult
  | timeout (status : Str)
  | noAttribute

inductive ErrorClass where
  | keventAuthError
  | keventTransientError
  | keventApplicativeError
  | keventTimeoutError
  | attributeError
  deriving DecidableEq

def Raised.errorClass : Raised → ErrorClass
  | auth _ => .keventAuthError
  | unreachable | serverError _ => .keventTransientError
  | notFound | refused _ | notJson | failed _ | noResult => .keventApplicativeError
  | timeout _ => .keventTimeoutError
  | noAttribute => .attributeError

/-- What the gateway answers: nothing, or a code and a body, when it is JSON. -/
inductive Answer where
  | unreachable
  | response (code : Nat) (body : Option Json)

/-- `_raise_for_status` -/
def raiseForStatus (code : Nat) : Except Raised Unit :=
  if code = 401 ∨ code = 403 then .error (.auth code)
  else if 500 ≤ code then .error (.serverError code)
  else if code = 422 then .error (.refused code)
  else if 400 ≤ code then .error (.refused code)
  else .ok ()

/-- `get_job` -/
def getJob : Answer → Except Raised Json
  | .unreachable => .error .unreachable
  | .response code body =>
      if code = 404 then .error .notFound
      else do
        raiseForStatus code
        match body with
        | none => .error .notJson
        | some body => .ok body

def completed : Str := "completed".toList
def failed : Str := "failed".toList

/-- The text of a failure without one. -/
def noMessage : Json := .str "kevent reported job failed without an error message".toList

/-- `(body.get("status") or "").lower()`: what is not a dict has no `get`, and what is neither falsy
nor a string has no `lower`. -/
def statusOf (lower : Str → Str) : Json → Except Raised Str
  | .obj fields =>
      match Json.get? fields "status".toList with
      | none => .ok (lower [])
      | some v =>
          if v.truthy then
            match v with
            | .str s => .ok (lower s)
            | _ => .error .noAttribute
          else .ok (lower [])
  | _ => .error .noAttribute

def fieldsOf : Json → List (Str × Json)
  | .obj fields => fields
  | _ => []

/-- `body.get("error") or "…"` -/
def errorOf (body : Json) : Json :=
  match Json.get? (fieldsOf body) "error".toList with
  | some err => if err.truthy then err else noMessage
  | none => noMessage

/-- The outcome, when the status is terminal. -/
def ended (body : Json) (status : Str) : Option (Except Raised Json) :=
  if status = failed then some (.error (.failed (errorOf body)))
  else if status = completed then
    match Json.get? (fieldsOf body) "result".toList with
    | none => some (.error .noResult)
    | some result => some (.ok result)
  else none

/-- One poll: the body and its status. -/
def poll (lower : Str → Str) (answer : Answer) : Except Raised (Json × Str) := do
  let body ← getJob answer
  let status ← statusOf lower body
  .ok (body, status)

/-! ## The loop -/

/-- What `time_fn` shows: at the start, then after each poll. `sleep_fn` lasts for the interval at
least. -/
structure Clock (interval : ℚ) where
  read : Nat → ℚ
  le_first : read 0 ≤ read 1
  le_next : ∀ k, read (k + 1) + interval ≤ read (k + 2)

/-- A callback: what it raises, and what it does to the state of the program. -/
abbrev Callback (σ : Type) := Str → σ → Except Str Unit × σ

structure Callbacks (σ : Type) where
  onStatus : Option (Callback σ)
  onPoll : Option (Callback σ)

/-- A callback inside its `try`; what it raises is logged. -/
def invoke {σ : Type} (callback : Option (Callback σ)) (status : Str) (s : σ) : σ :=
  match callback with
  | none => s
  | some f =>
      match f status s with
      | (.ok _, s) => s
      | (.error _, s) => s

section Loop

variable {interval : ℚ} (lower : Str → Str) (answers : Nat → Answer) (clock : Clock interval)
  (deadline : ℚ) {σ : Type} (callbacks : Callbacks σ)

/-- The loop from poll `k` on; `none` when `fuel` polls are not enough. -/
def waitFrom : (fuel k : Nat) → (lastStatus : Option Str) → σ → Option (Except Raised Json × σ)
  | 0, _, _, _ => none
  | fuel + 1, k, lastStatus, s =>
      match poll lower (answers k) with
      | .error e => some (.error e, s)
      | .ok (body, status) =>
          let s := if some status = lastStatus then s else invoke callbacks.onStatus status s
          let s := invoke callbacks.onPoll status s
          match ended body status with
          | some outcome => some (outcome, s)
          | none =>
              if deadline ≤ clock.read (k + 1) then some (.error (.timeout status), s)
              else waitFrom fuel (k + 1) (some status) s

end Loop

/-- `wait_for_job` -/
def waitForJob {interval : ℚ} (lower : Str → Str) (answers : Nat → Answer)
    (clock : Clock interval) (timeout : ℚ) {σ : Type} (callbacks : Callbacks σ) (fuel : Nat)
    (s : σ) : Option (Except Raised Json × σ) :=
  waitFrom lower answers clock (clock.read 0 + timeout) callbacks fuel 0 none s

/-! ## The callbacks -/

inductive Call where
  | status (s : Str)
  | poll (s : Str)

/-- The callbacks made for the statuses of some polls, after a last one. -/
def calls : (lastStatus : Option Str) → List Str → List Call
  | _, [] => []
  | lastStatus, s :: rest =>
      (if some s = lastStatus then [] else [Call.status s]) ++ Call.poll s :: calls (some s) rest

def perform {σ : Type} (callbacks : Callbacks σ) (s : σ) : Call → σ
  | .status status => invoke callbacks.onStatus status s
  | .poll status => invoke callbacks.onPoll status s

def Call.statusOnly : Call → Option Str
  | .status s => some s
  | .poll _ => none

def Call.pollOnly : Call → Option Str
  | .status _ => none
  | .poll s => some s

/-- **`on_poll`** is called once for each poll. -/
theorem filterMap_poll (lastStatus : Option Str) (statuses : List Str) :
    (calls lastStatus statuses).filterMap Call.pollOnly = statuses := by
  induction statuses generalizing lastStatus with
  | nil => rfl
  | cons s rest ih =>
      have hrest : (Call.poll s :: calls (some s) rest).filterMap Call.pollOnly = s :: rest :=
        congrArg (s :: ·) (ih (some s))
      rw [calls, List.filterMap_append, hrest]
      split
      · rfl
      · rfl

theorem filterMap_status_some (last : Str) (statuses : List Str) :
    last :: (calls (some last) statuses).filterMap Call.statusOnly =
      statuses.destutter' (· ≠ ·) last := by
  induction statuses generalizing last with
  | nil => rfl
  | cons s rest ih =>
      rw [calls, List.filterMap_append, List.filterMap_cons, List.destutter'_cons]
      by_cases h : s = last
      · rw [if_pos (congrArg some h), if_neg (not_not.mpr h.symm), ← ih last, h]
        rfl
      · rw [if_neg fun heq => h (Option.some.inj heq), if_pos (Ne.symm h), ← ih s]
        rfl

/-- **`on_status`** is called once for each run of equal statuses, in order. -/
theorem filterMap_status (statuses : List Str) :
    (calls none statuses).filterMap Call.statusOnly = statuses.destutter (· ≠ ·) := by
  cases statuses with
  | nil => rfl
  | cons s rest =>
      rw [calls, if_neg nofun, List.destutter_cons', ← filterMap_status_some s rest]
      rfl

/-! ## The end of the loop -/

section Ends

variable {interval : ℚ} (lower : Str → Str) (answers : Nat → Answer) (clock : Clock interval)
  (deadline : ℚ)

/-- The outcome of poll `k`, when the loop ends with it. -/
def stop (k : Nat) : Option (Except Raised Json) :=
  match poll lower (answers k) with
  | .error e => some (.error e)
  | .ok (body, status) =>
      match ended body status with
      | some outcome => some outcome
      | none => if deadline ≤ clock.read (k + 1) then some (.error (.timeout status)) else none

/-- The status that poll `k` gives. -/
def seen (k : Nat) : List Str :=
  match poll lower (answers k) with
  | .error _ => []
  | .ok (_, status) => [status]

/-- The statuses of the polls from `k` on, `count` of them. -/
def statuses (k count : Nat) : List Str := (List.range' k count).flatMap (seen lower answers)

/-- **How the loop ends with poll `k`.** -/
inductive Ends (k : Nat) : Except Raised Json → Prop where
  | completed {body result : Json} (hpoll : poll lower (answers k) = .ok (body, completed))
      (hresult : Json.get? (fieldsOf body) "result".toList = some result) : Ends k (.ok result)
  | noResult {body : Json} (hpoll : poll lower (answers k) = .ok (body, completed))
      (hresult : Json.get? (fieldsOf body) "result".toList = none) : Ends k (.error .noResult)
  | failed {body : Json} (hpoll : poll lower (answers k) = .ok (body, failed)) :
      Ends k (.error (.failed (errorOf body)))
  | timeout {body : Json} {status : Str} (hpoll : poll lower (answers k) = .ok (body, status))
      (hcompleted : status ≠ completed) (hfailed : status ≠ failed)
      (hdeadline : deadline ≤ clock.read (k + 1)) : Ends k (.error (.timeout status))
  | raised {e : Raised} (hpoll : poll lower (answers k) = .error e) : Ends k (.error e)

/-- Poll `k` is not terminal, and comes before the deadline. -/
def Continues (k : Nat) : Prop :=
  ∃ body status, poll lower (answers k) = .ok (body, status) ∧ status ≠ completed ∧
    status ≠ failed ∧ clock.read (k + 1) < deadline

variable {lower answers clock deadline}

theorem ended_eq_none {body : Json} {status : Str} (h : ended body status = none) :
    status ≠ completed ∧ status ≠ failed := by
  rw [ended] at h
  split at h
  · cases h
  · rename_i hfailed
    split at h
    · split at h
      · cases h
      · cases h
    · rename_i hcompleted
      exact ⟨hcompleted, hfailed⟩

theorem continues_of_stop {k : Nat} (h : stop lower answers clock deadline k = none) :
    Continues lower answers clock deadline k := by
  unfold stop at h
  split at h
  · cases h
  · rename_i body status hpoll
    split at h
    · cases h
    · rename_i hended
      split at h
      · cases h
      · rename_i hdeadline
        have hopen := ended_eq_none hended
        exact ⟨body, status, hpoll, hopen.1, hopen.2, not_le.mp hdeadline⟩

theorem ends_of_stop {k : Nat} {outcome : Except Raised Json}
    (h : stop lower answers clock deadline k = some outcome) :
    Ends lower answers clock deadline k outcome := by
  unfold stop at h
  split at h
  · rename_i e hpoll
    cases h
    exact Ends.raised hpoll
  · rename_i body status hpoll
    split at h
    · rename_i found hended
      cases h
      rw [ended] at hended
      split at hended
      · rename_i hstatus
        cases hended
        exact Ends.failed (hstatus ▸ hpoll)
      · split at hended
        · rename_i hstatus
          split at hended
          · rename_i hresult
            cases hended
            exact Ends.noResult (hstatus ▸ hpoll) hresult
          · rename_i hresult
            cases hended
            exact Ends.completed (hstatus ▸ hpoll) hresult
        · cases hended
    · rename_i hended
      split at h
      · rename_i hdeadline
        cases h
        have hopen := ended_eq_none hended
        exact Ends.timeout hpoll hopen.1 hopen.2 hdeadline
      · cases h

/-- **The loop** runs to the first poll that ends it. The induction is on the polls before. -/
theorem waitFrom_of_stop {σ : Type} (callbacks : Callbacks σ) {outcome : Except Raised Json} :
    ∀ {count k fuel : Nat} {lastStatus : Option Str} {s : σ},
      (∀ i < count, stop lower answers clock deadline (k + i) = none) →
      stop lower answers clock deadline (k + count) = some outcome → count < fuel →
      waitFrom lower answers clock deadline callbacks fuel k lastStatus s =
        some (outcome, (calls lastStatus (statuses lower answers k (count + 1))).foldl
          (perform callbacks) s)
  | count, k, 0, _, _, _, _, hfuel => absurd hfuel (Nat.not_lt_zero _)
  | 0, k, fuel + 1, lastStatus, s, _, hstop, _ => by
      rw [Nat.add_zero] at hstop
      rw [waitFrom, statuses, List.range'_one, List.flatMap_singleton, seen]
      unfold stop at hstop
      cases hpoll : poll lower (answers k) with
      | error e =>
          rw [hpoll] at hstop
          cases hstop
          rfl
      | ok polled =>
          obtain ⟨body, status⟩ := polled
          rw [hpoll] at hstop
          dsimp only at hstop ⊢
          rw [calls, calls]
          cases hended : ended body status with
          | some found =>
              rw [hended] at hstop
              cases hstop
              by_cases hsame : some status = lastStatus
              · simp [hsame, perform]
              · simp [hsame, perform]
          | none =>
              rw [hended] at hstop
              dsimp only at hstop ⊢
              split at hstop
              · rename_i hdeadline
                cases hstop
                rw [if_pos hdeadline]
                by_cases hsame : some status = lastStatus
                · simp [hsame, perform]
                · simp [hsame, perform]
              · cases hstop
  | count + 1, k, fuel + 1, lastStatus, s, hopen, hstop, hfuel => by
      have hfirst : stop lower answers clock deadline k = none := hopen 0 (Nat.succ_pos _)
      have hopen' : ∀ i < count, stop lower answers clock deadline (k + 1 + i) = none := by
        intro i hi
        have hnext := hopen (i + 1) (by omega)
        rwa [show k + (i + 1) = k + 1 + i by omega] at hnext
      have hstop' : stop lower answers clock deadline (k + 1 + count) = some outcome := by
        rwa [show k + (count + 1) = k + 1 + count by omega] at hstop
      have hrest : ∀ last s, waitFrom lower answers clock deadline callbacks fuel (k + 1) last s =
          some (outcome, (calls last (statuses lower answers (k + 1) (count + 1))).foldl
            (perform callbacks) s) :=
        fun last s => waitFrom_of_stop callbacks hopen' hstop' (by omega)
      rw [statuses, List.range'_succ, List.flatMap_cons, ← statuses, seen]
      rw [waitFrom]
      unfold stop at hfirst
      cases hpoll : poll lower (answers k) with
      | error e =>
          rw [hpoll] at hfirst
          cases hfirst
      | ok polled =>
          obtain ⟨body, status⟩ := polled
          rw [hpoll] at hfirst
          dsimp only at hfirst ⊢
          cases hended : ended body status with
          | some found =>
              rw [hended] at hfirst
              cases hfirst
          | none =>
              rw [hended] at hfirst
              dsimp only at hfirst ⊢
              split at hfirst
              · cases hfirst
              · rename_i hdeadline
                rw [if_neg hdeadline, hrest, List.singleton_append, calls]
                by_cases hsame : some status = lastStatus
                · simp [hsame, perform]
                · simp [hsame, perform]

/-! ## The deadline -/

/-- Each poll takes the interval at least. -/
theorem Clock.le_read (clock : Clock interval) (k : Nat) :
    clock.read 0 + k * interval ≤ clock.read (k + 1) := by
  induction k with
  | zero =>
      have hfirst := clock.le_first
      simpa using hfirst
  | succ k ih =>
      have hnext := clock.le_next k
      push_cast
      linarith

/-- A poll after the deadline ends the loop. -/
theorem stop_of_deadline {k : Nat} (h : deadline ≤ clock.read (k + 1)) :
    stop lower answers clock deadline k ≠ none := by
  intro hnone
  obtain ⟨_, _, _, _, _, hbefore⟩ := continues_of_stop hnone
  exact absurd h (not_le.mpr hbefore)

theorem exists_stop (hinterval : 0 < interval) (deadline : ℚ) :
    ∃ n, stop lower answers clock deadline n ≠ none := by
  obtain ⟨n, hn⟩ := exists_nat_ge ((deadline - clock.read 0) / interval)
  have hlate : deadline - clock.read 0 ≤ n * interval := (div_le_iff₀ hinterval).mp hn
  have hread := clock.le_read n
  exact ⟨n, stop_of_deadline (by linarith)⟩

end Ends

/-- How a job is waited for: `n` polls, one more that ends the loop, and the callbacks made. -/
structure Waited {interval : ℚ} (lower : Str → Str) (answers : Nat → Answer)
    (clock : Clock interval) (timeout : ℚ) (n : Nat) (outcome : Except Raised Json)
    (made : List Call) : Prop where
  bound : n = 0 ∨ ((n : ℚ) - 1) * interval < timeout
  before : ∀ k < n, Continues lower answers clock (clock.read 0 + timeout) k
  last : Ends lower answers clock (clock.read 0 + timeout) n outcome
  onStatus : made.filterMap Call.statusOnly =
    (statuses lower answers 0 (n + 1)).destutter (· ≠ ·)
  onPoll : made.filterMap Call.pollOnly = statuses lower answers 0 (n + 1)
  runs : ∀ (σ : Type) (callbacks : Callbacks σ) (fuel : Nat) (s : σ), n < fuel →
    waitForJob lower answers clock timeout callbacks fuel s =
      some (outcome, made.foldl (perform callbacks) s)

/-- **Waiting ends.** There is a first poll whose status is terminal, or that fails, or that comes
after the deadline. The loop ends with it, whatever the callbacks do; they are called for the
statuses of the polls, once for each change and once for each poll. -/
theorem wait_for_job_ends {interval : ℚ} (hinterval : 0 < interval) (lower : Str → Str)
    (answers : Nat → Answer) (clock : Clock interval) (timeout : ℚ) :
    ∃ n outcome made, Waited lower answers clock timeout n outcome made := by
  classical
  have hexists : ∃ n, stop lower answers clock (clock.read 0 + timeout) n ≠ none :=
    exists_stop hinterval (clock.read 0 + timeout)
  obtain ⟨outcome, hstop⟩ := Option.ne_none_iff_exists'.mp (Nat.find_spec hexists)
  have hopen : ∀ k < Nat.find hexists,
      stop lower answers clock (clock.read 0 + timeout) k = none := fun k hk =>
    not_not.mp (Nat.find_min hexists hk)
  refine ⟨Nat.find hexists, outcome, calls none (statuses lower answers 0 (Nat.find hexists + 1)),
    ?_, fun k hk => continues_of_stop (hopen k hk), ends_of_stop hstop, filterMap_status _,
    filterMap_poll _ _, fun σ callbacks fuel s hfuel => ?_⟩
  · -- The poll before the last one was in time.
    rcases Nat.eq_zero_or_pos (Nat.find hexists) with hzero | hpos
    · exact Or.inl hzero
    · obtain ⟨_, _, _, _, _, hbefore⟩ := continues_of_stop (hopen (Nat.find hexists - 1) (by omega))
      have hread := clock.le_read (Nat.find hexists - 1)
      rw [Nat.cast_sub hpos, Nat.cast_one] at hread
      exact Or.inr (by linarith)
  · exact waitFrom_of_stop callbacks (fun k hk => by rw [Nat.zero_add]; exact hopen k hk)
      (by rw [Nat.zero_add]; exact hstop) hfuel

/-- A clock that shows the sleeps only. -/
def sleeps : Clock 3 where
  read k := 3 * k
  le_first := by norm_num
  le_next k := by push_cast; linarith

def noCallbacks : Callbacks Unit := ⟨none, none⟩

/-- A body with a status alone. -/
def statusBody (status : Str) : Answer :=
  .response 200 (some (.obj [("status".toList, .str status)]))

theorem wait_for_job_ends_completed :
    (0 : ℚ) < 3 ∧ ∃ n outcome made,
      Waited id (fun _ => statusBody completed) sleeps 600 n outcome made :=
  ⟨by norm_num, wait_for_job_ends (by norm_num) id (fun _ => statusBody completed) sleeps 600⟩

/-- A job whose first status is `completed`, without a result: an exception is raised. -/
theorem completed_without_result :
    ¬ ∀ (answers : Nat → Answer) (body : Json), poll id (answers 0) = .ok (body, completed) →
      ∃ fuel result, waitForJob id answers sleeps 600 noCallbacks fuel () =
        some (.ok result, ()) := by
  intro h
  obtain ⟨fuel, result, hreturns⟩ := h (fun _ => statusBody completed) _ rfl
  cases fuel with
  | zero => cases hreturns
  | succ fuel =>
      have hraises : waitForJob id (fun _ => statusBody completed) sleeps 600 noCallbacks (fuel + 1)
          () = some (.error .noResult, ()) := rfl
      rw [hraises] at hreturns
      cases hreturns

end MesReunions.Kevent
