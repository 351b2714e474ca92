import Mathlib.Data.List.Count
import MesReunions.Base.TSys

/-!
# The quota of imports

`import_video` of `services/video_ingest/app/api.py` when the video is not in the catalogue: one
transaction counts the user's jobs of the last 24 hours (`check_import_quota`) and inserts one
more (`enqueue`). A statement sees the jobs that are committed by then; `NOW()`, in the count as in
the default of `created_at`, is the time the transaction began, at its count.

* `Act.NoCrossing` — a request that counts leaves room for those that have counted before it.
* **`daily_quota_kept`** — in such a run no user has more jobs in 24 hours than the limit.
* **`quota_crossed`** — two requests that count before either commits.
-/

namespace MesReunions.VideoIngest.Quota

/-- A row of `video_ingest_jobs`, as the quota reads it. Times are in seconds. -/
structure Job where
  userSub : String
  createdAt : Nat
  deriving DecidableEq

/-- A transaction that has counted. -/
structure Request where
  id : Nat
  job : Job
  /-- `enqueue` has inserted the job. -/
  inserted : Bool
  deriving DecidableEq

structure World where
  now : Nat
  jobs : List Job
  requests : List Request
  deriving DecidableEq

def World.start : World := ⟨0, [], []⟩

inductive Act where
  | wait (d : Nat)
  | check (q : Nat) (userSub : String)
  | enqueue (q : Nat)
  | commit (q : Nat)
  | rollback (q : Nat)
  deriving DecidableEq

/-- `INTERVAL '24 hours'` -/
def day : Nat := 24 * 3600

/-- `user_sub = %s AND created_at > NOW() - INTERVAL '24 hours'` -/
def Job.counts (userSub : String) (now : Nat) (j : Job) : Bool :=
  j.userSub == userSub && decide (now < j.createdAt + day)

/-- `check_import_quota(conn, user_sub=...)` does not raise. -/
def checkImportQuota (limit : Int) (jobs : List Job) (userSub : String) (now : Nat) : Bool :=
  decide (limit ≤ 0) || decide ((jobs.countP (Job.counts userSub now) : Int) < limit)

def World.request (s : World) (q : Nat) : Option Request := s.requests.find? (·.id == q)

def step (limit : Int) (s : World) : Act → Option World
  | .wait d => some { s with now := s.now + d }
  | .check q userSub =>
      match s.request q with
      | some _ => none
      | none =>
          if checkImportQuota limit s.jobs userSub s.now then
            some { s with requests := ⟨q, ⟨userSub, s.now⟩, false⟩ :: s.requests }
          else some s
  | .enqueue q =>
      match s.request q with
      | some r =>
          if r.inserted then none
          else some { s with requests := { r with inserted := true } :: s.requests.erase r }
      | none => none
  | .commit q =>
      match s.request q with
      | some r =>
          if r.inserted then
            some { s with jobs := r.job :: s.jobs, requests := s.requests.erase r }
          else none
      | none => none
  | .rollback q =>
      match s.request q with
      | some r => some { s with requests := s.requests.erase r }
      | none => none

/-! ## Jobs and requests -/

/-- The jobs there are, and those that may still come. -/
def World.all (s : World) : List Job := s.jobs ++ s.requests.map Request.job

/-- A request that passes leaves room for those that have passed and not ended yet. -/
def Act.NoCrossing (limit : Int) (s : World) : Act → Prop
  | .check _ userSub => checkImportQuota limit s.jobs userSub s.now = true →
      (s.all.countP (Job.counts userSub s.now) : Int) < limit
  | _ => True

instance (limit : Int) (s : World) (a : Act) : Decidable (a.NoCrossing limit s) := by
  cases a <;> unfold Act.NoCrossing <;> infer_instance

/-- The jobs of a user in the 24 hours up to `t`. -/
def inDay (userSub : String) (t : Nat) (jobs : List Job) : Nat :=
  jobs.countP fun j => j.counts userSub t && decide (j.createdAt ≤ t)

structure Inv (limit : Int) (s : World) : Prop where
  past : ∀ j ∈ s.all, j.createdAt ≤ s.now
  kept : ∀ userSub t, (inDay userSub t s.all : Int) ≤ limit

theorem inDay_perm {userSub : String} {t : Nat} {jobs jobs' : List Job} (h : jobs.Perm jobs') :
    inDay userSub t jobs = inDay userSub t jobs' := h.countP_eq _

theorem mem_of_request {s : World} {q : Nat} {r : Request} (h : s.request q = some r) :
    r ∈ s.requests := List.mem_of_find?_eq_some h

/-- The jobs, with one request taken out. -/
theorem all_perm {s : World} {q : Nat} {r : Request} (h : s.request q = some r) :
    s.all.Perm (r.job :: (s.jobs ++ (s.requests.erase r).map Request.job)) := by
  have hperm := (List.perm_cons_erase (mem_of_request h)).map Request.job
  rw [List.map_cons] at hperm
  exact (hperm.append_left s.jobs).trans List.perm_middle

/-- A job that comes now, where there is room in the last 24 hours. -/
theorem inDay_cons {limit : Int} {userSub : String} {now : Nat} {jobs : List Job}
    (hpast : ∀ j ∈ jobs, j.createdAt ≤ now) (hkept : ∀ u t, (inDay u t jobs : Int) ≤ limit)
    (hroom : (jobs.countP (Job.counts userSub now) : Int) < limit) (u : String) (t : Nat) :
    (inDay u t (⟨userSub, now⟩ :: jobs) : Int) ≤ limit := by
  have hkept := hkept u t
  rw [inDay, List.countP_cons]
  split
  · -- The window holds the new job, and so only jobs that it has counted.
    rename_i hnew
    simp only [Job.counts, Bool.and_eq_true, beq_iff_eq, decide_eq_true_eq] at hnew
    obtain ⟨⟨rfl, hday⟩, hle⟩ := hnew
    have hcount : jobs.countP (fun j => j.counts userSub t && decide (j.createdAt ≤ t)) ≤
        jobs.countP (Job.counts userSub now) := by
      refine List.countP_mono_left fun j hj hcounts => ?_
      simp only [Job.counts, Bool.and_eq_true, beq_iff_eq, decide_eq_true_eq] at hcounts ⊢
      have := hpast j hj
      exact ⟨hcounts.1.1, by omega⟩
    omega
  · rw [inDay] at hkept
    omega

theorem inv_start {limit : Int} (hlimit : 0 < limit) : Inv limit .start where
  past := fun _ h => (by cases h)
  kept := fun _ _ => (by simp [World.all, World.start, inDay]; omega)

/-- A step that does not add a job. -/
theorem Inv.mono {limit : Int} {s s' : World} (h : Inv limit s) (hnow : s.now ≤ s'.now)
    (hall : s'.all.Subperm s.all) : Inv limit s' := by
  refine ⟨fun j hj => Nat.le_trans (h.past j (hall.subset hj)) hnow, fun userSub t => ?_⟩
  have hle : inDay userSub t s'.all ≤ inDay userSub t s.all := hall.countP_le _
  have := h.kept userSub t
  omega

/-- The step lemma. -/
theorem Inv.step {limit : Int} {s s' : World} {a : Act} (h : Inv limit s)
    (hguard : a.NoCrossing limit s) (hstep : Quota.step limit s a = some s') : Inv limit s' := by
  cases a with
  | wait d =>
      cases hstep
      exact h.mono (Nat.le_add_right _ _) (.refl _)
  | check q userSub =>
      simp only [Quota.step] at hstep
      split at hstep
      · cases hstep
      · split at hstep
        · rename_i hchecked
          cases hstep
          have hperm : (⟨userSub, s.now⟩ :: s.all : List Job).Perm
              (World.all { s with requests := ⟨q, ⟨userSub, s.now⟩, false⟩ :: s.requests }) :=
            List.perm_middle.symm
          refine ⟨fun j hj => ?_, fun u t => ?_⟩
          · rcases List.mem_cons.mp (hperm.mem_iff.mpr hj) with rfl | hj
            · exact Nat.le_refl _
            · exact h.past j hj
          · rw [← inDay_perm hperm]
            exact inDay_cons h.past h.kept (hguard hchecked) u t
        · cases hstep
          exact h
  | enqueue q =>
      simp only [Quota.step] at hstep
      split at hstep
      · rename_i r hr
        split at hstep
        · cases hstep
        · cases hstep
          exact h.mono (Nat.le_refl _) (List.perm_middle.trans (all_perm hr).symm).subperm
      · cases hstep
  | commit q =>
      simp only [Quota.step] at hstep
      split at hstep
      · rename_i r hr
        split at hstep
        · cases hstep
          exact h.mono (Nat.le_refl _) (all_perm hr).symm.subperm
        · cases hstep
      · cases hstep
  | rollback q =>
      simp only [Quota.step] at hstep
      split at hstep
      · rename_i r hr
        cases hstep
        exact h.mono (Nat.le_refl _)
          ((List.sublist_cons_self _ _).subperm.trans (all_perm hr).symm.subperm)
      · cases hstep

/-! ## Runs -/

/-- **The quota** holds in every run where no request crosses those that fill it. -/
theorem daily_quota_kept (limit : Int) (hlimit : 0 < limit) (as : List Act) (s : World)
    (hguarded : TSys.Guarded (step limit) (fun s a => a.NoCrossing limit s) .start as)
    (hrun : TSys.run (step limit) .start as = some s) (userSub : String) (t : Nat) :
    (inDay userSub t s.jobs : Int) ≤ limit := by
  have hinv : Inv limit s := TSys.inv_of_guarded (step limit) (Inv limit)
    (fun _ _ _ h hguard hstep => h.step hguard hstep) (inv_start hlimit) hguarded hrun
  have hle : inDay userSub t s.jobs ≤ inDay userSub t s.all :=
    (List.sublist_append_left _ _).countP_le
  have := hinv.kept userSub t
  omega

/-- Requests that follow each other, and one more than the limit. -/
theorem daily_quota_kept_in_a_row : inDay "u" 2 [⟨"u", 1⟩, ⟨"u", 0⟩] ≤ (2 : Int) :=
  daily_quota_kept 2 (by decide)
    [.check 0 "u", .enqueue 0, .commit 0, .wait 1, .check 1 "u", .enqueue 1, .commit 1, .wait 1,
      .check 2 "u"] ⟨2, [⟨"u", 1⟩, ⟨"u", 0⟩], []⟩ (by decide) (by decide) "u" 2

/-- **Two requests cross**: both count no job, and both enqueue one. -/
theorem quota_crossed : ¬ ∀ (limit : Int), 0 < limit → ∀ (as : List Act) (s : World),
    TSys.run (step limit) .start as = some s → ∀ userSub t, (inDay userSub t s.jobs : Int) ≤ limit := by
  intro h
  have hkept := h 1 (by decide)
    [.check 0 "u", .check 1 "u", .enqueue 0, .commit 0, .enqueue 1, .commit 1]
    ⟨0, [⟨"u", 0⟩, ⟨"u", 0⟩], []⟩ (by decide) "u" 0
  exact absurd hkept (by decide)

end MesReunions.VideoIngest.Quota
