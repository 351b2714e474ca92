import Mathlib.Logic.Function.Basic
import MesReunions.Base.TSys
import MesReunions.Pipeline.Jobs

/-!
# The pipeline

The rows of `uploaded_files` and every message that concerns one: in `api_upload`'s hands, in a
queue, or with a worker. Any message may move next, and there may be any number for one file.

* `World.step` — an upload, or a move of a message.
* `World.Sound` — every message is about a row.
-/

namespace MesReunions.Pipeline

open TSys

structure World where
  status : Nat → Option UploadStatus
  jobs : Nat → Option Job
  next : Nat
  /-- The files with a row in the internal zone. -/
  pulled : List Nat
  /-- What ClamAV has replied, by file. -/
  scans : List (Nat × Reply)

def World.start : World := ⟨fun _ => none, fun _ => none, 0, [], []⟩

inductive Action where
  | upload (file : Nat)
  | move (j : Nat) (a : JobAct)

/-- `api_upload`, up to its commit. -/
def World.uploaded (w : World) (file : Nat) : World :=
  { w with
    status := Function.update w.status file (some .pending)
    jobs := Function.update w.jobs w.next (some ⟨file, .avScan, 0, .uploaded, none, false⟩)
    next := w.next + 1 }

/-- What a move of message `j` writes. -/
def World.apply (w : World) (j file : Nat) (o : Outcome) : World where
  status :=
    match o.status with
    | some s => Function.update w.status file (some s)
    | none => w.status
  jobs :=
    match o.post with
    | some m => Function.update (Function.update w.jobs j o.job) w.next (some m)
    | none => Function.update w.jobs j o.job
  next := if o.post.isSome then w.next + 1 else w.next
  pulled := if o.pulled then file :: w.pulled else w.pulled
  scans :=
    match o.reply with
    | some reply => (file, reply) :: w.scans
    | none => w.scans

def World.step (maxRetries : Int) (w : World) : Action → Option World
  | .upload file => if w.status file = none then some (w.uploaded file) else none
  | .move j a =>
      match w.jobs j with
      | none => none
      | some job =>
          match w.status job.file with
          | none => none
          | some status =>
              (job.step maxRetries (w.pulled.contains job.file) status a).map (w.apply j job.file)

/-! ## What a step does -/

/-- A step, taken apart. -/
inductive Effect (maxRetries : Int) (w : World) : Action → World → Prop where
  | uploaded (file : Nat) (hnew : w.status file = none) :
      Effect maxRetries w (.upload file) (w.uploaded file)
  | moved (j : Nat) (a : JobAct) (job : Job) (status : UploadStatus) (o : Outcome)
      (hj : w.jobs j = some job) (hstatus : w.status job.file = some status)
      (hstep : Stepped maxRetries (w.pulled.contains job.file) status job a o) :
      Effect maxRetries w (.move j a) (w.apply j job.file o)

theorem effect_of_step {maxRetries : Int} {w w' : World} {a : Action}
    (hs : World.step maxRetries w a = some w') : Effect maxRetries w a w' := by
  cases a with
  | upload file =>
      simp only [World.step] at hs
      split at hs
      · rename_i hnew
        cases hs
        exact .uploaded file hnew
      · cases hs
  | move j a =>
      simp only [World.step] at hs
      split at hs
      · cases hs
      · rename_i job hj
        split at hs
        · cases hs
        · rename_i status hstatus
          obtain ⟨o, ho, rfl⟩ := Option.map_eq_some_iff.mp hs
          exact .moved j a job status o hj hstatus (stepped_of_step ho)

section Apply

variable {w : World} {j file : Nat} {o : Outcome}

/-- A message after a move is the one that moved, the one it was handed over to, or another. -/
theorem jobs_apply {k : Nat} {m : Job} (hm : (w.apply j file o).jobs k = some m) :
    k = j ∧ o.job = some m ∨ k = w.next ∧ o.post = some m ∨ k ≠ j ∧ w.jobs k = some m := by
  have hother : ∀ {k}, Function.update w.jobs j o.job k = some m →
      k = j ∧ o.job = some m ∨ k ≠ j ∧ w.jobs k = some m := by
    intro k hk
    by_cases hkj : k = j
    · rw [hkj, Function.update_self] at hk
      exact .inl ⟨hkj, hk⟩
    · rw [Function.update_of_ne hkj] at hk
      exact .inr ⟨hkj, hk⟩
  cases hpost : o.post with
  | none =>
      simp only [World.apply, hpost] at hm
      rcases hother hm with h | h
      · exact .inl h
      · exact .inr (.inr h)
  | some m' =>
      simp only [World.apply, hpost] at hm
      by_cases hk : k = w.next
      · rw [hk, Function.update_self] at hm
        exact .inr (.inl ⟨hk, hm⟩)
      · rw [Function.update_of_ne hk] at hm
        rcases hother hm with h | h
        · exact .inl h
        · exact .inr (.inr h)

/-- Where the message that moved stands. -/
theorem jobs_apply_self (hj : j ≠ w.next) : (w.apply j file o).jobs j = o.job := by
  cases hpost : o.post with
  | none => simp only [World.apply, hpost, Function.update_self]
  | some m => simp only [World.apply, hpost, Function.update_of_ne hj, Function.update_self]

theorem jobs_apply_self_of_none (hpost : o.post = none) : (w.apply j file o).jobs j = o.job := by
  simp only [World.apply, hpost, Function.update_self]

theorem jobs_apply_post {m : Job} (hpost : o.post = some m) :
    (w.apply j file o).jobs w.next = some m := by
  simp only [World.apply, hpost, Function.update_self]

theorem le_next_apply : w.next ≤ (w.apply j file o).next := by
  simp only [World.apply]
  split
  · exact Nat.le_succ _
  · exact Nat.le_refl _

theorem next_apply_of_post {m : Job} (hpost : o.post = some m) :
    (w.apply j file o).next = w.next + 1 := by
  simp only [World.apply, hpost, Option.isSome_some, if_true]

theorem jobs_apply_of_ne {k : Nat} (hj : k ≠ j) (hnext : k ≠ w.next) :
    (w.apply j file o).jobs k = w.jobs k := by
  cases hpost : o.post with
  | none => simp only [World.apply, hpost, Function.update_of_ne hj]
  | some m => simp only [World.apply, hpost, Function.update_of_ne hj, Function.update_of_ne hnext]

theorem status_apply_some {s : UploadStatus} (hs : o.status = some s) :
    (w.apply j file o).status file = some s := by
  simp only [World.apply, hs, Function.update_self]

theorem status_apply_none (hs : o.status = none) : (w.apply j file o).status = w.status := by
  simp only [World.apply, hs]

theorem status_apply_of_ne {f : Nat} (hf : f ≠ file) :
    (w.apply j file o).status f = w.status f := by
  cases hs : o.status with
  | none => rw [status_apply_none hs]
  | some s => simp only [World.apply, hs, Function.update_of_ne hf]

/-- The status of the file after a move. -/
theorem status_apply {s : UploadStatus} (hs : w.status file = some s) :
    (w.apply j file o).status file = some (o.status.getD s) := by
  cases ho : o.status with
  | none =>
      rw [status_apply_none ho]
      exact hs
  | some s' => exact status_apply_some ho

theorem mem_scans_apply {e : Nat × Reply} (he : e ∈ w.scans) : e ∈ (w.apply j file o).scans := by
  cases hr : o.reply with
  | none =>
      simp only [World.apply, hr]
      exact he
  | some reply =>
      simp only [World.apply, hr]
      exact List.mem_cons_of_mem _ he

end Apply

/-- A move is about one file. -/
theorem files_of_stepped {maxRetries : Int} {isPulled : Bool} {status : UploadStatus} {job : Job}
    {a : JobAct} {o : Outcome} (hstep : Stepped maxRetries isPulled status job a o) :
    (∀ m, o.job = some m → m.file = job.file) ∧ ∀ m, o.post = some m → m.file = job.file := by
  cases hstep with
  | answered raw delivered _ =>
      constructor <;> intro m hm <;> cases hm
      rfl
  | lost _ =>
      constructor <;> intro m hm <;> cases hm
      rfl
  | moved _ _ _ hmove =>
      cases hmove <;> refine ⟨fun m hm => ?_, fun m hm => ?_⟩ <;> cases hm <;> rfl

/-! ## Sound states -/

/-- Every message has been handed out, and is about a row. -/
structure World.Sound (w : World) : Prop where
  handedOut : ∀ {j job}, w.jobs j = some job → j < w.next
  rowed : ∀ {j job}, w.jobs j = some job → w.status job.file ≠ none

theorem sound_start : World.Sound .start := by
  constructor
  · intro j job hj
    cases hj
  · intro j job hj
    cases hj

theorem World.Sound.next_free {w : World} (h : w.Sound) : w.jobs w.next = none := by
  cases hj : w.jobs w.next with
  | none => rfl
  | some job => exact absurd (h.handedOut hj) (Nat.lt_irrefl _)

/-- A row that is there stays. -/
theorem status_apply_ne_none {w : World} {j file f : Nat} {o : Outcome}
    (hf : w.status f ≠ none) : (w.apply j file o).status f ≠ none := by
  by_cases hfile : f = file
  · cases hs : o.status with
    | none =>
        rw [status_apply_none hs]
        exact hf
    | some s =>
        rw [hfile, status_apply_some hs]
        exact fun h => by cases h
  · rw [status_apply_of_ne hfile]
    exact hf

theorem sound_of_step {maxRetries : Int} {w w' : World} {a : Action} (h : w.Sound)
    (hs : World.step maxRetries w a = some w') : w'.Sound := by
  cases effect_of_step hs with
  | uploaded file hnew =>
      constructor
      · intro j job hj
        by_cases hnext : j = w.next
        · rw [hnext]
          exact Nat.lt_succ_self _
        · simp only [World.uploaded, Function.update_of_ne hnext] at hj
          exact Nat.lt_succ_of_lt (h.handedOut hj)
      · intro j job hj
        by_cases hfile : job.file = file
        · simp only [World.uploaded, hfile, Function.update_self]
          exact fun hnone => by cases hnone
        · simp only [World.uploaded, Function.update_of_ne hfile]
          by_cases hnext : j = w.next
          · simp only [World.uploaded, hnext, Function.update_self] at hj
            cases hj
            exact absurd rfl hfile
          · simp only [World.uploaded, Function.update_of_ne hnext] at hj
            exact h.rowed hj
  | moved j a job status o hj hstatus hstep =>
      obtain ⟨hjob, hpost⟩ := files_of_stepped hstep
      have hrow : w.status job.file ≠ none := h.rowed hj
      constructor
      · intro k m hm
        rcases jobs_apply hm with ⟨rfl, -⟩ | ⟨rfl, hgiven⟩ | ⟨-, hm⟩
        · exact Nat.lt_of_lt_of_le (h.handedOut hj) le_next_apply
        · rw [next_apply_of_post hgiven]
          exact Nat.lt_succ_self _
        · exact Nat.lt_of_lt_of_le (h.handedOut hm) le_next_apply
      · intro k m hm
        refine status_apply_ne_none ?_
        rcases jobs_apply hm with ⟨-, hm⟩ | ⟨-, hm⟩ | ⟨-, hm⟩
        · rw [hjob m hm]
          exact hrow
        · rw [hpost m hm]
          exact hrow
        · exact h.rowed hm

end MesReunions.Pipeline
