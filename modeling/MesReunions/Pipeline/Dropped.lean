import MesReunions.Pipeline.Course

/-!
# Files nobody works on

A message can be gone for good: the hand-over after the upload fails, or a callback fails as often
as it may. The status of its file is then what the callbacks have left.

* `settling` — the contract: what the message that counts has left, or the pull has recorded.
* `Job.Allowed` — the failures after which the status is one that may stay.
* **`not_in_progress`** — with these only, a file that no message is about is not in progress.
* **`left_in_progress`** — a hand-over that fails, and a download that fails six times.
-/

namespace MesReunions.Pipeline

open TSys

/-! ## What a message has left -/

/-- The status a message of the external zone has left. -/
structure Job.Left (maxRetries : Int) (job : Job) (status : UploadStatus) : Prop where
  moverSettled : job.queue = .fileReady → status.inProgress = false
  pointSettled : job.point = .publishing ∨ job.point = .done → status.inProgress = false
  lastSettled : job.point = .failed → maxRetries ≤ job.retries → status.inProgress = false
  telling : ∀ raw, job.telling = some raw → raw = status.value

/-- A post that turns no settled status into one in progress. -/
def Harmless (raw : Str) : Prop :=
  ∀ s : UploadStatus, s.inProgress = false → (notifyStatus raw s).inProgress = false

/-- A pull may have committed its row. -/
def Point.late : Point → Bool
  | .dispatching | .done | .failed => true
  | _ => false

/-- The pull has recorded `transferred`. -/
def Job.Recorded (maxRetries : Int) (job : Job) : Prop :=
  (job.point = .dispatching ∨ job.point = .done ∨
    job.point = .failed ∧ maxRetries ≤ job.retries) ∧
    job.telling ≠ some UploadStatus.transferred.value

/-- Where the status is not in progress: at a publication, in the mover, and in the dispatch of a
pull. -/
def Job.MayEnd (job : Job) : Prop :=
  job.queue = .fileReady ∨ job.queue ≠ .internalPull ∧ job.point = .publishing ∨
    job.isAt .internalPull .dispatching

instance (job : Job) : Decidable job.MayEnd := inferInstanceAs (Decidable (_ ∨ _ ∨ _))

/-- The failures after which the status is one that may stay. -/
def Job.Allowed (maxRetries : Int) (alone : Prop) (job : Job) : JobAct → Prop
  /- the message after an upload is published -/
  | .enqueue ok => ok = true
  /- no worker is gone between its publication and its acknowledgement -/
  | .lost => job.point ≠ .published ∧ job.point ≠ .done
  /- the internal zone's `transferred` arrives, and after the mover's last write -/
  | .notified delivered => job.queue = .internalPull →
      job.telling = some UploadStatus.transferred.value → delivered = true ∧ alone
  /- nothing fails after the mover's publication, and no last attempt elsewhere than above -/
  | a => a.fails = true → job.point ≠ .published ∧ ((job.retries : Int) < maxRetries ∨ job.MayEnd)

instance (maxRetries : Int) (job : Job) (a : JobAct) :
    Decidable (job.Allowed maxRetries False a) := by
  unfold Job.Allowed
  split <;> infer_instance

def Allowed (maxRetries : Int) (w : World) : Action → Prop
  | .upload _ => True
  | .move j a => ∀ job, w.jobs j = some job →
      job.Allowed maxRetries (Others Job.Quiet w job.file j) a

/-- The status may stay once nobody works on the file. -/
def settling (maxRetries : Int) : Contract where
  held job status := job.Left maxRetries status
  pull _ alone job status := job.Recorded maxRetries → status.inProgress = false ∧ alone ∧
    ∀ raw, job.telling = some raw → Harmless raw
  left alone status := status.inProgress = false ∧ alone
  turns _ _ := True
  allowed alone job a := job.Allowed maxRetries alone a

/-! ## Moves of a message -/

/-- Where the last attempt of a message may fail. -/
theorem Job.Allowed.of_fails {maxRetries : Int} {alone : Prop} {job : Job} {a : JobAct}
    (hallowed : job.Allowed maxRetries alone a) (hfails : a.fails = true) :
    job.point ≠ .published ∧ ((job.retries : Int) < maxRetries ∨ job.MayEnd) := by
  cases a with
  | notified _ => cases hfails
  | lost => cases hfails
  | enqueue _ => cases hfails
  | _ => exact hallowed hfails

/-- A message that waits, or is handed to a callback, with no post under way. -/
theorem left_of_waiting {maxRetries : Int} {job : Job} {status : UploadStatus}
    (hmover : job.queue = .fileReady → status.inProgress = false)
    (hpoint : job.point = .waiting ∨ job.point = .called) (htelling : job.telling = none) :
    job.Left maxRetries status where
  moverSettled := hmover
  pointSettled := by
    intro h
    rcases hpoint with hpoint | hpoint <;> rw [hpoint] at h <;> rcases h with h | h <;> cases h
  lastSettled := by
    intro h
    rcases hpoint with hpoint | hpoint <;> rw [hpoint] at h <;> cases h
  telling := by
    intro raw h
    rw [htelling] at h
    cases h

/-- A message that has just recorded a status that may stay. -/
theorem left_of_commit {maxRetries : Int} {job : Job} {status : UploadStatus}
    (hsettled : status.inProgress = false) (htelling : job.telling = some status.value) :
    job.Left maxRetries status where
  moverSettled := fun _ => hsettled
  pointSettled := fun _ => hsettled
  lastSettled := fun _ _ => hsettled
  telling := by
    intro raw h
    rw [htelling] at h
    cases h
    rfl

/-- A message that has just recorded that it is being worked on. -/
theorem left_of_working {maxRetries : Int} {job : Job} {status : UploadStatus}
    (hqueue : job.queue ≠ .fileReady) (hpoint : job.point = .working)
    (htelling : job.telling = some status.value) : job.Left maxRetries status where
  moverSettled := fun h => absurd h hqueue
  pointSettled := by
    intro h
    rw [hpoint] at h
    rcases h with h | h <;> cases h
  lastSettled := by
    intro h
    rw [hpoint] at h
    cases h
  telling := by
    intro raw h
    rw [htelling] at h
    cases h
    rfl

/-- A message that has failed, where it may. -/
theorem left_of_failed {maxRetries : Int} {alone : Prop} {job : Job} {status : UploadStatus}
    {a : JobAct} (hqueue : job.queue ≠ .internalPull) (hleft : job.Left maxRetries status)
    (hallowed : job.Allowed maxRetries alone a) (hfails : a.fails = true)
    (htelling : job.telling = none) :
    Job.Left maxRetries { job with point := .failed } status where
  moverSettled := hleft.moverSettled
  pointSettled := by
    rintro (h | h) <;> cases h
  lastSettled := by
    intro _ hlast
    rcases (hallowed.of_fails hfails).2 with h | h
    · exact absurd hlast (not_le.mpr h)
    · rcases h with hmover | ⟨-, hpoint⟩ | hpull
      · exact hleft.moverSettled hmover
      · exact hleft.pointSettled (.inl hpoint)
      · exact absurd hpull.1 hqueue
  telling := by
    intro raw h
    rw [htelling] at h
    cases h

/-- A pull that has not come to the end of its copies. -/
theorem not_recorded {maxRetries : Int} {job : Job} (hpoint : job.point.late = false) :
    ¬ job.Recorded maxRetries := by
  rintro ⟨h | h | ⟨h, -⟩, -⟩ <;> rw [h] at hpoint <;> cases hpoint

/-- A pull that has still to record `transferred`. -/
theorem not_recorded_of_telling {maxRetries : Int} {job : Job}
    (htelling : job.telling = some UploadStatus.transferred.value) :
    ¬ job.Recorded maxRetries := fun h => h.2 htelling

/-- **The message that counts, in the external zone.** -/
theorem held_moves {maxRetries : Int} {isPulled : Bool} {alone : Prop} {status : UploadStatus}
    {job : Job} {a : JobAct} {o : Outcome} (hqueue : job.queue ≠ .internalPull)
    (hhand : job.InHand) (hleft : job.Left maxRetries status)
    (hallowed : job.Allowed maxRetries alone a)
    (hstep : Stepped maxRetries isPulled status job a o) : HeldMove (settling maxRetries) isPulled status o := by
  cases hstep with
  | answered raw delivered htelling =>
      have hsame : (if delivered then some (notifyStatus raw status) else none).getD status =
          status := by
        cases delivered with
        | false => rfl
        | true =>
            rw [hleft.telling raw htelling]
            exact notifyStatus_value status status
      refine .stays _ rfl rfl hqueue hhand ?_
      rw [hsame]
      exact ⟨hleft.moverSettled, hleft.pointSettled, hleft.lastSettled, fun _ h => by cases h⟩
  | lost hpoint =>
      exact .stays _ rfl rfl hqueue (inHand_of_point rfl)
        (left_of_waiting hleft.moverSettled (.inl rfl) rfl)
  | moved a o htelling hmove =>
      cases hmove with
      | enqueued h =>
          exact .stays _ rfl rfl hqueue (inHand_of_point rfl)
            (left_of_waiting hleft.moverSettled (.inl rfl) htelling)
      | unpublished h => cases hallowed
      | delivered h =>
          exact .stays _ rfl rfl hqueue (inHand_of_point rfl)
            (left_of_waiting hleft.moverSettled (.inr rfl) htelling)
      | scanning h =>
          refine .stays _ rfl rfl hqueue (inHand_of_point rfl)
            (left_of_working ?_ rfl rfl)
          exact fun hq => by cases h.1.symm.trans hq
      | transcoding h =>
          refine .stays _ rfl rfl hqueue (inHand_of_point rfl)
            (left_of_working ?_ rfl rfl)
          exact fun hq => by cases h.1.symm.trans hq
      | ready h =>
          exact .stays _ rfl rfl hqueue (inHand_of_point rfl)
            (left_of_commit rfl rfl)
      | unreadable reply hverdict h =>
          exact .stays _ rfl rfl hqueue (inHand_of_point rfl)
            (left_of_commit rfl rfl)
      | clean reply hverdict h =>
          exact .stays _ rfl rfl hqueue (inHand_of_point rfl)
            (left_of_commit rfl rfl)
      | infected reply hverdict h =>
          refine .stays _ rfl rfl hqueue (fun hq => ?_) (left_of_commit rfl rfl)
          cases h.1.symm.trans hq
      | normalized h =>
          exact .stays _ rfl rfl hqueue (inHand_of_point rfl)
            (left_of_commit rfl rfl)
      | unusable h =>
          refine .stays _ rfl rfl hqueue (fun hq => ?_) (left_of_commit rfl rfl)
          cases h.1.symm.trans hq
      | toTranscode auto h =>
          refine .handedOver _ _ rfl ⟨rfl, htelling⟩ rfl (fun hq => by cases hq)
            (fun hq => by cases hq) (left_of_waiting (fun hq => by cases hq) (.inl rfl) rfl)
      | toFileReady auto h =>
          -- the normalizer has recorded `transcoded`
          exact .handedOver _ _ rfl ⟨rfl, htelling⟩ rfl (fun hq => by cases hq)
            (inHand_of_point rfl)
            (left_of_waiting (fun _ => hleft.pointSettled (.inl h.2)) (.inl rfl) rfl)
      | toInternalPull auto h =>
          exact .toPull _ _ rfl (.inr ⟨h.1, .inl ⟨rfl, htelling⟩⟩) rfl rfl
            fun _ hrecorded => absurd hrecorded (not_recorded rfl)
      | transferring h => exact absurd h.2 (hhand h.1).1
      | replayed hpulled h => exact absurd h.1 hqueue
      | copying hpulled h => exact absurd h.1 hqueue
      | copied h => exact absurd h.1 hqueue
      | stored h => exact absurd h.1 hqueue
      | inserted point hpoint h => exact absurd h.1 hqueue
      | progressed outcome raw hraw h => exact absurd h.1 hqueue
      | refused h => exact absurd h.1 hqueue
      | completed outcome raw hraw h => exact absurd h.1 hqueue
      | silent h => exact absurd h.1 hqueue
      | unrecorded reply h =>
          exact .stays _ rfl rfl hqueue (inHand_of_point rfl)
            (left_of_failed hqueue hleft hallowed rfl htelling)
      | failed a hfails hbusy =>
          exact .stays _ rfl rfl hqueue (inHand_of_point rfl)
            (left_of_failed hqueue hleft hallowed hfails htelling)
      | acked h => exact .gone rfl rfl ⟨hleft.pointSettled (.inr h), trivial⟩
      | dropped ok hlast h => exact .gone rfl rfl ⟨hleft.lastSettled h hlast, trivial⟩
      | republished hlast h =>
          exact .stays _ rfl rfl hqueue (inHand_of_point rfl)
            (left_of_waiting hleft.moverSettled (.inl rfl) htelling)
      | requeued hlast h =>
          exact .stays _ rfl rfl hqueue (inHand_of_point rfl)
            (left_of_waiting hleft.moverSettled (.inl rfl) htelling)

/-- What a dispatch tells is no status of the enumeration. -/
theorem harmless_dispatch {raw : Str} (hraw : raw ∈ ["kevent_queued".toList,
    "kevent_processing".toList, "kevent_failed".toList, "kevent_partially_completed".toList,
    "kevent_completed".toList]) : Harmless raw := by
  have hall : ∀ raw ∈ ["kevent_queued".toList, "kevent_processing".toList, "kevent_failed".toList,
      "kevent_partially_completed".toList, "kevent_completed".toList],
      UploadStatus.ofValue raw = none := by decide
  intro s hs
  rw [notifyStatus, hall raw hraw]
  show (if failurePrefixes.contains raw then UploadStatus.error else s).inProgress = false
  split
  · rfl
  · exact hs

/-- **The message that counts, in the internal zone.** -/
theorem pull_moves {maxRetries : Int} {isPulled : Bool} {alone : Prop} {status : UploadStatus}
    {job : Job} {a : JobAct} {o : Outcome} (hqueue : job.queue = .internalPull)
    (hrecorded : job.Recorded maxRetries → status.inProgress = false ∧ alone ∧
      ∀ raw, job.telling = some raw → Harmless raw)
    (hallowed : job.Allowed maxRetries alone a)
    (hstep : Stepped maxRetries isPulled status job a o) :
    PullMove (settling maxRetries) isPulled alone status o := by
  have hdispatching : job.telling = none → job.point = .dispatching →
      status.inProgress = false ∧ alone := by
    intro htelling hpoint
    have hrec : job.Recorded maxRetries :=
      ⟨.inl hpoint, by rw [htelling]; exact fun h => by cases h⟩
    exact ⟨(hrecorded hrec).1, (hrecorded hrec).2.1⟩
  cases hstep with
  | answered raw delivered htelling =>
      refine .stays _ rfl rfl hqueue fun hafter => ?_
      by_cases hraw : raw = UploadStatus.transferred.value
      · -- the guard: it arrives, and the mover is through
        subst hraw
        obtain ⟨hdelivered, halone⟩ := hallowed hqueue htelling
        subst hdelivered
        refine ⟨?_, halone, fun _ h => by cases h⟩
        show (notifyStatus UploadStatus.transferred.value status).inProgress = false
        rw [notifyStatus_value]
        rfl
      · have hbefore : job.Recorded maxRetries := by
          refine ⟨hafter.1, fun h => hraw ?_⟩
          rw [htelling] at h
          exact Option.some.inj h
        obtain ⟨hsettled, halone, hharmless⟩ := hrecorded hbefore
        refine ⟨?_, halone, fun _ h => by cases h⟩
        cases delivered with
        | false => exact hsettled
        | true => exact hharmless raw htelling status hsettled
  | lost hpoint => exact .stays _ rfl rfl hqueue fun hafter => absurd hafter (not_recorded rfl)
  | moved a o htelling hmove =>
      cases hmove with
      | delivered h =>
          exact .stays _ rfl rfl hqueue fun hafter => absurd hafter (not_recorded rfl)
      | replayed hpulled h =>
          exact .stays _ rfl rfl hqueue fun hafter => absurd hafter (not_recorded_of_telling rfl)
      | copying hpulled h =>
          exact .stays _ rfl rfl hqueue fun hafter => absurd hafter (not_recorded rfl)
      | copied h =>
          exact .stays _ rfl rfl hqueue fun hafter => absurd hafter (not_recorded rfl)
      | stored h =>
          exact .stays _ rfl rfl hqueue fun hafter => absurd hafter (not_recorded rfl)
      | inserted point hpoint h =>
          exact .stays _ rfl rfl hqueue fun hafter => absurd hafter (not_recorded_of_telling rfl)
      | progressed outcome raw hraw h =>
          obtain ⟨hsettled, halone⟩ := hdispatching htelling h.2
          refine .stays _ rfl rfl hqueue fun _ => ⟨hsettled, halone, fun raw' hraw' => ?_⟩
          cases hraw'
          exact harmless_dispatch (by rcases hraw with rfl | rfl <;> decide)
      | refused h =>
          obtain ⟨hsettled, halone⟩ := hdispatching htelling h.2
          refine .stays _ rfl rfl hqueue fun _ => ⟨hsettled, halone, fun raw' hraw' => ?_⟩
          cases hraw'
          exact harmless_dispatch (by decide)
      | completed outcome raw hraw h =>
          obtain ⟨hsettled, halone⟩ := hdispatching htelling h.2
          refine .stays _ rfl rfl hqueue fun _ => ⟨hsettled, halone, fun raw' hraw' => ?_⟩
          cases hraw'
          exact harmless_dispatch (by rcases hraw with rfl | rfl <;> decide)
      | silent h =>
          obtain ⟨hsettled, halone⟩ := hdispatching htelling h.2
          refine .stays _ rfl rfl hqueue fun _ => ⟨hsettled, halone, fun raw' hraw' => ?_⟩
          cases htelling.symm.trans hraw'
      | failed a hfails hbusy =>
          refine .stays _ rfl rfl hqueue fun hafter => ?_
          have hlast : maxRetries ≤ job.retries := by
            rcases hafter.1 with h | h | ⟨-, h⟩
            · cases h
            · cases h
            · exact h
          have hpoint : job.point = .dispatching := by
            rcases (hallowed.of_fails hfails).2 with h | h
            · exact absurd hlast (not_le.mpr h)
            · rcases h with hmover | ⟨hother, -⟩ | hpull
              · cases hqueue.symm.trans hmover
              · exact absurd hqueue hother
              · exact hpull.2
          obtain ⟨hsettled, halone⟩ := hdispatching htelling hpoint
          refine ⟨hsettled, halone, fun raw' hraw' => ?_⟩
          cases htelling.symm.trans hraw'
      | acked h =>
          have hrec : job.Recorded maxRetries :=
            ⟨.inr (.inl h), by rw [htelling]; exact fun h => by cases h⟩
          exact .gone rfl rfl ⟨(hrecorded hrec).1, (hrecorded hrec).2.1⟩
      | dropped ok hlast h =>
          have hrec : job.Recorded maxRetries :=
            ⟨.inr (.inr ⟨h, hlast⟩), by rw [htelling]; exact fun h => by cases h⟩
          exact .gone rfl rfl ⟨(hrecorded hrec).1, (hrecorded hrec).2.1⟩
      | republished hlast h =>
          exact .stays _ rfl rfl hqueue fun hafter => absurd hafter (not_recorded rfl)
      | requeued hlast h =>
          exact .stays _ rfl rfl hqueue fun hafter => absurd hafter (not_recorded rfl)
      | _ =>
          rename_i h
          exact absurd (hqueue.symm.trans h.1) (by decide)

theorem Job.Allowed.steady {maxRetries : Int} {alone : Prop} {job : Job} {a : JobAct}
    (hallowed : job.Allowed maxRetries alone a) : job.Steady a where
  notLost := by
    rintro rfl
    exact hallowed
  notFailed := fun hfails => (hallowed.of_fails hfails).1

/-- **The allowed moves keep it.** -/
theorem settling_keeps (maxRetries : Int) : Keeps (settling maxRetries) maxRetries where
  refl := fun _ => trivial
  steady := fun hallowed => hallowed.steady
  mono := by
    intro isPulled alone alone' job s halone hpull hrecorded
    obtain ⟨hsettled, hthrough, hharmless⟩ := hpull hrecorded
    exact ⟨hsettled, halone hthrough, hharmless⟩
  monoLeft := fun halone hleft => ⟨hleft.1, halone hleft.2⟩
  held := fun hqueue hhand hleft hallowed hstep =>
    ⟨held_moves hqueue hhand hleft hallowed hstep, trivial⟩
  pull := fun hqueue hrecorded hallowed hstep =>
    ⟨pull_moves hqueue hrecorded hallowed hstep, trivial⟩
  trailing := by
    intro alone isPulled status job halone hpull
    exact ⟨fun hrecorded => absurd (hpull hrecorded).2.1 halone, trivial⟩
  trailingLeft := fun halone hleft => absurd hleft.2 halone

/-! ## Runs -/

/-- Every row stands somewhere. -/
structure Settling (maxRetries : Int) (w : World) : Prop where
  sound : w.Sound
  stand : ∀ f s, w.status f = some s → Stand (settling maxRetries) w f s

/-- The message of an upload is the one that counts. -/
theorem stand_of_new {maxRetries : Int} {w : World} {f : Nat} (hsound : w.Sound)
    (hnew : w.status f = none) : Stand (settling maxRetries) (w.uploaded f) f .pending := by
  refine .held w.next _ (Function.update_self ..) rfl (fun hq => by cases hq)
    (fun hq => by cases hq) (fun k m hm hfile hk => ?_) ?_
  · simp only [World.uploaded, Function.update_of_ne hk] at hm
    exact absurd (hfile ▸ hnew) (hsound.rowed hm)
  · refine ⟨fun hq => (by cases hq), ?_, ?_, fun raw hraw => (by cases hraw)⟩
    · rintro (hpoint | hpoint) <;> cases hpoint
    · intro hpoint
      cases hpoint

/-- **The step lemma.** -/
theorem settling_of_step {maxRetries : Int} {w w' : World} {a : Action}
    (h : Settling maxRetries w) (hguard : Allowed maxRetries w a)
    (hs : World.step maxRetries w a = some w') : Settling maxRetries w' := by
  refine ⟨sound_of_step h.sound hs, fun f s' hs' => ?_⟩
  cases hstatus : w.status f with
  | some s =>
      have hkept : Kept (settling maxRetries) f w := ⟨h.sound, s, hstatus, h.stand f s hstatus⟩
      have hguard' : (settling maxRetries).Guard f w a := by
        cases a with
        | upload file => exact trivial
        | move j a => exact fun job hj _ => hguard job hj
      obtain ⟨s'', hs'', hstand⟩ :=
        (kept_of_step (settling_keeps maxRetries) hkept hguard' hs).1.stand
      cases hs''.symm.trans hs'
      exact hstand
  | none =>
      cases effect_of_step hs with
      | uploaded file hnew =>
          by_cases hf : f = file
          · subst hf
            simp only [World.uploaded, Function.update_self] at hs'
            cases hs'
            exact stand_of_new h.sound hnew
          · simp only [World.uploaded, Function.update_of_ne hf] at hs'
            cases hstatus.symm.trans hs'
      | moved j a job status o hj hstatus' hstep =>
          have hf : f ≠ job.file := by
            rintro rfl
            cases hstatus.symm.trans hstatus'
          rw [status_apply_of_ne hf] at hs'
          cases hstatus.symm.trans hs'

/-! ## The result -/

/-- **Nothing is left in progress.** In a run with the allowed failures only, a file that no
message is about, in a queue or with a worker, is not shown as in progress. -/
theorem not_in_progress (maxRetries : Int) (as : List Action) (w : World)
    (hguard : Guarded (World.step maxRetries) (Allowed maxRetries) .start as)
    (hrun : run (World.step maxRetries) .start as = some w) (f : Nat) (s : UploadStatus)
    (hs : w.status f = some s) (hnone : ∀ j job, w.jobs j = some job → job.file ≠ f) :
    s.inProgress = false := by
  have hstep : ∀ w a w', Settling maxRetries w → Allowed maxRetries w a →
      World.step maxRetries w a = some w' → Settling maxRetries w' :=
    fun _ _ _ h hallowed hs => settling_of_step h hallowed hs
  have hstart : Settling maxRetries .start := ⟨sound_start, fun f s hs => by cases hs⟩
  have hsettling := inv_of_guarded _ _ hstep hstart hguard hrun
  cases hsettling.stand f s hs with
  | held j job hj hfile _ _ _ _ => exact absurd hfile (hnone j job hj)
  | pulling j job hj hfile _ _ _ => exact absurd hfile (hnone j job hj)
  | finished _ hleft => exact hleft.1

/-- `{"stream": ("FOUND", None)}` -/
def foundReply : Reply := .dict [("stream".toList, ⟨.str "FOUND".toList, .other⟩)]

/-- An upload that the antivirus keeps, at the second attempt. -/
def keptUpload : List Action :=
  [.upload 0, .move 0 (.enqueue true), .move 0 .deliver, .move 0 (.begin true),
   .move 0 (.notified false), .move 0 (.scan .notDownloaded), .move 0 (.retry true),
   .move 0 .deliver, .move 0 (.begin true), .move 0 (.notified true),
   .move 0 (.scan (.replied foundReply true)), .move 0 (.notified false), .move 0 .ack]

/-- What a run leaves of file 0 and message 0. -/
def outcomeOf (as : List Action) : Option (Option UploadStatus × Option Job × Nat) :=
  (run (World.step 5) .start as).map fun w => (w.status 0, w.jobs 0, w.next)

theorem sound_of_run {maxRetries : Int} {as : List Action} {w : World}
    (hrun : run (World.step maxRetries) .start as = some w) : w.Sound := by
  have hstep : ∀ w a w', w.Sound → True → World.step maxRetries w a = some w' → w'.Sound :=
    fun _ _ _ h _ hs => sound_of_step h hs
  exact inv_of_guarded _ _ hstep sound_start (guarded_of_forall _ fun _ _ => trivial) hrun

/-- A run after which its one message is gone. -/
theorem gone_of_outcome (as : List Action) (status : UploadStatus)
    (h : outcomeOf as = some (some status, none, 1)) :
    ∃ w, run (World.step 5) .start as = some w ∧ w.status 0 = some status ∧
      ∀ j job, w.jobs j = some job → job.file ≠ 0 := by
  obtain ⟨w, hrun, hw⟩ := Option.map_eq_some_iff.mp h
  simp only [Prod.mk.injEq] at hw
  obtain ⟨hstatus, hgone, hnext⟩ := hw
  refine ⟨w, hrun, hstatus, fun j job hj => ?_⟩
  have hlt : j < 1 := hnext ▸ (sound_of_run hrun).handedOut hj
  obtain rfl : j = 0 := by omega
  cases hgone.symm.trans hj

/-- The moves that are allowed whatever the other messages are. -/
def allowedAnyway (w : World) : Action → Bool
  | .upload _ => true
  | .move j a => (w.jobs j).all fun job => decide (job.Allowed 5 False a)

theorem allowed_of_anyway {w : World} {a : Action} (h : allowedAnyway w a = true) :
    Allowed 5 w a := by
  cases a with
  | upload f => exact trivial
  | move j a =>
      intro job hj
      simp only [allowedAnyway, hj, Option.all_some, decide_eq_true_eq] at h
      cases a with
      | notified delivered => exact fun hqueue htelling => absurd (h hqueue htelling).2 id
      | _ => exact h

theorem not_in_progress_kept : ∃ w, run (World.step 5) .start keptUpload = some w ∧
    w.status 0 = some .quarantined ∧ UploadStatus.quarantined.inProgress = false := by
  obtain ⟨w, hrun, hstatus, hnone⟩ :=
    gone_of_outcome keptUpload .quarantined (by decide +kernel)
  have hguard : Guarded (World.step 5) (fun w a => allowedAnyway w a = true) .start keptUpload := by
    decide +kernel
  refine ⟨w, hrun, hstatus, ?_⟩
  exact not_in_progress 5 keptUpload w (guarded_mono _ (fun _ _ => allowed_of_anyway) hguard) hrun
    0 _ hstatus hnone

/-- An upload whose publication fails: `api_upload` logs it and answers `pending`. -/
def unpublishedUpload : List Action := [.upload 0, .move 0 (.enqueue false)]

/-- An upload that cannot be downloaded at any of its six attempts. -/
def undownloadedUpload : List Action :=
  [.upload 0, .move 0 (.enqueue true)] ++ (List.replicate 6
    [.move 0 .deliver, .move 0 (.begin true), .move 0 (.notified true),
     .move 0 (.scan .notDownloaded), .move 0 (.retry true)]).flatten

/-- **Two files left in progress.** No message is about them any more. -/
theorem left_in_progress :
    (∃ w, run (World.step 5) .start unpublishedUpload = some w ∧ w.status 0 = some .pending ∧
      (∀ j job, w.jobs j = some job → job.file ≠ 0) ∧ UploadStatus.pending.inProgress = true) ∧
    ∃ w, run (World.step 5) .start undownloadedUpload = some w ∧ w.status 0 = some .scanning ∧
      (∀ j job, w.jobs j = some job → job.file ≠ 0) ∧ UploadStatus.scanning.inProgress = true := by
  constructor
  · obtain ⟨w, hrun, hstatus, hnone⟩ :=
      gone_of_outcome unpublishedUpload .pending (by decide +kernel)
    exact ⟨w, hrun, hstatus, hnone, rfl⟩
  · obtain ⟨w, hrun, hstatus, hnone⟩ :=
      gone_of_outcome undownloadedUpload .scanning (by decide +kernel)
    exact ⟨w, hrun, hstatus, hnone, rfl⟩

end MesReunions.Pipeline
