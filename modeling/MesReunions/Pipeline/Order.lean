import MesReunions.Pipeline.Course

/-!
# Statuses that go backwards

The mover commits `transferring` after its publication, and tells the portal again, while the
internal zone may have pulled the file: both write the one column.

* `UploadStatus.stage` — how far a status is.
* `ordering` — the contract: up to where the status can have come.
* `Job.Ordered` — the internal zone tells the end of a transfer when the mover is through.
* **`never_backwards`** — then no write of the run takes the status back.
* **`written_backwards`** — a pull that ends before the mover does, and a replay after a failure.
-/

namespace MesReunions.Pipeline

open TSys

/-! ## Stages -/

/-- How far a file with the status has come; a failure is the last stage. -/
def UploadStatus.stage : UploadStatus → Nat
  | .pending => 0
  | .scanning => 1
  | .scanClean => 2
  | .transcoding => 3
  | .transcoded => 4
  | .readyForTransfer => 5
  | .transferring => 6
  | .transferred => 7
  | .scanInfected | .transcodeFailed | .quarantined | .error => 8

/-- The status of the file is not replaced by one of an earlier stage. -/
def Forward (f : Nat) (w : World) (_ : Action) (w' : World) : Prop :=
  ∀ s s', w.status f = some s → w'.status f = some s' → s.stage ≤ s'.stage

/-- The pull tells the end of the transfer. -/
def Job.TellsEnd (job : Job) : Prop :=
  job.telling = some UploadStatus.transferred.value ∨
    job.telling = some "kevent_failed".toList

/-- What keeps the writes in order. -/
def Job.Ordered (alone : Prop) (job : Job) : JobAct → Prop
  /- the mover records what it has published -/
  | .started ok => ok = true
  /- no worker is gone between its publication, or a failure it told, and its acknowledgement -/
  | .lost => job.point ≠ .published ∧ job.point ≠ .done
  /- the end of the transfer is told after the mover's last write -/
  | .notified delivered => job.queue = .internalPull → job.TellsEnd → delivered = true → alone
  | a => a.fails = true → job.point ≠ .published

/-! ## The contract -/

/-- The copies of a pull. -/
def Point.copies : Point → Bool
  | .copying | .storing | .inserting => true
  | _ => false

/-- Up to where a pull, and the mover before it, can have brought the status. -/
structure Job.Reached (isPulled : Bool) (alone : Prop) (job : Job) (status : UploadStatus) :
    Prop where
  notFailed : status.stage ≤ 7
  fresh : isPulled = false → status.stage ≤ 6
  copies : job.point.copies = true → isPulled = false
  ended : status.stage = 7 → alone
  telling : ∀ raw, job.telling = some raw →
    raw = UploadStatus.transferring.value ∧ isPulled = false ∨
      raw = UploadStatus.transferred.value ∧ isPulled = true ∨
        raw = "kevent_failed".toList ∧ job.point = .done ∨ ∀ s, notifyStatus raw s = s

/-- No write takes the status back. -/
def ordering : Contract where
  held job status := job.queue = .fileReady ∧ status.stage ≤ 5 ∧
    ∀ raw, job.telling = some raw → raw = UploadStatus.readyForTransfer.value
  pull isPulled alone job status := job.Quiet ∧ alone ∨ job.Reached isPulled alone status
  left alone status := status.stage ≤ 6 ∨ alone
  turns s s' := s.stage ≤ s'.stage
  allowed := Job.Ordered

theorem Job.Ordered.steady {alone : Prop} {job : Job} {a : JobAct} (hordered : job.Ordered alone a) :
    job.Steady a where
  notLost := by
    rintro rfl
    exact hordered
  notFailed := by
    intro hfails
    cases a with
    | notified _ => cases hfails
    | lost => cases hfails
    | started ok =>
        rw [show ok = true from hordered] at hfails
        cases hfails
    | _ => exact hordered hfails

/-! ## Moves of a message -/

/-- **The mover, up to its publication.** -/
theorem mover_moves {maxRetries : Int} {isPulled : Bool} {status : UploadStatus} {job : Job}
    {a : JobAct} {o : Outcome} (hhand : job.InHand) (hheld : ordering.held job status)
    (hstep : Stepped maxRetries isPulled status job a o) :
    HeldMove ordering isPulled status o ∧ status.stage ≤ (o.status.getD status).stage := by
  obtain ⟨hqueue, hstage, htells⟩ := hheld
  have hpull : job.queue ≠ .internalPull := by
    rw [hqueue]
    decide
  cases hstep with
  | answered raw delivered htelling =>
      rw [htells raw htelling, notifyStatus_value]
      cases delivered with
      | false =>
          exact ⟨.stays _ rfl rfl hpull hhand ⟨hqueue, hstage, fun _ h => by cases h⟩, Nat.le_refl _⟩
      | true =>
          exact ⟨.stays _ rfl rfl hpull hhand ⟨hqueue, Nat.le_refl 5, fun _ h => by cases h⟩, hstage⟩
  | lost hpoint =>
      exact ⟨.stays _ rfl rfl hpull (inHand_of_point rfl) ⟨hqueue, hstage, fun _ h => by cases h⟩,
        Nat.le_refl _⟩
  | moved a o htelling hmove =>
      have hnone : ∀ raw, job.telling = some raw → raw = UploadStatus.readyForTransfer.value := by
        intro raw h
        rw [htelling] at h
        cases h
      cases hmove with
      | delivered h =>
          exact ⟨.stays _ rfl rfl hpull (inHand_of_point rfl) ⟨hqueue, hstage, hnone⟩, Nat.le_refl _⟩
      | ready h =>
          refine ⟨.stays _ rfl rfl hpull (inHand_of_point rfl) ⟨hqueue, Nat.le_refl 5, ?_⟩, hstage⟩
          intro raw hraw
          cases hraw
          rfl
      | toInternalPull auto h =>
          refine ⟨.toPull _ _ rfl (.inr ⟨hqueue, .inl ⟨rfl, htelling⟩⟩) rfl rfl fun alone => .inr ?_,
            Nat.le_refl _⟩
          have hstage' : status.stage ≤ 5 := hstage
          refine ⟨?_, fun _ => ?_, fun h => (by cases h), fun h => ?_, fun raw h => (by cases h)⟩
          · show status.stage ≤ 7
            omega
          · show status.stage ≤ 6
            omega
          · have h : status.stage = 7 := h
            omega
      | transferring h => exact absurd h.2 (hhand hqueue).1
      | failed a hfails hbusy =>
          exact ⟨.stays _ rfl rfl hpull (inHand_of_point rfl) ⟨hqueue, hstage, hnone⟩, Nat.le_refl _⟩
      | acked h => exact ⟨.gone rfl rfl (.inr trivial), Nat.le_refl _⟩
      | dropped ok hlast h => exact ⟨.gone rfl rfl (.inr trivial), Nat.le_refl _⟩
      | republished hlast h =>
          exact ⟨.stays _ rfl rfl hpull (inHand_of_point rfl) ⟨hqueue, hstage, hnone⟩, Nat.le_refl _⟩
      | requeued hlast h =>
          exact ⟨.stays _ rfl rfl hpull (inHand_of_point rfl) ⟨hqueue, hstage, hnone⟩, Nat.le_refl _⟩
      | _ =>
          rename_i h
          exact absurd (hqueue.symm.trans h.1) (by decide)

/-- A post that the row does not take over. -/
theorem unchanged_dispatch {raw : Str} (hraw : raw ∈ ["kevent_queued".toList,
    "kevent_processing".toList, "kevent_partially_completed".toList,
    "kevent_completed".toList]) : ∀ s, notifyStatus raw s = s := by
  have hall : ∀ raw ∈ ["kevent_queued".toList, "kevent_processing".toList,
      "kevent_partially_completed".toList, "kevent_completed".toList],
      UploadStatus.ofValue raw = none ∧ failurePrefixes.contains raw = false := by decide
  intro s
  obtain ⟨hvalue, hinitial⟩ := hall raw hraw
  rw [notifyStatus, hvalue]
  show (if failurePrefixes.contains raw then UploadStatus.error else s) = s
  rw [hinitial]
  rfl

theorem notifyStatus_failed (s : UploadStatus) :
    notifyStatus "kevent_failed".toList s = .error := by
  cases s <;> decide

section Pull

variable {isPulled : Bool} {alone : Prop} {job m : Job} {status : UploadStatus}

/-- A move that writes nothing and tells nothing, to a point past or before the copies. -/
theorem Job.Reached.move (h : job.Reached isPulled alone status)
    (hcopies : m.point.copies = true → isPulled = false) (htelling : m.telling = none) :
    m.Reached isPulled alone status where
  notFailed := h.notFailed
  fresh := h.fresh
  copies := hcopies
  ended := h.ended
  telling := by
    intro raw hraw
    rw [htelling] at hraw
    cases hraw

/-- A move that tells something. -/
theorem Job.Reached.tell {raw : Str} (h : job.Reached isPulled alone status)
    (hcopies : m.point.copies = true → isPulled = false) (htelling : m.telling = some raw)
    (hraw : raw = UploadStatus.transferring.value ∧ isPulled = false ∨
      raw = UploadStatus.transferred.value ∧ isPulled = true ∨
        raw = "kevent_failed".toList ∧ m.point = .done ∨ ∀ s, notifyStatus raw s = s) :
    m.Reached isPulled alone status where
  notFailed := h.notFailed
  fresh := h.fresh
  copies := hcopies
  ended := h.ended
  telling := by
    intro raw' hraw'
    cases htelling.symm.trans hraw'
    exact hraw

/-- What it leaves when the pull is gone. -/
theorem Job.Reached.left (h : job.Reached isPulled alone status) :
    status.stage ≤ 6 ∨ alone := by
  have hstage := h.notFailed
  by_cases hended : status.stage = 7
  · exact .inr (h.ended hended)
  · exact .inl (by omega)

/-- An answer of the portal to a pull. -/
theorem Job.Reached.answer {raw : Str} {delivered : Bool} (h : job.Reached isPulled alone status)
    (htelling : job.telling = some raw)
    (hordered : job.TellsEnd → delivered = true → alone) :
    (({ job with telling := none } : Job).Quiet ∧ alone ∨
      ({ job with telling := none } : Job).Reached isPulled alone
        ((if delivered then some (notifyStatus raw status) else none).getD status)) ∧
      status.stage ≤
        ((if delivered then some (notifyStatus raw status) else none).getD status).stage := by
  cases delivered with
  | false => exact ⟨.inr (h.move h.copies rfl), Nat.le_refl _⟩
  | true =>
      show ((_ ∧ alone) ∨ ({ job with telling := none } : Job).Reached isPulled alone
        (notifyStatus raw status)) ∧ status.stage ≤ (notifyStatus raw status).stage
      rcases h.telling raw htelling with ⟨hraw, hpulled⟩ | ⟨hraw, hpulled⟩ | ⟨hraw, hpoint⟩ | hsame
      · rw [hraw, notifyStatus_value]
        refine ⟨.inr ⟨by decide, fun _ => Nat.le_refl 6, h.copies, fun h => (by cases h),
          fun _ h => (by cases h)⟩, h.fresh hpulled⟩
      · have halone : alone := hordered (.inl (by rw [htelling, hraw])) rfl
        rw [hraw, notifyStatus_value]
        refine ⟨.inr ⟨Nat.le_refl 7, fun hfresh => ?_, h.copies, fun _ => halone,
          fun _ h => (by cases h)⟩, h.notFailed⟩
        cases hpulled.symm.trans hfresh
      · have halone : alone := hordered (.inr (by rw [htelling, hraw])) rfl
        rw [hraw, notifyStatus_failed]
        exact ⟨.inl ⟨⟨hpoint, rfl⟩, halone⟩, Nat.le_succ_of_le h.notFailed⟩
      · rw [hsame status]
        exact ⟨.inr (h.move h.copies rfl), Nat.le_refl _⟩

end Pull

/-- **The pull.** -/
theorem pull_in_order {maxRetries : Int} {isPulled : Bool} {alone : Prop} {status : UploadStatus}
    {job : Job} {a : JobAct} {o : Outcome} (hqueue : job.queue = .internalPull)
    (hpull : ordering.pull isPulled alone job status) (hordered : job.Ordered alone a)
    (hstep : Stepped maxRetries isPulled status job a o) :
    PullMove ordering isPulled alone status o ∧
      status.stage ≤ (o.status.getD status).stage := by
  rcases hpull with ⟨hquiet, halone⟩ | h
  · have ho := quiet_moves hquiet hordered.steady hstep
    subst ho
    exact ⟨.gone rfl rfl (.inr halone), Nat.le_refl _⟩
  cases hstep with
  | answered raw delivered htelling =>
      obtain ⟨hafter, hstage⟩ := h.answer htelling fun hend => hordered hqueue hend
      exact ⟨.stays _ rfl rfl hqueue hafter, hstage⟩
  | lost hpoint =>
      exact ⟨.stays _ rfl rfl hqueue (.inr (h.move (fun h => by cases h) rfl)), Nat.le_refl _⟩
  | moved a o htelling hmove =>
      cases hmove with
      | delivered hat =>
          exact ⟨.stays _ rfl rfl hqueue (.inr (h.move (fun h => by cases h) htelling)),
            Nat.le_refl _⟩
      | replayed hpulled hat =>
          exact ⟨.stays _ rfl rfl hqueue (.inr (h.tell (fun h => by cases h) rfl
            (.inr (.inl ⟨rfl, hpulled⟩)))), Nat.le_refl _⟩
      | copying hpulled hat =>
          exact ⟨.stays _ rfl rfl hqueue (.inr (h.tell (fun _ => hpulled) rfl
            (.inl ⟨rfl, hpulled⟩))), Nat.le_refl _⟩
      | copied hat =>
          have hpulled : isPulled = false := h.copies (by rw [hat.2]; rfl)
          exact ⟨.stays _ rfl rfl hqueue (.inr (h.tell (fun _ => hpulled) rfl
            (.inl ⟨rfl, hpulled⟩))), Nat.le_refl _⟩
      | stored hat =>
          have hpulled : isPulled = false := h.copies (by rw [hat.2]; rfl)
          exact ⟨.stays _ rfl rfl hqueue (.inr (h.tell (fun _ => hpulled) rfl
            (.inl ⟨rfl, hpulled⟩))), Nat.le_refl _⟩
      | inserted point hpoint hat =>
          have hcopies : point.copies = false := by
            rw [hpoint]
            split <;> rfl
          refine ⟨.stays _ rfl rfl hqueue (.inr ?_), Nat.le_refl _⟩
          refine ⟨h.notFailed, fun h => (by cases h), fun hcopy => ?_, h.ended, fun raw hraw => ?_⟩
          · cases hcopies.symm.trans hcopy
          · cases hraw
            exact .inr (.inl ⟨rfl, rfl⟩)
      | progressed outcome raw hraw hat =>
          refine ⟨.stays _ rfl rfl hqueue (.inr (h.tell (fun h => by cases h) rfl
            (.inr (.inr (.inr (unchanged_dispatch ?_)))))), Nat.le_refl _⟩
          rcases hraw with rfl | rfl <;> decide
      | refused hat =>
          exact ⟨.stays _ rfl rfl hqueue (.inr (h.tell (fun h => by cases h) rfl
            (.inr (.inr (.inl ⟨rfl, rfl⟩))))), Nat.le_refl _⟩
      | completed outcome raw hraw hat =>
          refine ⟨.stays _ rfl rfl hqueue (.inr (h.tell (fun h => by cases h) rfl
            (.inr (.inr (.inr (unchanged_dispatch ?_)))))), Nat.le_refl _⟩
          rcases hraw with rfl | rfl <;> decide
      | silent hat =>
          exact ⟨.stays _ rfl rfl hqueue (.inr (h.move (fun h => by cases h) htelling)),
            Nat.le_refl _⟩
      | failed a hfails hbusy =>
          exact ⟨.stays _ rfl rfl hqueue (.inr (h.move (fun h => by cases h) htelling)),
            Nat.le_refl _⟩
      | acked hat => exact ⟨.gone rfl rfl h.left, Nat.le_refl _⟩
      | dropped ok hlast hat => exact ⟨.gone rfl rfl h.left, Nat.le_refl _⟩
      | republished hlast hat =>
          exact ⟨.stays _ rfl rfl hqueue (.inr (h.move (fun h => by cases h) htelling)),
            Nat.le_refl _⟩
      | requeued hlast hat =>
          exact ⟨.stays _ rfl rfl hqueue (.inr (h.move (fun h => by cases h) htelling)),
            Nat.le_refl _⟩
      | _ =>
          rename_i hat
          exact absurd (hqueue.symm.trans hat.1) (by decide)

/-- **The ordered moves keep it.** -/
theorem ordering_keeps (maxRetries : Int) : Keeps ordering maxRetries where
  refl := fun s => Nat.le_refl _
  steady := fun hordered => hordered.steady
  mono := by
    intro isPulled alone alone' job s halone hpull
    rcases hpull with ⟨hquiet, hthrough⟩ | h
    · exact .inl ⟨hquiet, halone hthrough⟩
    · exact .inr ⟨h.notFailed, h.fresh, h.copies, fun hend => halone (h.ended hend), h.telling⟩
  monoLeft := fun halone hleft => hleft.imp_right halone
  held := fun _ hhand hheld _ hstep => mover_moves hhand hheld hstep
  pull := fun hqueue hpull hordered hstep => pull_in_order hqueue hpull hordered hstep
  trailing := by
    intro alone isPulled status job halone hpull
    rcases hpull with ⟨-, hthrough⟩ | h
    · exact absurd hthrough halone
    · have hstage : status.stage ≤ 6 := h.left.resolve_right halone
      exact ⟨.inr ⟨by decide, fun _ => Nat.le_refl 6, h.copies, fun hend => (by cases hend),
        h.telling⟩, hstage⟩
  trailingLeft := fun halone hleft => ⟨.inl (Nat.le_refl 6), hleft.resolve_right halone⟩

/-! ## The result -/

/-- The one message about the file waits for `process_file_ready`. -/
structure FileIsReady (f : Nat) (w : World) : Prop where
  sound : w.Sound
  message : ∃ j job, w.jobs j = some job ∧ job.file = f ∧ job.isAt .fileReady .waiting ∧
    job.telling = none ∧ ∀ k m, w.jobs k = some m → m.file = f → k = j
  status : ∃ s, w.status f = some s ∧ s.stage ≤ UploadStatus.readyForTransfer.stage

theorem FileIsReady.kept {f : Nat} {w : World} (h : FileIsReady f w) : Kept ordering f w := by
  obtain ⟨j, job, hj, hfile, hat, htelling, hone⟩ := h.message
  obtain ⟨s, hs, hstage⟩ := h.status
  refine ⟨h.sound, s, hs, .held j job hj hfile ?_ ?_ ?_ ?_⟩
  · rw [hat.1]
    decide
  · refine inHand_of_point ?_
    rw [hat.2]
    rfl
  · exact fun k m hm hmfile hk => absurd (hone k m hm hmfile) hk
  · refine ⟨hat.1, hstage, fun raw hraw => ?_⟩
    rw [htelling] at hraw
    cases hraw

/-- **Statuses go forward.** From a file that is ready, in a run whose moves about it are ordered,
no step replaces its status by one of an earlier stage. -/
theorem never_backwards (maxRetries : Int) (f : Nat) (w : World) (as : List Action)
    (hready : FileIsReady f w)
    (hguard : Guarded (World.step maxRetries) (ordering.Guard f) w as) :
    Along (World.step maxRetries) (Forward f) w as := by
  refine along_of_guarded _ (Kept ordering f) (fun w a w' hkept hallowed hs => ?_) hready.kept hguard
  obtain ⟨hkept', hturns⟩ := kept_of_step (ordering_keeps maxRetries) hkept hallowed hs
  exact ⟨hturns, hkept'⟩

/-- A transcoded file, and its message for the mover. -/
def readyFile : World where
  status := Function.update (fun _ => none) 0 (some .transcoded)
  jobs := Function.update (fun _ => none) 0 (some (Job.fresh 0 .fileReady false))
  next := 1
  pulled := []
  scans := []

theorem readyFile_ready : FileIsReady 0 readyFile := by
  have hjobs : ∀ k m, readyFile.jobs k = some m → k = 0 := by
    intro k m hm
    by_contra hk
    simp only [readyFile, Function.update_of_ne hk] at hm
    cases hm
  refine ⟨⟨fun {k m} hm => ?_, fun {k m} hm => ?_⟩, ⟨0, _, rfl, rfl, ⟨rfl, rfl⟩, rfl, ?_⟩,
    ⟨_, rfl, by decide⟩⟩
  · rw [hjobs k m hm]
    exact Nat.zero_lt_one
  · have hk := hjobs k m hm
    subst hk
    cases hm
    exact fun h => by cases h
  · exact fun k m hm _ => hjobs k m hm

/-- The mover, up to its publication. -/
def publication : List Action :=
  [.move 0 .deliver, .move 0 (.begin true), .move 0 (.notified true), .move 0 (.publish true true)]

/-- The mover, to its end. -/
def conclusion : List Action := [.move 0 (.started true), .move 0 (.notified true), .move 0 .ack]

/-- A pull, up to its dispatch. -/
def pulling : List Action :=
  [.move 1 .deliver, .move 1 .look, .move 1 (.notified true), .move 1 (.copied true),
   .move 1 (.notified true), .move 1 (.stored true), .move 1 (.notified true),
   .move 1 (.inserted true), .move 1 (.notified true)]

/-- A refusal by Kevent, told; and the pull again, on another worker. -/
def refusal : List Action :=
  [.move 1 (.dispatch .refused), .move 1 (.notified true), .move 1 .lost, .move 1 .deliver,
   .move 1 .look]

theorem never_backwards_publication :
    Along (World.step 5) (Forward 0) readyFile publication := by
  refine never_backwards 5 0 readyFile publication readyFile_ready ?_
  refine guarded_cons _ ?_ rfl (guarded_cons _ ?_ rfl (guarded_cons _ ?_ rfl
    (guarded_cons _ ?_ rfl trivial)))
  · exact fun job _ _ h => by cases h
  · exact fun job _ _ h => by cases h
  · intro job hj _ hqueue
    cases hj
    cases hqueue
  · exact fun job _ _ h => by cases h

/-- A last step that takes the status of file 0 back. -/
theorem not_along_of_last {as : List Action} {a : Action} {s s' : UploadStatus}
    (hbefore : ((run (World.step 5) readyFile as).map fun w => w.status 0) = some (some s))
    (hafter : ((run (World.step 5) readyFile (as ++ [a])).map fun w => w.status 0) =
      some (some s')) (hback : s'.stage < s.stage) :
    ¬ Along (World.step 5) (Forward 0) readyFile (as ++ [a]) := by
  intro halong
  obtain ⟨w, hrun, hs⟩ := Option.map_eq_some_iff.mp hbefore
  obtain ⟨w', hrun', hs'⟩ := Option.map_eq_some_iff.mp hafter
  rw [run_append, hrun, Option.bind_some] at hrun'
  cases hstep : World.step 5 w a with
  | none =>
      simp only [run, hstep] at hrun'
      cases hrun'
  | some w1 =>
      simp only [run, hstep] at hrun'
      cases hrun'
      exact absurd (along_last _ halong hrun hstep s s' hs hs') (not_le.mpr hback)

/-- **Two writes that take the status back.** The mover commits `transferring` when the pull that
it has published is over; and a replay tells `transferred` after a failure. -/
theorem written_backwards :
    ¬ Along (World.step 5) (Forward 0) readyFile
        (publication ++ pulling ++ [.move 0 (.started true)]) ∧
      ¬ Along (World.step 5) (Forward 0) readyFile
        (publication ++ conclusion ++ pulling ++ refusal ++ [.move 1 (.notified true)]) :=
  ⟨@not_along_of_last _ _ .transferred .transferring (by decide +kernel) (by decide +kernel)
      (by decide),
    @not_along_of_last _ _ .error .transferred (by decide +kernel) (by decide +kernel)
      (by decide)⟩

end MesReunions.Pipeline
