import MesReunions.Pipeline.System

/-!
# The course of a file

Who writes the status of a file next: one message of the external zone, or the pull that the mover
has published, or nobody. What is to hold of the status meanwhile is the parameter `Contract`; a
contract that the moves of one message keep is kept along every run.

* `Others` — the other messages about a file: through, or the mover between its publication and
  its end.
* `Contract`, `Stand` — what is known of the status while a message is the one that counts.
* `Keeps` — the moves of one message keep the contract.
* **`kept_of_step`** — then every step does.
-/

namespace MesReunions.Pipeline

open TSys

/-! ## Who counts -/

/-- The callback is through, and its last post answered. -/
def Job.Quiet (job : Job) : Prop := job.point = .done ∧ job.telling = none

/-- The mover between its publication and its end: it still writes `transferring`. -/
def Job.Trailing (job : Job) : Prop :=
  job.queue = .fileReady ∧ (job.point = .published ∧ job.telling = none ∨
    job.point = .done ∧ job.telling = some UploadStatus.transferring.value)

/-- The next message may be out. -/
def Point.handed : Point → Bool
  | .published | .done => true
  | _ => false

/-- The mover has not published. -/
def Job.InHand (job : Job) : Prop :=
  job.queue = .fileReady → job.point ≠ .published ∧ job.point ≠ .done

/-- Another message is the one that counts. -/
def Job.Idle (job : Job) : Prop := job.Quiet ∨ job.Trailing

/-- The other messages about the file of message `j`. -/
def Others (P : Job → Prop) (w : World) (file j : Nat) : Prop :=
  ∀ k m, w.jobs k = some m → m.file = file → k ≠ j → P m

theorem Others.mono {P Q : Job → Prop} {w : World} {file j : Nat} (hPQ : ∀ m, P m → Q m)
    (h : Others P w file j) : Others Q w file j := fun k m hm hfile hk => hPQ m (h k m hm hfile hk)

theorem not_trailing_of_quiet {job : Job} (h : job.Quiet) : ¬ job.Trailing := by
  rintro ⟨-, ⟨hpoint, -⟩ | ⟨-, htelling⟩⟩
  · cases h.1.symm.trans hpoint
  · cases h.2.symm.trans htelling

theorem inHand_of_point {job : Job} (h : job.point.handed = false) : job.InHand := by
  refine fun _ => ⟨fun hpoint => ?_, fun hpoint => ?_⟩ <;> rw [hpoint] at h <;> cases h

/-- A worker is not lost between its publication and its acknowledgement, and nothing fails after
the mover's publication. -/
structure Job.Steady (job : Job) (a : JobAct) : Prop where
  notLost : a = .lost → job.point ≠ .published ∧ job.point ≠ .done
  notFailed : a.fails = true → job.point ≠ .published

section Idle

variable {maxRetries : Int} {isPulled : Bool} {status : UploadStatus} {job : Job} {a : JobAct}
  {o : Outcome}

/-- A message that is quiet can only be acknowledged. -/
theorem quiet_moves (hquiet : job.Quiet) (hsteady : job.Steady a)
    (hstep : Stepped maxRetries isPulled status job a o) : o = { job := none } := by
  obtain ⟨hpoint, htelling⟩ := hquiet
  cases hstep with
  | answered raw delivered htelling' =>
      rw [htelling] at htelling'
      cases htelling'
  | lost _ => exact absurd hpoint (hsteady.notLost rfl).2
  | moved a o _ hmove =>
      cases hmove with
      | acked _ => rfl
      | dropped _ _ _ => rfl
      | delivered h => exact absurd (hpoint.symm.trans h) (by decide)
      | failed a hfails hbusy =>
          rw [hpoint] at hbusy
          cases hbusy
      | republished hlast h => exact absurd (hpoint.symm.trans h) (by decide)
      | requeued hlast h => exact absurd (hpoint.symm.trans h) (by decide)
      | _ =>
          rename_i h
          exact absurd (hpoint.symm.trans h.2) (by decide)

/-- The mover between its publication and its end records `transferring`, and nothing else. -/
theorem trailing_moves (htrailing : job.Trailing) (hsteady : job.Steady a)
    (hstep : Stepped maxRetries isPulled status job a o) :
    o.post = none ∧ o.pulled = false ∧ (∃ m, o.job = some m ∧ m.Idle) ∧
      (o.status = none ∨ o.status = some .transferring) := by
  obtain ⟨hqueue, hat⟩ := htrailing
  cases hstep with
  | answered raw delivered htelling =>
      rcases hat with ⟨-, hnone⟩ | ⟨hpoint, hsome⟩
      · rw [hnone] at htelling
        cases htelling
      · rw [hsome] at htelling
        cases htelling
        refine ⟨rfl, rfl, ⟨_, rfl, .inl ⟨hpoint, rfl⟩⟩, ?_⟩
        rw [notifyStatus_value]
        cases delivered with
        | false => exact .inl rfl
        | true => exact .inr rfl
  | lost _ =>
      obtain ⟨hpublished, hdone⟩ := hsteady.notLost rfl
      rcases hat with ⟨hpoint, -⟩ | ⟨hpoint, -⟩
      · exact absurd hpoint hpublished
      · exact absurd hpoint hdone
  | moved a o htelling hmove =>
      have hpoint : job.point = .published := by
        rcases hat with ⟨hpoint, -⟩ | ⟨-, hsome⟩
        · exact hpoint
        · rw [hsome] at htelling
          cases htelling
      cases hmove with
      | transferring h =>
          exact ⟨rfl, rfl, ⟨_, rfl, .inr ⟨hqueue, .inr ⟨rfl, rfl⟩⟩⟩, .inr rfl⟩
      | failed a hfails hbusy => exact absurd hpoint (hsteady.notFailed hfails)
      | delivered h => exact absurd (hpoint.symm.trans h) (by decide)
      | acked h => exact absurd (hpoint.symm.trans h) (by decide)
      | dropped ok hlast h => exact absurd (hpoint.symm.trans h) (by decide)
      | republished hlast h => exact absurd (hpoint.symm.trans h) (by decide)
      | requeued hlast h => exact absurd (hpoint.symm.trans h) (by decide)
      | _ =>
          rename_i h
          exact absurd (hpoint.symm.trans h.2) (by decide)

end Idle

/-! ## Contracts -/

/-- What is known of the status of a file. `pull` is also told whether the file has a row in the
internal zone, and `pull` and `left` whether the mover is through. -/
structure Contract where
  held : Job → UploadStatus → Prop
  pull : Bool → Prop → Job → UploadStatus → Prop
  left : Prop → UploadStatus → Prop
  /-- What a step may make of the status. -/
  turns : UploadStatus → UploadStatus → Prop
  /-- What a message may do, when the others about its file are as told. -/
  allowed : Prop → Job → JobAct → Prop

inductive Stand (c : Contract) (w : World) (file : Nat) (status : UploadStatus) : Prop where
  | held (j : Nat) (job : Job) (hj : w.jobs j = some job) (hfile : job.file = file)
      (hqueue : job.queue ≠ .internalPull) (hhand : job.InHand)
      (hothers : Others Job.Quiet w file j) (hheld : c.held job status)
  | pulling (j : Nat) (job : Job) (hj : w.jobs j = some job) (hfile : job.file = file)
      (hqueue : job.queue = .internalPull) (hothers : Others Job.Idle w file j)
      (hpull : c.pull (w.pulled.contains file) (Others Job.Quiet w file j) job status)
  | finished (hidle : ∀ k m, w.jobs k = some m → m.file = file → m.Idle)
      (hleft : c.left (∀ k m, w.jobs k = some m → m.file = file → m.Quiet) status)

/-- What the message that counts comes to, in the external zone. -/
inductive HeldMove (c : Contract) (isPulled : Bool) (status : UploadStatus) (o : Outcome) :
    Prop where
  | stays (m : Job) (hm : o.job = some m) (hpost : o.post = none) (hqueue : m.queue ≠ .internalPull)
      (hhand : m.InHand) (hheld : c.held m (o.status.getD status))
  | handedOver (m n : Job) (hm : o.job = some m) (hquiet : m.Quiet) (hn : o.post = some n)
      (hqueue : n.queue ≠ .internalPull) (hhand : n.InHand)
      (hheld : c.held n (o.status.getD status))
  | toPull (m n : Job) (hm : o.job = some m) (hidle : m.Idle) (hn : o.post = some n)
      (hqueue : n.queue = .internalPull)
      (hpull : ∀ alone, c.pull (o.pulled || isPulled) alone n (o.status.getD status))
  | gone (hm : o.job = none) (hpost : o.post = none) (hleft : c.left True (o.status.getD status))

/-- What the message that counts comes to, in the internal zone. -/
inductive PullMove (c : Contract) (isPulled : Bool) (alone : Prop) (status : UploadStatus)
    (o : Outcome) : Prop where
  | stays (m : Job) (hm : o.job = some m) (hpost : o.post = none)
      (hqueue : m.queue = .internalPull)
      (hpull : c.pull (o.pulled || isPulled) alone m (o.status.getD status))
  | gone (hm : o.job = none) (hpost : o.post = none) (hleft : c.left alone (o.status.getD status))

/-- The moves of one message keep the contract. -/
structure Keeps (c : Contract) (maxRetries : Int) : Prop where
  refl : ∀ s, c.turns s s
  steady : ∀ {alone job a}, c.allowed alone job a → job.Steady a
  mono : ∀ {isPulled alone alone' job s}, (alone → alone') → c.pull isPulled alone job s →
    c.pull isPulled alone' job s
  monoLeft : ∀ {alone alone' s}, (alone → alone') → c.left alone s → c.left alone' s
  held : ∀ {alone isPulled status job a o}, job.queue ≠ .internalPull → job.InHand →
    c.held job status → c.allowed alone job a → Stepped maxRetries isPulled status job a o →
      HeldMove c isPulled status o ∧ c.turns status (o.status.getD status)
  pull : ∀ {alone isPulled status job a o}, job.queue = .internalPull →
    c.pull isPulled alone job status → c.allowed alone job a →
      Stepped maxRetries isPulled status job a o →
        PullMove c isPulled alone status o ∧ c.turns status (o.status.getD status)
  /-- The mover writes `transferring` while a pull is the message that counts. -/
  trailing : ∀ {alone isPulled status job}, ¬ alone → c.pull isPulled alone job status →
    c.pull isPulled alone job .transferring ∧ c.turns status .transferring
  /-- It does when the pull is gone. -/
  trailingLeft : ∀ {alone status}, ¬ alone → c.left alone status →
    c.left alone .transferring ∧ c.turns status .transferring

/-! ## Moves of the pipeline -/

section Apply

variable {P : Job → Prop} {w : World} {j file : Nat} {o : Outcome}

/-- The others, after a move that hands nothing over. -/
theorem others_self (h : Others P w file j) (hpost : o.post = none) :
    Others P (w.apply j file o) file j := by
  intro k m hm hfile hk
  rcases jobs_apply hm with ⟨hkj, -⟩ | ⟨-, hgiven⟩ | ⟨-, hm⟩
  · exact absurd hkj hk
  · rw [hpost] at hgiven
    cases hgiven
  · exact h k m hm hfile hk

/-- The others, after a move of one of them that hands nothing over. -/
theorem others_other {i : Nat} (h : Others P w file i) (hpost : o.post = none)
    (hjob : ∀ m, o.job = some m → P m) : Others P (w.apply j file o) file i := by
  intro k m hm hfile hk
  rcases jobs_apply hm with ⟨-, hm⟩ | ⟨-, hgiven⟩ | ⟨-, hm⟩
  · exact hjob m hm
  · rw [hpost] at hgiven
    cases hgiven
  · exact h k m hm hfile hk

/-- The others than the message that was handed over. -/
theorem others_next (h : Others P w file j) (hjob : ∀ m, o.job = some m → P m) :
    Others P (w.apply j file o) file w.next := by
  intro k m hm hfile hk
  rcases jobs_apply hm with ⟨-, hm⟩ | ⟨hnext, -⟩ | ⟨hkj, hm⟩
  · exact hjob m hm
  · exact absurd hnext hk
  · exact h k m hm hfile hkj

theorem pulled_apply :
    (w.apply j file o).pulled.contains file = (o.pulled || w.pulled.contains file) := by
  cases ho : o.pulled with
  | false => simp only [World.apply, ho, Bool.false_eq_true, if_false, Bool.false_or]
  | true => simp only [World.apply, ho, if_true, List.contains_cons, beq_self_eq_true, Bool.true_or]

theorem pulled_apply_of_ne {f : Nat} (hf : f ≠ file) :
    (w.apply j file o).pulled.contains f = w.pulled.contains f := by
  cases ho : o.pulled with
  | false => simp only [World.apply, ho, Bool.false_eq_true, if_false]
  | true =>
      simp only [World.apply, ho, if_true, List.contains_cons, beq_eq_false_iff_ne.mpr hf,
        Bool.false_or]

end Apply

/-- A step about other files. -/
theorem Stand.frame {c : Contract} {maxRetries : Int} (hkeeps : Keeps c maxRetries) {w w' : World}
    {file : Nat} {status : UploadStatus}
    (hjobs : ∀ k m, m.file = file → (w'.jobs k = some m ↔ w.jobs k = some m))
    (hpulled : w'.pulled.contains file = w.pulled.contains file)
    (h : Stand c w file status) : Stand c w' file status := by
  have hothers : ∀ {P : Job → Prop} {j}, Others P w file j → Others P w' file j :=
    fun hP k m hm hfile hk => hP k m ((hjobs k m hfile).mp hm) hfile hk
  cases h with
  | held j job hj hfile hqueue hhand hrest hheld =>
      exact .held j job ((hjobs j job hfile).mpr hj) hfile hqueue hhand (hothers hrest) hheld
  | pulling j job hj hfile hqueue hrest hpull =>
      refine .pulling j job ((hjobs j job hfile).mpr hj) hfile hqueue (hothers hrest) ?_
      rw [hpulled]
      exact hkeeps.mono hothers hpull
  | finished hidle hleft =>
      refine .finished (fun k m hm hfile => hidle k m ((hjobs k m hfile).mp hm) hfile) ?_
      exact hkeeps.monoLeft (fun hquiet k m hm hfile =>
        hquiet k m ((hjobs k m hfile).mp hm) hfile) hleft

/-- **A move of a message about the file.** -/
theorem stand_of_move {c : Contract} {maxRetries : Int} (hkeeps : Keeps c maxRetries) {w : World}
    {j : Nat} {a : JobAct} {job : Job} {status : UploadStatus} {o : Outcome} (hsound : w.Sound)
    (h : Stand c w job.file status) (hj : w.jobs j = some job)
    (hallowed : c.allowed (Others Job.Quiet w job.file j) job a)
    (hstep : Stepped maxRetries (w.pulled.contains job.file) status job a o) :
    Stand c (w.apply j job.file o) job.file (o.status.getD status) ∧
      c.turns status (o.status.getD status) := by
  obtain ⟨hjobfile, hpostfile⟩ := files_of_stepped hstep
  have hjnext : j ≠ w.next := Nat.ne_of_lt (hsound.handedOut hj)
  have hsteady := hkeeps.steady hallowed
  cases h with
  | held i holder hi hfile hqueue hhand hothers hheld =>
      by_cases hij : j = i
      · subst hij
        cases hi.symm.trans hj
        obtain ⟨hmoved, hturns⟩ := hkeeps.held hqueue hhand hheld hallowed hstep
        refine ⟨?_, hturns⟩
        cases hmoved with
        | stays m hm hpost hqueue' hhand' hheld' =>
            exact .held j m (by rw [jobs_apply_self hjnext, hm]) (hjobfile m hm) hqueue' hhand'
              (others_self hothers hpost) hheld'
        | handedOver m n hm hquiet hn hqueue' hhand' hheld' =>
            refine .held w.next n (jobs_apply_post hn) (hpostfile n hn) hqueue' hhand'
              (others_next hothers fun m' hm' => ?_) hheld'
            cases hm.symm.trans hm'
            exact hquiet
        | toPull m n hm hidle hn hqueue' hpull =>
            refine .pulling w.next n (jobs_apply_post hn) (hpostfile n hn) hqueue'
              (others_next (hothers.mono fun _ => .inl) fun m' hm' => ?_) ?_
            · cases hm.symm.trans hm'
              exact hidle
            · rw [pulled_apply]
              exact hpull _
        | gone hm hpost hleft =>
            have hquiet : ∀ k m, (w.apply j job.file o).jobs k = some m → m.file = job.file →
                m.Quiet := by
              intro k m hkm hkfile
              refine others_self hothers hpost k m hkm hkfile fun hkj => ?_
              rw [hkj, jobs_apply_self hjnext, hm] at hkm
              cases hkm
            exact .finished (fun k m hkm hkfile => .inl (hquiet k m hkm hkfile))
              (hkeeps.monoLeft (fun _ => hquiet) hleft)
      · have ho := quiet_moves (hothers j job hj rfl hij) hsteady hstep
        subst ho
        refine ⟨.held i holder ?_ hfile hqueue hhand (others_other hothers rfl fun m hm => ?_)
          hheld, hkeeps.refl _⟩
        · rw [jobs_apply_of_ne (Ne.symm hij) (Nat.ne_of_lt (hsound.handedOut hi))]
          exact hi
        · cases hm
  | pulling i holder hi hfile hqueue hothers hpull =>
      by_cases hij : j = i
      · subst hij
        cases hi.symm.trans hj
        obtain ⟨hmoved, hturns⟩ := hkeeps.pull hqueue hpull hallowed hstep
        refine ⟨?_, hturns⟩
        cases hmoved with
        | stays m hm hpost hqueue' hpull' =>
            refine .pulling j m (by rw [jobs_apply_self hjnext, hm]) (hjobfile m hm) hqueue'
              (others_self hothers hpost) ?_
            rw [pulled_apply]
            exact hkeeps.mono (fun halone => others_self halone hpost) hpull'
        | gone hm hpost hleft =>
            have hothers' : ∀ {P : Job → Prop}, Others P w job.file j → ∀ k m,
                (w.apply j job.file o).jobs k = some m → m.file = job.file → P m := by
              intro P hP k m hkm hkfile
              refine others_self hP hpost k m hkm hkfile fun hkj => ?_
              rw [hkj, jobs_apply_self hjnext, hm] at hkm
              cases hkm
            exact .finished (hothers' hothers) (hkeeps.monoLeft hothers' hleft)
      · have hi' : (w.apply j job.file o).jobs i = some holder := by
          rw [jobs_apply_of_ne (Ne.symm hij) (Nat.ne_of_lt (hsound.handedOut hi))]
          exact hi
        rcases hothers j job hj rfl hij with hquiet | htrailing
        · have ho := quiet_moves hquiet hsteady hstep
          subst ho
          refine ⟨.pulling i holder hi' hfile hqueue (others_other hothers rfl fun m hm => ?_) ?_,
            hkeeps.refl _⟩
          · cases hm
          · rw [pulled_apply]
            exact hkeeps.mono (fun halone => others_other halone rfl fun m hm => by cases hm) hpull
        · obtain ⟨hpost, hpulled, ⟨m, hm, hidle⟩, hwritten⟩ :=
            trailing_moves htrailing hsteady hstep
          -- while the mover is not through, the pull is not alone
          have halone : ¬ Others Job.Quiet w job.file i := fun halone =>
            not_trailing_of_quiet (halone j job hj rfl hij) htrailing
          have hafter : c.pull (w.pulled.contains job.file) (Others Job.Quiet w job.file i) holder
              (o.status.getD status) ∧ c.turns status (o.status.getD status) := by
            rcases hwritten with hwritten | hwritten
            · rw [hwritten]
              exact ⟨hpull, hkeeps.refl _⟩
            · rw [hwritten]
              exact hkeeps.trailing halone hpull
          refine ⟨.pulling i holder hi' hfile hqueue
            (others_other hothers hpost fun m' hm' => ?_) ?_, hafter.2⟩
          · cases hm.symm.trans hm'
            exact hidle
          · rw [pulled_apply, hpulled, Bool.false_or]
            exact hkeeps.mono (fun h => absurd h halone) hafter.1
  | finished hidle hleft =>
      have hafter : ∀ {P : Job → Prop}, o.post = none → (∀ m, o.job = some m → P m) →
          (∀ k m, w.jobs k = some m → m.file = job.file → P m) →
            ∀ k m, (w.apply j job.file o).jobs k = some m → m.file = job.file → P m := by
        intro P hpost hjob hall k m hkm hkfile
        rcases jobs_apply hkm with ⟨-, hm⟩ | ⟨-, hgiven⟩ | ⟨-, hm⟩
        · exact hjob m hm
        · rw [hpost] at hgiven
          cases hgiven
        · exact hall k m hm hkfile
      rcases hidle j job hj rfl with hquiet | htrailing
      · have ho := quiet_moves hquiet hsteady hstep
        subst ho
        refine ⟨.finished (hafter rfl (fun m hm => by cases hm) hidle) ?_, hkeeps.refl _⟩
        exact hkeeps.monoLeft (hafter rfl fun m hm => by cases hm) hleft
      · obtain ⟨hpost, -, ⟨m, hm, hidle'⟩, hwritten⟩ := trailing_moves htrailing hsteady hstep
        have halone : ¬ ∀ k m, w.jobs k = some m → m.file = job.file → m.Quiet := fun halone =>
          not_trailing_of_quiet (halone j job hj rfl) htrailing
        have hleft' : c.left (∀ k m, w.jobs k = some m → m.file = job.file → m.Quiet)
            (o.status.getD status) ∧ c.turns status (o.status.getD status) := by
          rcases hwritten with hwritten | hwritten
          · rw [hwritten]
            exact ⟨hleft, hkeeps.refl _⟩
          · rw [hwritten]
            exact hkeeps.trailingLeft halone hleft
        refine ⟨.finished (hafter hpost (fun m' hm' => ?_) hidle) ?_, hleft'.2⟩
        · cases hm.symm.trans hm'
          exact hidle'
        · exact hkeeps.monoLeft (fun h => absurd h halone) hleft'.1

/-- A move about another file. -/
theorem stand_of_other {c : Contract} {maxRetries : Int} (hkeeps : Keeps c maxRetries) {w : World}
    {j f : Nat} {a : JobAct} {job : Job} {status s : UploadStatus} {o : Outcome} (hsound : w.Sound)
    (h : Stand c w f s) (hf : f ≠ job.file) (hj : w.jobs j = some job)
    (hstep : Stepped maxRetries (w.pulled.contains job.file) status job a o) :
    Stand c (w.apply j job.file o) f s := by
  obtain ⟨hjobfile, hpostfile⟩ := files_of_stepped hstep
  refine h.frame hkeeps (fun k m hfile => ?_) (pulled_apply_of_ne hf)
  constructor
  · intro hm
    rcases jobs_apply hm with ⟨-, hm⟩ | ⟨-, hm⟩ | ⟨-, hm⟩
    · exact absurd (hfile.symm.trans (hjobfile m hm)) hf
    · exact absurd (hfile.symm.trans (hpostfile m hm)) hf
    · exact hm
  · intro hm
    have hkj : k ≠ j := by
      rintro rfl
      cases hj.symm.trans hm
      exact hf hfile.symm
    rw [jobs_apply_of_ne hkj (Nat.ne_of_lt (hsound.handedOut hm))]
    exact hm

/-- An upload of another file. -/
theorem stand_of_upload {c : Contract} {maxRetries : Int} (hkeeps : Keeps c maxRetries) {w : World}
    {f file : Nat} {s : UploadStatus} (hsound : w.Sound) (h : Stand c w f s) (hf : f ≠ file) :
    Stand c (w.uploaded file) f s := by
  refine @Stand.frame c maxRetries hkeeps w (w.uploaded file) f s (fun k m hfile => ?_) rfl h
  by_cases hk : k = w.next
  · rw [hk, hsound.next_free]
    simp only [World.uploaded, Function.update_self]
    constructor
    · intro hm
      cases hm
      exact absurd hfile.symm hf
    · intro hm
      cases hm
  · simp only [World.uploaded, Function.update_of_ne hk]

/-! ## Runs -/

/-- The messages about `f` do what the contract allows. -/
def Contract.Guard (c : Contract) (f : Nat) (w : World) : Action → Prop
  | .upload _ => True
  | .move j a => ∀ job, w.jobs j = some job → job.file = f →
      c.allowed (Others Job.Quiet w job.file j) job a

/-- The file has a row, and stands somewhere. -/
structure Kept (c : Contract) (f : Nat) (w : World) : Prop where
  sound : w.Sound
  stand : ∃ s, w.status f = some s ∧ Stand c w f s

/-- **The step lemma.** -/
theorem kept_of_step {c : Contract} {maxRetries : Int} (hkeeps : Keeps c maxRetries) {f : Nat}
    {w w' : World} {a : Action} (h : Kept c f w) (hguard : c.Guard f w a)
    (hs : World.step maxRetries w a = some w') : Kept c f w' ∧
      ∀ s s', w.status f = some s → w'.status f = some s' → c.turns s s' := by
  obtain ⟨s, hstatus, hstand⟩ := h.stand
  suffices hafter : ∃ s', w'.status f = some s' ∧ Stand c w' f s' ∧ c.turns s s' by
    obtain ⟨s', hs', hstand', hturns⟩ := hafter
    refine ⟨⟨sound_of_step h.sound hs, s', hs', hstand'⟩, fun t t' ht ht' => ?_⟩
    cases hstatus.symm.trans ht
    cases hs'.symm.trans ht'
    exact hturns
  cases effect_of_step hs with
  | uploaded file hnew =>
      have hf : f ≠ file := by
        rintro rfl
        cases hnew.symm.trans hstatus
      refine ⟨s, ?_, stand_of_upload hkeeps h.sound hstand hf, hkeeps.refl s⟩
      simp only [World.uploaded, Function.update_of_ne hf]
      exact hstatus
  | moved j a job status o hj hstatus' hstep =>
      by_cases hf : f = job.file
      · subst hf
        cases hstatus.symm.trans hstatus'
        obtain ⟨hstand', hturns⟩ :=
          stand_of_move hkeeps h.sound hstand hj (hguard job hj rfl) hstep
        exact ⟨_, status_apply hstatus, hstand', hturns⟩
      · refine ⟨s, ?_, stand_of_other hkeeps h.sound hstand hf hj hstep, hkeeps.refl s⟩
        rw [status_apply_of_ne hf]
        exact hstatus

end MesReunions.Pipeline
