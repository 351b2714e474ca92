import MesReunions.Watchdog.Frame

/-!
# Transient failures of a transcription

`_transcribe_via_kevent` lets `KeventTransientError` out, for the queue to deliver the message
again. A message that is delivered again finds its row and does nothing (`Ingest.Pull`), so a new
attempt is up to the watchdog. The three callers that run in a thread catch the error and write
`kevent_failed`.

* `Status.Resumed` — the watchdog takes rows of this status.
* **`leftForRetry_iff`** — the runs in which each failure leaves its row in such a status.
* **`resubmission_condemned`** — the watchdog's own resubmission does not.
* `condemned_run` — nothing that is automatic attempts such a row again.
-/

namespace MesReunions.Watchdog

open TSys

variable {cfg : Config} {s s' : World} {act : Act} {a : Nat}

/-! ## Statements -/

/-- Some tick of the loop takes some row of this status. -/
def Status.Resumed (cfg : Config) (status : Status) : Prop :=
  ∃ (r : Row) (now : Nat), r.transcriptionStatus = status ∧ r.stuck cfg .watchdog now = true

/-- A pipeline that raises leaves its row, while it has versions left, in a status that the
watchdog takes. -/
def LeftForRetry (cfg : Config) (s : World) (act : Act) (s' : World) : Prop :=
  match act with
  | .finish p .raised => ∀ pipe ∈ s.pipes p, ∀ r ∈ s'.rows pipe.audio,
      r.reprocessVersion < cfg.maxAutoRetries → r.transcriptionStatus.Resumed cfg
  | _ => True

/-- The pipeline that raises is the one of the upload, and its row is not terminal. -/
def Act.FromQueue (cfg : Config) (s : World) (act : Act) : Prop :=
  match act with
  | .finish p .raised => ∀ pipe ∈ s.pipes p, ∀ r ∈ s.rows pipe.audio,
      r.reprocessVersion < cfg.maxAutoRetries →
        pipe.upload = true ∧ r.transcriptionStatus.Resumed cfg
  | _ => True

/-! ## What the watchdog takes -/

theorem nonTerminal_of_stuck {r : Row} {caller : Caller} {now : Nat}
    (h : r.stuck cfg caller now = true) (hcaller : caller.includeFailed = false) :
    r.transcriptionStatus ∈ nonTerminalStatuses := by
  simp only [Row.stuck, hcaller, Bool.false_and, Bool.or_false, Bool.and_eq_true,
    List.contains_iff_mem] at h
  exact h.1.1.1.1.1.1

theorem nonTerminal_of_resumed {status : Status} (h : status.Resumed cfg) :
    status ∈ nonTerminalStatuses := by
  obtain ⟨r, now, rfl, hstuck⟩ := h
  exact nonTerminal_of_stuck hstuck rfl

theorem not_resumed_keventFailed : ¬ Status.keventFailed.Resumed cfg := by
  intro h
  exact absurd (nonTerminal_of_resumed h) (by decide)

/-- A tick takes each row of such a status that is stale, unclaimed and young, with versions left
and no error that stands against it. -/
theorem stuck_of_resumed {r : Row} {now : Nat} (h : r.transcriptionStatus.Resumed cfg)
    (hstale : r.stale cfg now = true) (hfree : r.claimFree cfg now = true)
    (hyoung : now < r.createdAt + cfg.maxAge) (hkind : r.retryable = true)
    (hversion : r.reprocessVersion < cfg.maxAutoRetries) : r.stuck cfg .watchdog now = true := by
  have hstatus := nonTerminal_of_resumed h
  simp [Row.stuck, Caller.includeFailed, Caller.userSub, hstatus, hstale, hfree, hyoung, hkind,
    hversion]

/-- The statuses that the watchdog takes are the non-terminal ones. -/
theorem resumed_iff {status : Status} (hage : 0 < cfg.maxAge) :
    status.Resumed cfg ↔ status ∈ nonTerminalStatuses := by
  refine ⟨nonTerminal_of_resumed, fun hstatus => ?_⟩
  refine ⟨⟨"", .upload, "", status, 0, none, none, -1, none⟩, 0, rfl, ?_⟩
  have hversion : (-1 : Int) < cfg.maxAutoRetries := by omega
  simp [Row.stuck, Row.stale, Row.claimFree, Row.retryable, before, Caller.includeFailed,
    Caller.userSub, hstatus, hage, hversion]

/-! ## One failure -/

/-- What is left of the row of a pipeline that raises. -/
theorem rows_raised {p : Nat} {pipe : Pipe} {r' : Row} (hp : s.pipes p = some pipe)
    (hs : step cfg s (.finish p .raised) = some s') (hr : s'.rows pipe.audio = some r') :
    ∃ r, s.rows pipe.audio = some r ∧ r' = r.ended s.now pipe.upload .raised := by
  simp only [step, hp] at hs
  cases hs
  cases hrow : s.rows pipe.audio with
  | none => simp [World.modify, hrow] at hr
  | some r =>
      refine ⟨r, rfl, ?_⟩
      simp only [World.modify, hrow] at hr
      exact (Option.some.inj ((setRow_self s pipe.audio _).symm.trans hr)).symm

theorem row_raised {p : Nat} {pipe : Pipe} {r : Row} (hp : s.pipes p = some pipe)
    (hs : step cfg s (.finish p .raised) = some s') (hr : s.rows pipe.audio = some r) :
    s'.rows pipe.audio = some (r.ended s.now pipe.upload .raised) := by
  simp only [step, hp] at hs
  cases hs
  simp only [World.modify, hr]
  exact setRow_self ..

theorem version_ended {r : Row} {now : Nat} {upload : Bool} {e : End} :
    (r.ended now upload e).reprocessVersion = r.reprocessVersion :=
  (touched_ended r now upload e).version

/-- The pipeline of an upload leaves its row as it is, any other fails it. -/
theorem status_raised {r : Row} {now : Nat} {upload : Bool} :
    (r.ended now upload .raised).transcriptionStatus =
      if upload then r.transcriptionStatus else .keventFailed := by
  cases upload <;> rfl

theorem leftForRetry_step_iff (hs : step cfg s act = some s') :
    LeftForRetry cfg s act s' ↔ act.FromQueue cfg s := by
  unfold LeftForRetry Act.FromQueue
  split
  · constructor
    · intro h pipe hp r hr hversion
      have hleft := h pipe hp _ (row_raised hp hs hr) (by rw [version_ended]; exact hversion)
      rw [status_raised] at hleft
      cases hup : pipe.upload with
      | true =>
          rw [hup, if_pos rfl] at hleft
          exact ⟨rfl, hleft⟩
      | false =>
          rw [hup, if_neg Bool.false_ne_true] at hleft
          exact absurd hleft not_resumed_keventFailed
    · intro h pipe hp r' hr' hversion
      obtain ⟨r, hr, rfl⟩ := rows_raised hp hs hr'
      rw [version_ended] at hversion
      obtain ⟨hup, hleft⟩ := h pipe hp r hr hversion
      rw [status_raised, hup, if_pos rfl]
      exact hleft
  · exact Iff.rfl

/-- **Which failures are tried again.** In a run, each pipeline that raises leaves its row in a
status that the watchdog takes, while the row has versions left, exactly when each is the pipeline
of an upload whose row is not terminal. -/
theorem leftForRetry_iff {acts : List Act} {t : World}
    (hrun : run (step cfg) World.start acts = some t) :
    Along (step cfg) (LeftForRetry cfg) World.start acts ↔
      Guarded (step cfg) (fun s act => act.FromQueue cfg s) World.start acts := by
  refine along_iff_guarded (step cfg) (fun _ => True) ?_ (fun _ _ _ _ _ _ => trivial) trivial hrun
  intro s act s' _ hs
  exact leftForRetry_step_iff hs

/-- An upload whose transcription is not answered, twice. -/
def unanswered : List Act :=
  [.create 0 (.upload "audio.mp4") "sub" 0, .progress 0 .transcribing, .progress 0 .queued, .poll 0,
    .finish 0 .raised, .create 1 (.upload "other.mp4") "sub" 1, .progress 1 .transcribing,
    .finish 1 .raised]

theorem unanswered_leftForRetry : ∃ t, run (step .standard) World.start unanswered = some t ∧
    Along (step .standard) (LeftForRetry .standard) World.start unanswered := by
  obtain ⟨t, hrun⟩ : ∃ t, run (step .standard) World.start unanswered = some t := ⟨_, rfl⟩
  refine ⟨t, hrun, (leftForRetry_iff hrun).mpr ?_⟩
  have hresumed : ∀ status ∈ nonTerminalStatuses, status.Resumed .standard :=
    fun status hstatus => (resumed_iff (by decide)).mpr hstatus
  refine guarded_cons _ trivial rfl (guarded_cons _ trivial rfl (guarded_cons _ trivial rfl
    (guarded_cons _ trivial rfl (guarded_cons _ ?_ rfl (guarded_cons _ trivial rfl
      (guarded_cons _ trivial rfl (guarded_cons _ ?_ rfl trivial)))))))
  · intro pipe hp r hr _
    cases hp
    cases hr
    exact ⟨rfl, hresumed _ (by decide)⟩
  · intro pipe hp r hr _
    cases hp
    cases hr
    exact ⟨rfl, hresumed _ (by decide)⟩

/-- The watchdog takes up an upload whose thread has died, and Kevent does not answer. -/
def resubmitted : List Act :=
  [.create 0 (.upload "audio.mp4") "sub" 0, .finish 0 .lost, .wait 301,
    .scan 0 .watchdog [(0, "sub")], .tryClaim 0 true, .inspect 0 true, .load 0, .commit 0 .found true,
    .submit 0 1, .finish 1 .raised]

/-- **A resubmission that meets a transient error is the last**: its row is failed at version `1`. -/
theorem resubmission_condemned : ¬ ∀ (acts : List Act) (t : World),
    run (step .standard) World.start acts = some t →
      Along (step .standard) (LeftForRetry .standard) World.start acts := by
  intro h
  obtain ⟨t, hrun⟩ : ∃ t, run (step .standard) World.start resubmitted = some t := ⟨_, rfl⟩
  obtain ⟨u, hu⟩ : ∃ u, run (step .standard) World.start resubmitted.dropLast = some u := ⟨_, rfl⟩
  have hlast : step .standard u (.finish 1 .raised) = some t := by
    cases hu
    exact hrun
  have hleft : LeftForRetry .standard u (.finish 1 .raised) t :=
    along_last (step .standard) (h resubmitted t hrun) hu hlast
  cases hu
  cases hlast
  exact not_resumed_keventFailed (hleft _ rfl _ rfl (by decide))

/-! ## No automatic attempt after that -/

/-- The row is failed, and no thread is at it. -/
structure Condemned (s : World) (a : Nat) : Prop where
  failed : ∃ r, s.rows a = some r ∧ r.transcriptionStatus = .keventFailed
  noCall : ∀ c, ¬ s.InHand c a
  noRequest : ∀ q r, s.requests q = some r → r.audio ≠ a
  noPipe : ∀ p pipe, s.pipes p = some pipe → pipe.audio ≠ a

/-- No user acts on row `a`, no chain of LLM steps ends and no import is delivered for it. -/
def Act.Automatic (a : Nat) : Act → Prop
  | .scan _ caller _ => caller.includeFailed = false
  | .ask _ _ b _ => b ≠ a
  | .chain b _ => b ≠ a
  | .mcr b _ => b ≠ a
  | _ => True

/-- The row of a condemned audio is only touched by edits. -/
theorem Condemned.row (h : Condemned s a) (hact : act.Automatic a)
    (hs : step cfg s act = some s') :
    ∃ r, s'.rows a = some r ∧ r.transcriptionStatus = .keventFailed := by
  obtain ⟨r, hr, hfailed⟩ := h.failed
  by_cases hcap : act = .markCapped
  · subst hcap
    cases hs
    have hnot : r.overCap cfg s.now = false := by simp [Row.overCap, hfailed, nonTerminalStatuses]
    exact ⟨r, by simp [markCappedAsFailed, hr, hnot], hfailed⟩
  · by_cases htarget : s.target act = some a
    · cases act with
      | create b src userSub p =>
          cases htarget
          simp [step, hr] at hs
      | tryClaim c ok =>
          refine absurd ?_ (h.noCall c)
          simp only [World.target] at htarget
          obtain ⟨x, hx, rfl⟩ := Option.map_eq_some_iff.mp htarget
          exact .inr (List.mem_map_of_mem (List.mem_of_head? hx))
      | commit c probe ok => exact absurd (.inl htarget) (h.noCall c)
      | answer q =>
          obtain ⟨x, hx, hxa⟩ := Option.map_eq_some_iff.mp htarget
          exact absurd hxa (h.noRequest q x hx)
      | progress p g =>
          obtain ⟨x, hx, hxa⟩ := Option.map_eq_some_iff.mp htarget
          exact absurd hxa (h.noPipe p x hx)
      | poll p =>
          obtain ⟨x, hx, hxa⟩ := Option.map_eq_some_iff.mp htarget
          exact absurd hxa (h.noPipe p x hx)
      | finish p e =>
          obtain ⟨x, hx, hxa⟩ := Option.map_eq_some_iff.mp htarget
          exact absurd hxa (h.noPipe p x hx)
      | chain b e =>
          cases htarget
          exact absurd rfl hact
      | mcr b work =>
          cases htarget
          exact absurd rfl hact
      | edit b =>
          cases htarget
          cases hs
          simp only [World.modify, hr]
          exact ⟨_, setRow_self .., hfailed⟩
      | _ => cases htarget
    · rw [rows_step hs htarget hcap]
      exact ⟨r, hr, hfailed⟩

theorem condemned_step (h : Condemned s a) (hact : act.Automatic a)
    (hs : step cfg s act = some s') : Condemned s' a := by
  obtain ⟨r, hr, hfailed⟩ := h.failed
  refine ⟨h.row hact hs, ?_, ?_, ?_⟩
  · intro c hc
    rcases inHand_step hs hc with ⟨hold, -⟩ | ⟨caller, found, rfl, hfound, -⟩
    · exact h.noCall c hold
    · -- A scan only finds a failed row when a user asks for it.
      obtain ⟨x, hx, rfl⟩ := List.mem_map.mp hfound
      obtain ⟨r', hr', hstuck⟩ := (scan_step hs).1 x hx
      rw [hr] at hr'
      cases hr'
      have hstatus := nonTerminal_of_stuck hstuck hact
      rw [hfailed] at hstatus
      exact absurd hstatus (by decide)
  · intro q x hx
    rcases request_step hs hx with ⟨x₀, hx₀, -, haudio, -⟩ | ⟨-, userSub, rfl⟩
    · rw [← haudio]
      exact h.noRequest q x₀ hx₀
    · exact hact
  · intro p pipe hp
    rcases pipe_step hs hp with hold | hlaunch
    · exact h.noPipe p pipe hold
    · intro ha
      cases act with
      | create b src userSub t =>
          obtain ⟨-, rfl⟩ := hlaunch
          have hb : b = a := ha
          simp [step, hb, hr] at hs
      | submit c t =>
          refine h.noCall c (.inl ?_)
          rw [hlaunch.1, ← ha]
          rfl
      | launch q t =>
          obtain ⟨⟨x, hx, hxa, -⟩, -⟩ := hlaunch
          exact h.noRequest q x hx (hxa.trans ha)
      | _ => exact hlaunch

/-- **No automatic attempt.** The row stays failed, and no pipeline is started for it, whatever the
watchdog and the other rows do. -/
theorem condemned_run {acts : List Act} (hs : run (step cfg) s acts = some s')
    (h : Condemned s a) (hacts : ∀ act ∈ acts, act.Automatic a) : Condemned s' a :=
  inv_of_guarded (step cfg) (fun s => Condemned s a)
    (fun _ _ _ h hact hs => condemned_step h hact hs) h
    (guarded_of_inv (step cfg) (fun s => Condemned s a) (Act.Automatic a)
      (fun _ _ _ hact => hact) (fun _ _ _ h hact hs => condemned_step h hact hs) h hacts) hs

/-- A pipeline of another kind that raises, with no other thread at its row. -/
theorem condemned_of_raised {p : Nat} {pipe : Pipe} {r : Row} (hp : s.pipes p = some pipe)
    (hup : pipe.upload = false) (hr : s.rows pipe.audio = some r)
    (hcall : ∀ c, ¬ s.InHand c pipe.audio)
    (hrequest : ∀ q x, s.requests q = some x → x.audio ≠ pipe.audio)
    (hpipe : ∀ t other, s.pipes t = some other → t ≠ p → other.audio ≠ pipe.audio)
    (hs : step cfg s (.finish p .raised) = some s') : Condemned s' pipe.audio := by
  have hrow := row_raised hp hs hr
  refine ⟨⟨_, hrow, by rw [status_raised, hup]; rfl⟩, ?_, ?_, ?_⟩
  · intro c hc
    rcases inHand_step hs hc with ⟨hold, -⟩ | ⟨caller, found, hact, -⟩
    · exact hcall c hold
    · cases hact
  · intro q x hx
    rcases request_step hs hx with ⟨x₀, hx₀, -, haudio, -⟩ | ⟨-, userSub, hact⟩
    · rw [← haudio]
      exact hrequest q x₀ hx₀
    · cases hact
  · intro t other ht
    by_cases htp : t = p
    · subst htp
      simp only [step, hp] at hs
      cases hs
      dsimp only at ht
      rw [Function.update_self] at ht
      cases ht
    · rcases pipe_step hs ht with hold | hlaunch
      · exact hpipe t other hold htp
      · exact absurd hlaunch id

end MesReunions.Watchdog
