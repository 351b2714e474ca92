import MesReunions.Base.TSys
import MesReunions.Mcr.Importer

/-!
# Messages that should not be retried

The queue `mcr_import` with its one consumer. Messages are published at any time, by the portal and
by the watchdog, and the consumer may stop and be started again.

* **`HandledOnce`** — a failure that the worker classifies ends its message.
* `LastDelivery` — the counter of the message is at the maximum, and the failure is saved.
* **`handledOnce_iff`** — the runs in which each such failure ends its message.
* **`auth_failure_retried`** — a message without a token is republished.
-/

namespace MesReunions.Mcr

open Queue TSys

variable (x : Externals)

/-- Handling `m` ends in a failure that the worker classifies. -/
def fails (a : Answers) (m : Msg) (s : Store) : Bool :=
  match x.loads m.body with
  | some (.obj fields) =>
      match process x a (.ofFields x fields) s with
      | .ok (.failed _) _ => true
      | _ => false
  | _ => false

/-! ## The system -/

structure Sys where
  world : World Store
  nextOrigin : Nat
  /-- The messages whose handling has ended in such a failure. -/
  ended : List Nat
  /-- The consumer runs. -/
  alive : Bool

def Sys.start (app : Store) : Sys := ⟨World.start app [], 0, [], true⟩

inductive Action where
  | publish (body : Bytes) (properties : Option Properties)
  /-- The next message is handled; `a` is what is answered meanwhile. -/
  | deliver (a : Answers)
  /-- The process is started again: its connection is closed. -/
  | restart

/-- The world after the head of the queue has been handled, and whether the consumer still runs. -/
def handled (a : Answers) (w : World Store) (m : Msg) (rest : List Msg) : World Store × Bool :=
  match onMessage (importer x a) ⟨w.nextTag, m⟩ (w.delivered m rest) with
  | .ok _ w' => (w', true)
  | .error _ w' => (w', false)

def step (s : Sys) : Action → Option Sys
  | .publish body properties =>
      some { s with
        world := s.world.published ⟨body, properties, s.nextOrigin⟩
        nextOrigin := s.nextOrigin + 1 }
  | .deliver a =>
      if s.alive then
        match s.world.ready with
        | [] => none
        | m :: rest =>
            let after := handled x a s.world m rest
            some { s with
              world := after.1
              ended := if fails x a m s.world.app then m.origin :: s.ended else s.ended
              alive := after.2 }
      else none
  | .restart => some { s with world := s.world.closed, alive := true }

/-! ## Statements -/

/-- The messages that are still to be handled. -/
def Sys.waiting (s : Sys) : List Msg := s.world.unacked.map (·.msg) ++ s.world.ready

/-- Message `m` is not one whose handling has ended before; if its handling ends now, its row is
failed and no copy of it is left. -/
structure HandledOnce (a : Answers) (m : Msg) (s s' : Sys) : Prop where
  fresh : m.origin ∉ s.ended
  failed : fails x a m s.world.app = true → ∀ fields, x.loads m.body = some (.obj fields) →
    RowFailed x (.ofFields x fields) s'.world.app
  gone : fails x a m s.world.app = true → ∀ m' ∈ s'.waiting, m'.origin ≠ m.origin

/-- What a step of a run has to do. -/
def StepOnce (s : Sys) (act : Action) (s' : Sys) : Prop :=
  match act with
  | .deliver a => ∀ m ∈ s.world.ready.head?, HandledOnce x a m s s'
  | _ => True

/-- A delivery that ends in such a failure is the last that the counter allows, and the failure is
saved. -/
def LastDelivery (s : Sys) : Action → Prop
  | .deliver a => ∀ m ∈ s.world.ready.head?, fails x a m s.world.app = true →
      a.failureSaved = true ∧ ¬ Overflows m.headers ∧ x.maxRetries ≤ countOf m.headers
  | _ => True

/-! ## One delivery -/

variable {x : Externals} {a : Answers} {m : Msg} {rest : List Msg} {w : World Store}

/-- A failure that the worker classifies is no success. -/
theorem fails_called {fields : List (Str × Json)} (hbody : x.loads m.body = some (.obj fields))
    (hfails : fails x a m w.app = true) :
    (importer x a).outcome (.obj fields) w.app = false ∧
      ∃ reason, GaveUp x a (.ofFields x fields) reason
        ((importer x a).called m.origin (.obj fields) w).app := by
  simp only [fails, hbody] at hfails
  split at hfails
  · rename_i reason s' hprocess
    have hcall : handleMessage x a (.obj fields) w.app = .ok false s' := by
      simp only [handleMessage, Functor.map, EStateM.map, hprocess]
      rfl
    refine ⟨by simp only [Policy.outcome, importer, hcall], reason, ?_⟩
    simp only [Policy.called, importer, hcall, appAfter]
    exact process_failed hprocess
  · cases hfails

/-- What is left of a message after its delivery. -/
inductive Left (x : Externals) (a : Answers) (m : Msg) (rest : List Msg) (w : World Store)
    (after : World Store × Bool) : Prop where
  | settled (halive : after.2 = true) (hunacked : after.1.unacked = [])
      (hready : after.1.ready = rest)
      (hlast : fails x a m w.app = true → ¬ Overflows m.headers ∧ x.maxRetries ≤ countOf m.headers)
  | requeued (halive : after.2 = true) (hunacked : after.1.unacked = [])
      (hready : after.1.ready = rest ++ [m.republished])
      (hless : countOf m.headers < x.maxRetries)
  | held (halive : after.2 = false) (hunacked : after.1.unacked = [⟨w.nextTag, m⟩])
      (hready : after.1.ready = rest)
      (hhow : fails x a m w.app = false ∨ Overflows m.headers)

theorem left_handled (x : Externals) (a : Answers) (m : Msg) (rest : List Msg)
    (hun : w.unacked = []) : Left x a m rest w (handled x a w m rest) := by
  have hcases := onMessage_handling (importer x a) ⟨w.nextTag, m⟩ (w.delivered m rest)
  unfold handled
  generalize onMessage (importer x a) ⟨w.nextTag, m⟩ (w.delivered m rest) = r at hcases
  cases hcases with
  | unparseable hbody =>
      refine .settled rfl (by simp [World.acked, World.delivered, hun]) rfl fun hfails => ?_
      have hbody : x.loads m.body = none := hbody
      simp [fails, hbody] at hfails
  | notObject message hbody hobj =>
      refine .held rfl (by simp [World.delivered, hun]) rfl (.inl ?_)
      have hbody : x.loads m.body = some message := hbody
      simp only [fails, hbody]
      cases message with
      | obj fields => cases hobj
      | _ => rfl
  | done message hbody hobj hout =>
      refine .settled rfl (by simp [Policy.called, World.acked, World.delivered, hun]) rfl
        fun hfails => ?_
      cases message with
      | obj fields =>
          have hno := (fails_called (w := w) hbody hfails).1
          rw [show (importer x a).outcome (.obj fields) w.app = true from hout] at hno
          cases hno
      | _ => cases hobj
  | escaped message hbody hobj hout hinf =>
      exact .held rfl (by simp [Policy.called, World.delivered, hun]) rfl (.inr hinf)
  | dropped message hbody hobj hout hinf hmax =>
      refine .settled rfl ?_ ?_ fun _ => ⟨hinf, hmax⟩
      · simp [Policy.called, World.acked, World.delivered, hun]
      · simp [Policy.called, World.acked, World.delivered]
  | requeued message hbody hobj hout hinf hmax =>
      refine .requeued rfl ?_ rfl hmax
      simp [Policy.called, World.published, World.acked, World.delivered, hun]

/-- The row is what the handler has left. -/
theorem gaveUp_handled (rest : List Msg) (hfails : fails x a m w.app = true) {fields : List (Str × Json)}
    (hbody : x.loads m.body = some (.obj fields)) :
    ∃ reason, GaveUp x a (.ofFields x fields) reason (handled x a w m rest).1.app := by
  obtain ⟨hout, reason, hgave⟩ := fails_called (w := w.delivered m rest) hbody hfails
  refine ⟨reason, ?_⟩
  have hcases := onMessage_handling (importer x a) ⟨w.nextTag, m⟩ (w.delivered m rest)
  unfold handled
  generalize onMessage (importer x a) ⟨w.nextTag, m⟩ (w.delivered m rest) = r at hcases
  have hsame : ∀ {message}, (importer x a).loads m.body = some message → message = .obj fields := by
    intro message hmessage
    rw [show (importer x a).loads m.body = some (.obj fields) from hbody] at hmessage
    exact (Option.some.inj hmessage).symm
  cases hcases with
  | unparseable hnone =>
      rw [show (importer x a).loads m.body = some (.obj fields) from hbody] at hnone
      cases hnone
  | notObject message hmessage hobj =>
      cases hsame hmessage
      cases hobj
  | done message hmessage hobj hdone =>
      cases hsame hmessage
      rw [hout] at hdone
      cases hdone
  | escaped message hmessage hobj hno hinf =>
      cases hsame hmessage
      exact hgave
  | dropped message hmessage hobj hno hinf hmax =>
      cases hsame hmessage
      exact hgave
  | requeued message hmessage hobj hno hinf hmax =>
      cases hsame hmessage
      exact hgave

/-! ## Runs -/

/-- The origins of the messages that are still to be handled. -/
def Sys.origins (s : Sys) : List Nat := s.waiting.map (·.origin)

/-- Each message waits once, and none whose handling has ended. -/
structure Inv (s : Sys) : Prop where
  nodup : s.origins.Nodup
  origins_lt : ∀ o ∈ s.origins, o < s.nextOrigin
  ended_lt : ∀ o ∈ s.ended, o < s.nextOrigin
  fresh : ∀ o ∈ s.origins, o ∉ s.ended
  idle : s.alive = true → s.world.unacked = []

theorem inv_start (app : Store) : Inv (Sys.start app) := by
  refine ⟨List.nodup_nil, ?_, ?_, ?_, fun _ => rfl⟩
  · intro o ho
    cases ho
  · intro o ho
    cases ho
  · intro o ho
    cases ho

/-- The same messages wait, in some order. -/
theorem Inv.of_perm {s s' : Sys} (h : Inv s) (hperm : s'.origins.Perm s.origins)
    (hnext : s'.nextOrigin = s.nextOrigin) (hended : s'.ended = s.ended)
    (hidle : s'.alive = true → s'.world.unacked = []) : Inv s' where
  nodup := hperm.nodup_iff.mpr h.nodup
  origins_lt := by
    intro o ho
    rw [hnext]
    exact h.origins_lt o (hperm.mem_iff.mp ho)
  ended_lt := by
    rw [hnext, hended]
    exact h.ended_lt
  fresh := by
    intro o ho
    rw [hended]
    exact h.fresh o (hperm.mem_iff.mp ho)
  idle := hidle

theorem inv_publish {s : Sys} (h : Inv s) (body : Bytes) (properties : Option Properties) :
    Inv { s with
      world := s.world.published ⟨body, properties, s.nextOrigin⟩
      nextOrigin := s.nextOrigin + 1 } := by
  set s' : Sys := { s with
    world := s.world.published ⟨body, properties, s.nextOrigin⟩
    nextOrigin := s.nextOrigin + 1 } with hs'
  have horigins : s'.origins = s.origins ++ [s.nextOrigin] := by
    simp [hs', Sys.origins, Sys.waiting, World.published]
  have hmem : ∀ o ∈ s'.origins, o ∈ s.origins ∨ o = s.nextOrigin := by
    intro o ho
    rw [horigins] at ho
    simpa using ho
  refine ⟨?_, ?_, fun o ho => Nat.lt_succ_of_lt (h.ended_lt o ho), ?_, h.idle⟩
  · rw [horigins, List.nodup_append]
    refine ⟨h.nodup, List.nodup_singleton _, ?_⟩
    intro o ho o' ho' heq
    rw [List.mem_singleton.mp ho'] at heq
    exact absurd (h.origins_lt o ho) (by omega)
  · intro o ho
    rcases hmem o ho with ho | rfl
    · exact Nat.lt_succ_of_lt (h.origins_lt o ho)
    · exact Nat.lt_succ_self _
  · intro o ho hended
    rcases hmem o ho with ho | rfl
    · exact h.fresh o ho hended
    · exact absurd (h.ended_lt _ hended) (Nat.lt_irrefl _)

theorem inv_restart {s : Sys} (h : Inv s) :
    Inv { s with world := s.world.closed, alive := true } :=
  h.of_perm (by simp [Sys.origins, Sys.waiting, World.closed]) rfl rfl fun _ => rfl

/-- The state after a delivery. -/
def Sys.delivered (x : Externals) (a : Answers) (s : Sys) (m : Msg) (rest : List Msg) : Sys :=
  { s with
    world := (handled x a s.world m rest).1
    ended := if fails x a m s.world.app then m.origin :: s.ended else s.ended
    alive := (handled x a s.world m rest).2 }

theorem step_deliver {s s' : Sys} (hs : step x s (.deliver a) = some s') :
    s.alive = true ∧ ∃ m rest, s.world.ready = m :: rest ∧ s' = s.delivered x a m rest := by
  simp only [step] at hs
  split at hs
  · rename_i halive
    split at hs
    · cases hs
    · rename_i m rest hready
      cases hs
      exact ⟨halive, m, rest, hready, rfl⟩
  · cases hs

theorem Inv.origins_eq {s : Sys} (h : Inv s) (halive : s.alive = true)
    (hready : s.world.ready = m :: rest) :
    s.origins = m.origin :: rest.map (·.origin) := by
  simp [Sys.origins, Sys.waiting, h.idle halive, hready]

theorem inv_deliver {s : Sys} (h : Inv s) (halive : s.alive = true)
    (hready : s.world.ready = m :: rest)
    (hguard : fails x a m s.world.app = true → ¬ Overflows m.headers ∧
      x.maxRetries ≤ countOf m.headers) : Inv (s.delivered x a m rest) := by
  have horigins := h.origins_eq halive hready
  cases left_handled x a m rest (h.idle halive) with
  | settled halive' hunacked hready' hlast =>
      have hrest : (s.delivered x a m rest).origins = rest.map (·.origin) := by
        simp [Sys.delivered, Sys.origins, Sys.waiting, hunacked, hready']
      have hnodup := h.nodup
      rw [horigins, List.nodup_cons] at hnodup
      have hold : ∀ o ∈ rest.map (·.origin), o ∈ s.origins := by
        intro o ho
        rw [horigins]
        exact List.mem_cons_of_mem _ ho
      refine ⟨hrest ▸ hnodup.2, ?_, ?_, ?_, fun _ => hunacked⟩
      · intro o ho
        exact h.origins_lt o (hold o (hrest ▸ ho))
      · intro o ho
        simp only [Sys.delivered] at ho
        split at ho
        · rcases List.mem_cons.mp ho with rfl | ho
          · exact h.origins_lt _ (by rw [horigins]; exact List.mem_cons_self)
          · exact h.ended_lt o ho
        · exact h.ended_lt o ho
      · intro o ho hended
        rw [hrest] at ho
        simp only [Sys.delivered] at hended
        split at hended
        · rcases List.mem_cons.mp hended with rfl | hended
          · exact hnodup.1 ho
          · exact h.fresh o (hold o ho) hended
        · exact h.fresh o (hold o ho) hended
  | requeued halive' hunacked hready' hless =>
      have hno : fails x a m s.world.app = false := by
        rw [← Bool.not_eq_true]
        exact fun hfails => absurd (hguard hfails).2 (not_le.mpr hless)
      refine h.of_perm ?_ rfl (by simp [Sys.delivered, hno]) fun _ => hunacked
      rw [horigins]
      simp [Sys.delivered, Sys.origins, Sys.waiting, hunacked, hready', List.perm_append_singleton]
  | held halive' hunacked hready' hhow =>
      have hno : fails x a m s.world.app = false := by
        rcases hhow with hno | hinf
        · exact hno
        · rw [← Bool.not_eq_true]
          exact fun hfails => (hguard hfails).1 hinf
      refine h.of_perm ?_ rfl (by simp [Sys.delivered, hno]) fun halive'' => ?_
      · rw [horigins]
        simp [Sys.delivered, Sys.origins, Sys.waiting, hunacked, hready']
      · simp only [Sys.delivered, halive'] at halive''
        cases halive''

theorem inv_step {s s' : Sys} {act : Action} (h : Inv s) (hguard : LastDelivery x s act)
    (hs : step x s act = some s') : Inv s' := by
  cases act with
  | publish body properties =>
      cases hs
      exact inv_publish h body properties
  | deliver a =>
      obtain ⟨halive, m, rest, hready, rfl⟩ := step_deliver hs
      refine inv_deliver h halive hready fun hfails => ?_
      exact (hguard m (by simp [hready]) hfails).2
  | restart =>
      cases hs
      exact inv_restart h

/-- **One delivery.** A failure that the worker classifies ends its message exactly when the
counter is at its maximum and the failure is saved. -/
theorem stepOnce_iff {s s' : Sys} {act : Action} (h : Inv s) (hs : step x s act = some s') :
    StepOnce x s act s' ↔ LastDelivery x s act := by
  cases act with
  | publish body properties => exact Iff.rfl
  | restart => exact Iff.rfl
  | deliver a =>
      obtain ⟨halive, m, rest, hready, rfl⟩ := step_deliver hs
      simp only [StepOnce, LastDelivery, hready, List.head?_cons, Option.mem_some_iff,
        forall_eq']
      have hwaits : m.origin ∈ s.origins := by
        rw [h.origins_eq halive hready]
        exact List.mem_cons_self
      constructor
      · intro honce hfails
        obtain ⟨fields, hbody⟩ : ∃ fields, x.loads m.body = some (.obj fields) := by
          unfold fails at hfails
          split at hfails
          · rename_i fields hbody
            exact ⟨fields, hbody⟩
          · cases hfails
        obtain ⟨reason, hgave⟩ := gaveUp_handled rest hfails hbody
        refine ⟨hgave.rowFailed_iff.mp (honce.failed hfails fields hbody), ?_⟩
        have hgone := honce.gone hfails
        cases left_handled x a m rest (h.idle halive) with
        | settled halive' hunacked hready' hlast => exact hlast hfails
        | requeued halive' hunacked hready' hless =>
            refine absurd rfl (hgone m.republished ?_)
            simp [Sys.waiting, Sys.delivered, hready']
        | held halive' hunacked hready' hhow =>
            refine absurd rfl (hgone m ?_)
            simp [Sys.waiting, Sys.delivered, hunacked]
      · intro hguard
        refine ⟨h.fresh _ hwaits, ?_, ?_⟩
        · intro hfails fields hbody
          obtain ⟨reason, hgave⟩ := gaveUp_handled rest hfails hbody
          exact hgave.rowFailed_iff.mpr (hguard hfails).1
        · intro hfails m' hm' hsame
          have hinv := inv_deliver h halive hready fun hfails => (hguard hfails).2
          refine hinv.fresh m'.origin (List.mem_map_of_mem hm') ?_
          simp [Sys.delivered, hfails, hsame]

/-- **When a failure ends its message.** In a run, each failure that the worker classifies leaves
its row failed and its message neither republished nor handled again, exactly when each comes at
the last delivery that the counter allows and is saved. -/
theorem handledOnce_iff {app : Store} {acts : List Action} {s : Sys}
    (hrun : run (step x) (Sys.start app) acts = some s) :
    Along (step x) (StepOnce x) (Sys.start app) acts ↔
      Guarded (step x) (LastDelivery x) (Sys.start app) acts := by
  refine along_iff_guarded (step x) Inv ?_ ?_ (inv_start app) hrun
  · intro s act s' h hs
    exact stepOnce_iff h hs
  · intro s act s' h hguard hs
    exact inv_step h hguard hs

/-- `{"mcr_meeting_id": "12", "user_sub": "u"}` -/
def importBody : Bytes :=
  "\x7b\"mcr_meeting_id\": \"12\", \"user_sub\": \"u\"\x7d".toList.map
    fun c => UInt8.ofNat c.toNat

/-- The standard library on `importBody`, and a number of retries. -/
def externals (maxRetries : Int) : Externals where
  loads _ := some (.obj
    [("mcr_meeting_id".toList, .str "12".toList), ("user_sub".toList, .str "u".toList)])
  str
    | .str s => s
    | _ => []
  uuid _ := none
  maxRetries := maxRetries

/-- The provider refuses the token, or does not answer. -/
def tokenFails (kind : ExcKind) : Answers where
  token := .error ⟨kind, []⟩
  client := none
  audio := .ok ()
  audioStored := .ok ()
  docx := .ok ()
  textStored := .ok ()
  thread := none
  failureSaved := true

/-- A message that is allowed one retry: the provider does not answer, and then refuses. -/
def retriedRun : List Action :=
  [.publish importBody none, .deliver (tokenFails .oidcTransient), .deliver (tokenFails .oidcAuth)]

theorem retriedRun_handledOnce : ∃ s,
    run (step (externals 1)) (Sys.start ⟨[]⟩) retriedRun = some s ∧
    Along (step (externals 1)) (StepOnce (externals 1)) (Sys.start ⟨[]⟩) retriedRun := by
  obtain ⟨s, hrun⟩ : ∃ s, run (step (externals 1)) (Sys.start ⟨[]⟩) retriedRun = some s := ⟨_, rfl⟩
  refine ⟨s, hrun, (handledOnce_iff hrun).mpr ?_⟩
  refine ⟨trivial, fun s hs => ⟨?_, fun s hs => ⟨?_, fun s hs => trivial⟩⟩⟩
  · intro m hm hfails
    cases hs
    cases hm
    -- No answer is no failure that the worker classifies.
    exact absurd hfails (by decide)
  · intro m hm hfails
    rename_i hpublished
    cases hpublished
    cases hs
    cases hm
    have hcount : countOf (some (bumped none)) = 1 := countOf_bumped none
    exact ⟨rfl, not_overflows_bumped none, le_of_eq hcount.symm⟩

/-- **A refused token is asked for again.** The handler returns `False` so that the queue does not
retry, and the queue retries. -/
theorem auth_failure_retried : ¬ ∀ (acts : List Action) (s : Sys),
    run (step (externals 5)) (Sys.start ⟨[]⟩) acts = some s →
      Along (step (externals 5)) (StepOnce (externals 5)) (Sys.start ⟨[]⟩) acts := by
  intro h
  have hrun : ∃ s, run (step (externals 5)) (Sys.start ⟨[]⟩)
      [.publish importBody none, .deliver (tokenFails .oidcAuth)] = some s := ⟨_, rfl⟩
  obtain ⟨s, hrun⟩ := hrun
  obtain ⟨-, honce⟩ := h _ s hrun _ rfl
  have hgone := ((honce _ rfl).1 _ rfl).gone (by decide)
  exact hgone _ List.mem_cons_self rfl

end MesReunions.Mcr
