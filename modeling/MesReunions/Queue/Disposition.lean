import MesReunions.Queue.Delivery

/-!
# One disposition for each delivery

* **`Handling`** — everything one delivery can come to, by named cases; both
  paths are shown to do exactly that, and so to be the same function.
* **`Meets`** — the deliveries that are disposed of: the body is not JSON, or it
  is an object and, should the callback fail, the counter can be read.
* **`disposed_iff`** — a delivery, a run of pushes, or a drain is disposed of
  exactly when its deliveries meet that condition.
-/

namespace MesReunions.Queue

variable {ε σ : Type}

/-! ## What one delivery comes to -/

def appAfter {α : Type} : EStateM.Result ε σ α → σ
  | .ok _ app => app
  | .error _ app => app

/-- Whether the callback reports success on this message in this state. -/
def Policy.outcome (p : Policy ε σ) (message : Json) (app : σ) : Bool :=
  match p.callback message app with
  | .ok b _ => b
  | .error _ _ => false

/-- The world once the callback has run. -/
def Policy.called (p : Policy ε σ) (origin : Nat) (message : Json) (w : World σ) : World σ :=
  { w with app := appAfter (p.callback message w.app),
           log := w.log ++ [.callback origin message (p.outcome message w.app)] }

/-- The world once the application has been told. -/
def Policy.gaveUp (p : Policy ε σ) (origin : Nat) (message : Json) (count : Int)
    (w : World σ) : World σ :=
  match p.onGiveUp with
  | none => w
  | some f => { w with app := appAfter (f message count w.app),
                       log := w.log ++ [.giveUp origin message count] }

/-- The copy that goes back into the queue. -/
def Msg.republished (m : Msg) : Msg :=
  { body := m.body
    properties := some
      { deliveryMode := some 2
        contentType := match m.properties with
          | some props => props.contentType
          | none => some "application/json".toList
        headers := some (bumped m.headers) }
    origin := m.origin }

/-- Everything a delivery can come to. -/
inductive Handling (p : Policy ε σ) (d : Delivery) (w : World σ) :
    EStateM.Result PyError (World σ) Unit → Prop where
  | unparseable (hbody : p.loads d.msg.body = none) :
      Handling p d w (.ok () (w.acked d.tag))
  | notObject (message : Json) (hbody : p.loads d.msg.body = some message)
      (hobj : message.isObj = false) :
      Handling p d w (.error .attributeError w)
  | done (message : Json) (hbody : p.loads d.msg.body = some message)
      (hobj : message.isObj = true) (hout : p.outcome message w.app = true) :
      Handling p d w (.ok () ((p.called d.msg.origin message w).acked d.tag))
  | escaped (message : Json) (hbody : p.loads d.msg.body = some message)
      (hobj : message.isObj = true) (hout : p.outcome message w.app = false)
      (hinf : Overflows d.msg.headers) :
      Handling p d w (.error .overflowError (p.called d.msg.origin message w))
  | dropped (message : Json) (hbody : p.loads d.msg.body = some message)
      (hobj : message.isObj = true) (hout : p.outcome message w.app = false)
      (hinf : ¬ Overflows d.msg.headers) (hmax : p.maxRetries ≤ countOf d.msg.headers) :
      Handling p d w (.ok () (p.gaveUp d.msg.origin message (countOf d.msg.headers)
        ((p.called d.msg.origin message w).acked d.tag)))
  | requeued (message : Json) (hbody : p.loads d.msg.body = some message)
      (hobj : message.isObj = true) (hout : p.outcome message w.app = false)
      (hinf : ¬ Overflows d.msg.headers) (hmax : countOf d.msg.headers < p.maxRetries) :
      Handling p d w (.ok ()
        (((p.called d.msg.origin message w).published d.msg.republished).acked d.tag))

theorem success_eq (p : Policy ε σ) (origin : Nat) (message : Json) (w : World σ) :
    p.success origin message w =
      .ok (p.outcome message w.app) (p.called origin message w) := by
  unfold Policy.success Policy.called Policy.outcome appAfter
  cases p.callback message w.app <;> rfl

theorem giveUp_eq (p : Policy ε σ) (origin : Nat) (message : Json) (count : Int)
    (w : World σ) :
    p.giveUp origin message count w = .ok () (p.gaveUp origin message count w) := by
  unfold Policy.giveUp Policy.gaveUp
  cases p.onGiveUp with
  | none => rfl
  | some f =>
      unfold appAfter
      dsimp only
      cases f message count w.app <;> rfl

theorem bind_ok {α β : Type} {x : Eff σ α} {f : α → Eff σ β} {w w' : World σ} {a : α}
    (h : x w = .ok a w') : (x >>= f) w = f a w' := by
  simp only [bind, EStateM.bind, h]

theorem bind_error {α β : Type} {x : Eff σ α} {f : α → Eff σ β} {w w' : World σ}
    {e : PyError} (h : x w = .error e w') : (x >>= f) w = .error e w' := by
  simp only [bind, EStateM.bind, h]

theorem messageGet_of_isObj {message : Json} (h : message.isObj = true) :
    (messageGet message : Eff σ Unit) = pure () := by
  cases message <;> first | rfl | cases h

theorem messageGet_of_not {message : Json} (h : message.isObj = false) (w : World σ) :
    messageGet message w = .error .attributeError w := by
  cases message <;> first | rfl | cases h

/-- What either path does once the callback has failed on an object. -/
theorem republishOrDrop_handling {p : Policy ε σ} {d : Delivery} {message : Json}
    {w : World σ} (hbody : p.loads d.msg.body = some message)
    (hobj : message.isObj = true) (hout : p.outcome message w.app = false) :
    Handling p d w (republishOrDrop p d message (p.called d.msg.origin message w)) := by
  unfold republishOrDrop
  simp only [messageGet_of_isObj hobj]
  by_cases hinf : Overflows d.msg.headers
  · rw [show d.msg.properties.bind (·.headers) = d.msg.headers from rfl,
      nextRetryDecision_of_overflows hinf]
    exact .escaped message hbody hobj hout hinf
  · rw [show d.msg.properties.bind (·.headers) = d.msg.headers from rfl,
      nextRetryDecision_of_not hinf]
    by_cases hmax : p.maxRetries ≤ countOf d.msg.headers
    · rw [if_pos hmax]
      have hgive := giveUp_eq p d.msg.origin message (countOf d.msg.headers)
        ((p.called d.msg.origin message w).acked d.tag)
      have h := Handling.dropped message hbody hobj hout hinf hmax
      rw [← hgive] at h
      exact h
    · rw [if_neg hmax]
      exact .requeued message hbody hobj hout hinf (not_le.mp hmax)

/-- **The push path.** `_on_message` does what `Handling` lists. -/
theorem onMessage_handling (p : Policy ε σ) (d : Delivery) (w : World σ) :
    Handling p d w (onMessage p d w) := by
  unfold onMessage
  cases hbody : p.loads d.msg.body with
  | none => exact .unparseable hbody
  | some message =>
      cases hobj : message.isObj with
      | false =>
          dsimp only
          rw [bind_error (messageGet_of_not hobj w)]
          exact .notObject message hbody hobj
      | true =>
          dsimp only
          rw [messageGet_of_isObj hobj, pure_bind,
            bind_ok (success_eq p d.msg.origin message w)]
          cases hout : p.outcome message w.app with
          | true => exact .done message hbody hobj hout
          | false => exact republishOrDrop_handling hbody hobj hout

/-- **One policy, written twice.** The body of the drain loop is `_on_message`. -/
theorem drainBody_eq_onMessage (p : Policy ε σ) : drainBody p = onMessage p := by
  funext d
  unfold drainBody onMessage republishOrDrop
  cases p.loads d.msg.body with
  | none => rfl
  | some message => simp only [bind_pure_unit]

/-! ## Dispositions -/

/-- A call that settles a delivery with the broker. -/
def Event.isBrokerCall : Event → Bool
  | .publish _ => true
  | .ack _ => true
  | _ => false

/-- `m'` is `m` once more, its counter one further. -/
structure IsRetryOf (m' m : Msg) : Prop where
  body : m'.body = m.body
  counter : retryField (m'.headers.getD ∅) = .int (countOf m.headers + 1)
  others : ∀ key, key ≠ retryHeader →
    (m'.headers.getD ∅).lookup key = (m.headers.getD ∅).lookup key

/-- Among what was logged for a delivery: one acknowledgement, after at most one
republication. -/
inductive Disposition (d : Delivery) (seg : List Event) : Prop where
  | acked (h : seg.filter Event.isBrokerCall = [.ack d.tag])
  | republished (m' : Msg) (h : seg.filter Event.isBrokerCall = [.publish m', .ack d.tag])
      (hm : IsRetryOf m' d.msg)

/-- Between two worlds a delivery was settled, and nothing else. -/
structure Settled (d : Delivery) (w w' : World σ) : Prop where
  log : ∃ seg, w'.log = w.log ++ seg ∧ Disposition d seg
  unacked : w'.unacked = w.unacked.filter (·.tag ≠ d.tag)

/-- The handler returns, having disposed of the delivery. -/
def Disposes (handler : Delivery → Eff σ Unit) (d : Delivery) (w : World σ) : Prop :=
  ∃ w', handler d w = .ok () w' ∧ Settled d w w'

/-- The deliveries that are disposed of: the body is not JSON, or it is an object
and, should the callback fail, the counter does not hold an infinite float. -/
def Meets (p : Policy ε σ) (app : σ) (m : Msg) : Prop :=
  ∀ message, p.loads m.body = some message →
    message.isObj = true ∧ (p.outcome message app = false → ¬ Overflows m.headers)

theorem isRetryOf_republished (m : Msg) : IsRetryOf m.republished m where
  body := rfl
  counter := by simp [Msg.headers, Msg.republished, bumped, retryField]
  others key hkey := AList.lookup_insert_ne hkey

@[simp] theorem gaveUp_ready (p : Policy ε σ) (o : Nat) (message : Json) (count : Int)
    (w : World σ) : (p.gaveUp o message count w).ready = w.ready := by
  unfold Policy.gaveUp; split <;> rfl

@[simp] theorem gaveUp_unacked (p : Policy ε σ) (o : Nat) (message : Json) (count : Int)
    (w : World σ) : (p.gaveUp o message count w).unacked = w.unacked := by
  unfold Policy.gaveUp; split <;> rfl

/-- What `on_give_up` leaves in the log. -/
def Policy.giveUpEvents (p : Policy ε σ) (o : Nat) (message : Json) (count : Int) :
    List Event :=
  if p.onGiveUp.isSome then [.giveUp o message count] else []

@[simp] theorem gaveUp_log (p : Policy ε σ) (o : Nat) (message : Json) (count : Int)
    (w : World σ) :
    (p.gaveUp o message count w).log = w.log ++ p.giveUpEvents o message count := by
  unfold Policy.gaveUp Policy.giveUpEvents
  cases p.onGiveUp <;> simp

theorem giveUpEvents_broker (p : Policy ε σ) (o : Nat) (message : Json) (count : Int) :
    (p.giveUpEvents o message count).filter Event.isBrokerCall = [] := by
  unfold Policy.giveUpEvents
  split <;> simp [Event.isBrokerCall]

/-- A delivery that comes to a normal end is settled. -/
theorem Handling.settled {p : Policy ε σ} {d : Delivery} {w w' : World σ}
    (h : Handling p d w (.ok () w')) : Settled d w w' := by
  cases h with
  | unparseable hbody =>
      exact ⟨⟨[.ack d.tag], rfl, .acked rfl⟩, rfl⟩
  | done message hbody hobj hout =>
      refine ⟨⟨[.callback d.msg.origin message (p.outcome message w.app), .ack d.tag], ?_,
        .acked rfl⟩, rfl⟩
      simp [Policy.called, World.acked]
  | dropped message hbody hobj hout hinf hmax =>
      refine ⟨⟨[.callback d.msg.origin message (p.outcome message w.app), .ack d.tag] ++
        p.giveUpEvents d.msg.origin message (countOf d.msg.headers), ?_, .acked ?_⟩, ?_⟩
      · simp [Policy.called, World.acked]
      · rw [List.filter_append, giveUpEvents_broker]
        rfl
      · simp [Policy.called, World.acked]
  | requeued message hbody hobj hout hinf hmax =>
      refine ⟨⟨[.callback d.msg.origin message (p.outcome message w.app),
        .publish d.msg.republished, .ack d.tag], ?_,
        .republished _ rfl (isRetryOf_republished d.msg)⟩, rfl⟩
      simp [Policy.called, World.acked, World.published]

/-- A delivery comes to a normal end exactly when it meets the condition. -/
theorem Handling.ok_iff {p : Policy ε σ} {d : Delivery} {w : World σ}
    {r : EStateM.Result PyError (World σ) Unit} (h : Handling p d w r) :
    (∃ w', r = .ok () w') ↔ Meets p w.app d.msg := by
  cases h with
  | unparseable hbody => simp [Meets, hbody]
  | notObject message hbody hobj => simp [Meets, hbody, hobj]
  | done message hbody hobj hout => simp [Meets, hbody, hobj, hout]
  | escaped message hbody hobj hout hinf => simp [Meets, hbody, hobj, hout, hinf]
  | dropped message hbody hobj hout hinf hmax => simp [Meets, hbody, hobj, hinf]
  | requeued message hbody hobj hout hinf hmax => simp [Meets, hbody, hobj, hinf]

theorem onMessage_disposes_iff (p : Policy ε σ) (d : Delivery) (w : World σ) :
    Disposes (onMessage p) d w ↔ Meets p w.app d.msg := by
  have hcases := onMessage_handling p d w
  rw [← hcases.ok_iff]
  constructor
  · rintro ⟨w', hok, -⟩
    exact ⟨w', hok⟩
  · rintro ⟨w', hok⟩
    rw [hok] at hcases
    exact ⟨w', hok, hcases.settled⟩

/-! ## Runs -/

/-- A log made of deliveries, each followed by its disposition. -/
inductive WellDisposed : List Event → Prop where
  | nil : WellDisposed []
  | cons (d : Delivery) (seg rest : List Event) (hseg : Disposition d seg)
      (hrest : WellDisposed rest) : WellDisposed (.deliver d :: seg ++ rest)

/-- The run has raised nothing, holds no delivery back, and has disposed of each
one it received. -/
def RunDisposes (run : Eff σ (Option Nat)) (w : World σ) : Prop :=
  ∃ handled w' log, run w = .ok handled w' ∧ w'.unacked = [] ∧
    w'.log = w.log ++ log ∧ WellDisposed log

/-- The world after the next message has been received and handled. -/
def served (p : Policy ε σ) (w : World σ) : World σ :=
  match w.ready with
  | [] => w
  | m :: rest => appAfter (onMessage p ⟨w.nextTag, m⟩ (w.delivered m rest))

/-- The first `n` deliveries of the run from `w` meet the condition. -/
def MeetsFor (p : Policy ε σ) : Nat → World σ → Prop
  | 0, _ => True
  | n + 1, w =>
      match w.ready with
      | [] => True
      | m :: _ => Meets p w.app m ∧ MeetsFor p n (served p w)

theorem consumeLoop_nil {p : Policy ε σ} {n k : Nat} {w : World σ} (h : w.ready = []) :
    consumeLoop p (n + 1) k w = .ok (some k) w := by
  have hget : (basicGet : Eff σ _) w = .ok none w := by simp only [basicGet, h]
  unfold consumeLoop
  rw [bind_ok hget]
  rfl

theorem consumeLoop_cons {p : Policy ε σ} {n k : Nat} {w : World σ} {m : Msg}
    {rest : List Msg} (h : w.ready = m :: rest) :
    consumeLoop p (n + 1) k w =
      (onMessage p ⟨w.nextTag, m⟩ >>= fun _ => consumeLoop p n (k + 1))
        (w.delivered m rest) := by
  have hget : (basicGet : Eff σ _) w = .ok (some ⟨w.nextTag, m⟩) (w.delivered m rest) := by
    simp only [basicGet, h]
  rw [consumeLoop, bind_ok hget]

theorem drainLoop_eq_consumeLoop (p : Policy ε σ) :
    ∀ n k, drainLoop p n k = consumeLoop p n k
  | 0, _ => rfl
  | n + 1, k => by
      unfold drainLoop consumeLoop
      congr 1
      funext got
      cases got with
      | none => rfl
      | some d => simp only [drainBody_eq_onMessage, drainLoop_eq_consumeLoop p n]

/-- What one turn of the loop does when its delivery meets the condition. -/
theorem served_settled {p : Policy ε σ} {w : World σ} {m : Msg} {rest : List Msg}
    (hready : w.ready = m :: rest) (hm : Meets p w.app m) :
    onMessage p ⟨w.nextTag, m⟩ (w.delivered m rest) = .ok () (served p w) ∧
      Settled ⟨w.nextTag, m⟩ (w.delivered m rest) (served p w) := by
  obtain ⟨w', hok, hset⟩ :=
    (onMessage_disposes_iff p ⟨w.nextTag, m⟩ (w.delivered m rest)).mpr hm
  have hserved : served p w = w' := by simp only [served, hready, hok, appAfter]
  rw [hserved]
  exact ⟨hok, hset⟩

theorem runDisposes_of_meetsFor {p : Policy ε σ} :
    ∀ {n k : Nat} {w : World σ}, w.unacked = [] → MeetsFor p n w →
      RunDisposes (consumeLoop p n k) w
  | 0, k, w, hun, _ => ⟨none, w, [], rfl, hun, by simp, .nil⟩
  | n + 1, k, w, hun, hmeets => by
      cases hready : w.ready with
      | nil => exact ⟨some k, w, [], consumeLoop_nil hready, hun, by simp, .nil⟩
      | cons m rest =>
          simp only [MeetsFor, hready] at hmeets
          obtain ⟨hm, hmore⟩ := hmeets
          obtain ⟨hok, ⟨seg, hlog, hseg⟩, hunacked⟩ := served_settled hready hm
          have hun' : (served p w).unacked = [] := by
            rw [hunacked]
            simp [World.delivered, hun]
          obtain ⟨handled, w', log, hrun, hend, hlog', hwell⟩ :=
            runDisposes_of_meetsFor (k := k + 1) hun' hmore
          refine ⟨handled, w', .deliver ⟨w.nextTag, m⟩ :: seg ++ log, ?_, hend, ?_,
            .cons _ seg log hseg hwell⟩
          · rw [consumeLoop_cons hready, bind_ok hok, hrun]
          · rw [hlog', hlog]
            simp [World.delivered]

theorem consumeLoop_raises {p : Policy ε σ} :
    ∀ {n k : Nat} {w : World σ}, ¬ MeetsFor p n w →
      ∃ e w', consumeLoop p n k w = .error e w'
  | 0, _, _, h => absurd trivial h
  | n + 1, k, w, h => by
      cases hready : w.ready with
      | nil => simp [MeetsFor, hready] at h
      | cons m rest =>
          simp only [MeetsFor, hready, not_and] at h
          rw [consumeLoop_cons hready]
          by_cases hm : Meets p w.app m
          · obtain ⟨e, w', hrun⟩ := consumeLoop_raises (k := k + 1) (h hm)
            exact ⟨e, w', by rw [bind_ok (served_settled hready hm).1, hrun]⟩
          · have hcases := onMessage_handling p ⟨w.nextTag, m⟩ (w.delivered m rest)
            have hno := mt hcases.ok_iff.mp hm
            cases hr : onMessage p ⟨w.nextTag, m⟩ (w.delivered m rest) with
            | ok _ w' => exact absurd ⟨w', hr⟩ hno
            | error e w' => exact ⟨e, w', bind_error hr⟩

theorem consume_disposes_iff (p : Policy ε σ) (n : Nat) (app : σ) (queue : List Msg) :
    RunDisposes (consumeLoop p n 0) (World.start app queue) ↔
      MeetsFor p n (World.start app queue) := by
  constructor
  · rintro ⟨handled, w', log, hrun, -⟩
    by_contra hno
    obtain ⟨e, w'', hraise⟩ := consumeLoop_raises (k := 0) hno
    rw [hrun] at hraise
    cases hraise
  · exact runDisposes_of_meetsFor rfl

theorem drainQueueOnce_ok {p : Policy ε σ} {n : Nat} {w w' : World σ} {handled : Option Nat}
    (h : consumeLoop p n 0 w = .ok handled w') :
    drainQueueOnce p n w = .ok handled w'.closed := by
  simp [drainQueueOnce, drainLoop_eq_consumeLoop, h, tryCatch, tryCatchThe,
    MonadExceptOf.tryCatch, EStateM.tryCatch, bind, EStateM.bind, connClose, modify,
    modifyGet, MonadStateOf.modifyGet, EStateM.modifyGet, pure, EStateM.pure]

theorem drainQueueOnce_error {p : Policy ε σ} {n : Nat} {w w' : World σ} {e : PyError}
    (h : consumeLoop p n 0 w = .error e w') :
    drainQueueOnce p n w = .error e w'.closed := by
  simp [drainQueueOnce, drainLoop_eq_consumeLoop, h, tryCatch, tryCatchThe,
    MonadExceptOf.tryCatch, EStateM.tryCatch, bind, EStateM.bind, connClose, modify,
    modifyGet, MonadStateOf.modifyGet, EStateM.modifyGet, throw, throwThe,
    MonadExceptOf.throw, EStateM.throw]
  rfl

theorem drain_disposes_iff (p : Policy ε σ) (n : Nat) (app : σ) (queue : List Msg) :
    RunDisposes (drainQueueOnce p n) (World.start app queue) ↔
      MeetsFor p n (World.start app queue) := by
  constructor
  · rintro ⟨handled, w', log, hrun, -⟩
    by_contra hno
    obtain ⟨e, w'', hraise⟩ := consumeLoop_raises (k := 0) hno
    rw [drainQueueOnce_error hraise] at hrun
    cases hrun
  · intro hmeets
    obtain ⟨handled, w', log, hrun, hun, hlog, hwell⟩ :=
      runDisposes_of_meetsFor (k := 0) rfl hmeets
    exact ⟨handled, w'.closed, log, drainQueueOnce_ok hrun, rfl, hlog, hwell⟩

/-- **When every delivery gets one disposition.** For both delivery paths: a
delivery is disposed of exactly when its body is not JSON or is an object, and
its counter can be read if the callback fails; a run of any length disposes of
all it receives exactly when every delivery of the run is such. -/
theorem disposed_iff (p : Policy ε σ) :
    (∀ d w, Disposes (onMessage p) d w ↔ Meets p w.app d.msg) ∧
    (∀ d w, Disposes (drainBody p) d w ↔ Meets p w.app d.msg) ∧
    (∀ n app queue, RunDisposes (consumeLoop p n 0) (World.start app queue) ↔
      MeetsFor p n (World.start app queue)) ∧
    (∀ n app queue, RunDisposes (drainQueueOnce p n) (World.start app queue) ↔
      MeetsFor p n (World.start app queue)) := by
  refine ⟨onMessage_disposes_iff p, ?_, consume_disposes_iff p, drain_disposes_iff p⟩
  rw [drainBody_eq_onMessage]
  exact onMessage_disposes_iff p

/-- An application whose callback accepts everything. -/
def acceptAll (maxRetries : Int) : Policy Unit Unit where
  loads := Json.loads 1000
  callback _ := pure true
  maxRetries := maxRetries
  onGiveUp := none

/-- **A message that is no object.** The body `[]` is valid JSON; both paths raise
on it before any call to the broker, whatever the callback would do. -/
theorem list_body_not_disposed :
    ¬ Disposes (onMessage (acceptAll 5)) ⟨1, ⟨[0x5b, 0x5d], none, 0⟩⟩
        (World.start () []) ∧
    ¬ Disposes (drainBody (acceptAll 5)) ⟨1, ⟨[0x5b, 0x5d], none, 0⟩⟩
        (World.start () []) ∧
    ¬ RunDisposes (drainQueueOnce (acceptAll 5) 2)
        (World.start () [⟨[0x5b, 0x5d], none, 0⟩]) := by
  have hloads : (acceptAll 5).loads [0x5b, 0x5d] = some (.list []) := rfl
  have hno : ¬ Meets (acceptAll 5) () ⟨[0x5b, 0x5d], none, 0⟩ := fun h => by
    simpa [Json.isObj] using (h _ hloads).1
  rw [drainBody_eq_onMessage]
  refine ⟨mt (onMessage_disposes_iff _ _ _).mp hno, mt (onMessage_disposes_iff _ _ _).mp hno,
    mt (drain_disposes_iff _ _ _ _).mp fun h => hno h.1⟩

end MesReunions.Queue
