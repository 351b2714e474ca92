import MesReunions.Queue.Retry

/-!
# The two delivery paths

`libs/shared/app/queue_helper.py`: `consume_queue` (the broker pushes messages
to `_on_message`) and `drain_queue_once` (the program asks for them with
`basic_get`). Both are written here as the source writes them, twice.

* **`World`** — the queue, the deliveries not yet acknowledged, what the
  callbacks act on, and a log of everything that happened.
* **`Eff`** — a computation on a world that may raise; what it did before
  raising stays done.

Broker calls themselves succeed. The callback and `on_give_up` are arbitrary
actions on their own state, so the outcome may differ at every delivery.
-/

namespace MesReunions.Queue

/-! ## Messages -/

/-- `pika.BasicProperties`, the fields the helper reads or writes. -/
structure Properties where
  deliveryMode : Option Nat
  contentType : Option Str
  headers : Option Headers

/-- A message as the broker holds it. `origin` is not on the wire: it names the
message first published, and a republished copy keeps it. -/
structure Msg where
  body : Bytes
  properties : Option Properties
  origin : Nat

def Msg.headers (m : Msg) : Option Headers := m.properties.bind (·.headers)

/-- A message in the hands of a consumer. -/
structure Delivery where
  tag : Nat
  msg : Msg

/-! ## The world -/

inductive Event where
  | deliver (d : Delivery)
  | callback (origin : Nat) (message : Json) (success : Bool)
  | publish (m : Msg)
  | ack (tag : Nat)
  | giveUp (origin : Nat) (message : Json) (count : Int)

structure World (σ : Type) where
  /-- What the callback and `on_give_up` act on. -/
  app : σ
  /-- The queue, oldest message first. -/
  ready : List Msg
  unacked : List Delivery
  nextTag : Nat
  log : List Event

/-- A fresh channel on a queue. -/
def World.start {σ : Type} (app : σ) (ready : List Msg) : World σ :=
  { app, ready, unacked := [], nextTag := 1, log := [] }

abbrev Eff (σ : Type) := EStateM PyError (World σ)

/-- What an application hands to the helper. -/
structure Policy (ε σ : Type) where
  /-- `json.loads`; `none` is any exception. -/
  loads : Bytes → Option Json
  callback : Json → EStateM ε σ Bool
  maxRetries : Int
  onGiveUp : Option (Json → Int → EStateM ε σ Unit)

section Calls

variable {ε σ : Type}

def World.delivered (w : World σ) (m : Msg) (rest : List Msg) : World σ :=
  { w with ready := rest, unacked := w.unacked ++ [⟨w.nextTag, m⟩],
           nextTag := w.nextTag + 1, log := w.log ++ [.deliver ⟨w.nextTag, m⟩] }

def World.acked (w : World σ) (tag : Nat) : World σ :=
  { w with unacked := w.unacked.filter (·.tag ≠ tag), log := w.log ++ [.ack tag] }

def World.published (w : World σ) (m : Msg) : World σ :=
  { w with ready := w.ready ++ [m], log := w.log ++ [.publish m] }

/-- What is not acknowledged goes back where it was. -/
def World.closed (w : World σ) : World σ :=
  { w with ready := w.unacked.map (·.msg) ++ w.ready, unacked := [] }

/-- `channel.basic_get(queue, auto_ack=False)`, and also the broker's own move
when it pushes the next message to a consumer. -/
def basicGet : Eff σ (Option Delivery) := fun w =>
  match w.ready with
  | [] => .ok none w
  | m :: rest => .ok (some ⟨w.nextTag, m⟩) (w.delivered m rest)

/-- `basic_ack(delivery_tag)` -/
def basicAck (tag : Nat) : Eff σ Unit := modify (·.acked tag)

/-- `basic_publish(exchange="", routing_key=queue, ...)` -/
def basicPublish (m : Msg) : Eff σ Unit := modify (·.published m)

/-- `conn.close()` -/
def connClose : Eff σ Unit := modify (·.closed)

/-- `message.get("file_id", "?")`, evaluated for the log line. -/
def messageGet : Json → Eff σ Unit
  | .obj _ => pure ()
  | _ => throw .attributeError

/-- `try: success = callback(message)`, `except Exception: success = False`. -/
def Policy.success (p : Policy ε σ) (origin : Nat) (message : Json) : Eff σ Bool := fun w =>
  match p.callback message w.app with
  | .ok b app => .ok b { w with app, log := w.log ++ [.callback origin message b] }
  | .error _ app => .ok false { w with app, log := w.log ++ [.callback origin message false] }

/-- `on_give_up(message, count)` when there is one; its exceptions are logged. -/
def Policy.giveUp (p : Policy ε σ) (origin : Nat) (message : Json) (count : Int) :
    Eff σ Unit := fun w =>
  match p.onGiveUp with
  | none => .ok () w
  | some f =>
      let log := w.log ++ [.giveUp origin message count]
      match f message count w.app with
      | .ok _ app => .ok () { w with app, log }
      | .error _ app => .ok () { w with app, log }

/-! ## `consume_queue` -/

/-- `_republish_or_drop(ch, method, properties, body, message)` -/
def republishOrDrop (p : Policy ε σ) (d : Delivery) (message : Json) : Eff σ Unit := do
  let properties := d.msg.properties
  let headers := properties.bind (·.headers)
  let (shouldRetry, newHeaders, count) ←
    MonadExcept.ofExcept (nextRetryDecision headers p.maxRetries)
  if shouldRetry then
    basicPublish
      { body := d.msg.body
        properties := some
          { deliveryMode := some 2
            contentType := match properties with
              | some props => props.contentType
              | none => some "application/json".toList
            headers := some newHeaders }
        origin := d.msg.origin }
    basicAck d.tag
    messageGet message
    return
  basicAck d.tag
  messageGet message
  p.giveUp d.msg.origin message count

/-- `_on_message(ch, method, properties, body)` -/
def onMessage (p : Policy ε σ) (d : Delivery) : Eff σ Unit :=
  match p.loads d.msg.body with
  | none => basicAck d.tag
  | some message => do
      messageGet message
      let success ← p.success d.msg.origin message
      if success then
        basicAck d.tag
        return
      republishOrDrop p d message

/-- `channel.start_consuming()` until the queue is idle: the broker hands over
one message at a time. `none` is a run cut short by `fuel`. -/
def consumeLoop (p : Policy ε σ) : (fuel handled : Nat) → Eff σ (Option Nat)
  | 0, _ => pure none
  | fuel + 1, handled => do
      match ← basicGet with
      | none => pure (some handled)
      | some d =>
          onMessage p d
          consumeLoop p fuel (handled + 1)

/-! ## `drain_queue_once` -/

/-- The body of the `while True` loop, after `basic_get` gave a message. -/
def drainBody (p : Policy ε σ) (d : Delivery) : Eff σ Unit :=
  match p.loads d.msg.body with
  | none => basicAck d.tag
  | some message => do
      messageGet message
      if ← p.success d.msg.origin message then
        basicAck d.tag
      else
        let properties := d.msg.properties
        let headers := properties.bind (·.headers)
        let (shouldRetry, newHeaders, count) ←
          MonadExcept.ofExcept (nextRetryDecision headers p.maxRetries)
        if shouldRetry then
          basicPublish
            { body := d.msg.body
              properties := some
                { deliveryMode := some 2
                  contentType := match properties with
                    | some props => props.contentType
                    | none => some "application/json".toList
                  headers := some newHeaders }
              origin := d.msg.origin }
          basicAck d.tag
          messageGet message
        else
          basicAck d.tag
          messageGet message
          p.giveUp d.msg.origin message count

/-- The `while True` loop. `none` is a run cut short by `fuel`. -/
def drainLoop (p : Policy ε σ) : (fuel handled : Nat) → Eff σ (Option Nat)
  | 0, _ => pure none
  | fuel + 1, handled => do
      match ← basicGet with
      | none => pure (some handled)
      | some d =>
          drainBody p d
          drainLoop p fuel (handled + 1)

/-- `drain_queue_once(cfg, queue, callback, max_retries, on_give_up)` -/
def drainQueueOnce (p : Policy ε σ) (fuel : Nat) : Eff σ (Option Nat) := do
  let handled ←
    try drainLoop p fuel 0
    catch e => do
      connClose
      throw e
  connClose
  return handled

end Calls

end MesReunions.Queue
