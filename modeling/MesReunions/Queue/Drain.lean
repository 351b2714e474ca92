import MesReunions.Queue.Disposition

/-!
# Draining ends, and push and pull agree

The loop of `drain_queue_once` appends to the queue it empties, so its end rests
on a measure: `work`, the deliveries every queued message may still need.

* **`Turn`** — what one delivery of an object does to the queue and to the log.
* **`drains_iff`** — the drain ends with an empty queue, each message within its
  budget and ended once, exactly when the first delivery of each message can be
  disposed of.
-/

namespace MesReunions.Queue

variable {ε σ : Type}

/-! ## Budgets and counts -/

/-- The retries a message has left. -/
def Policy.budget (p : Policy ε σ) (m : Msg) : Nat := (p.maxRetries - countOf m.headers).toNat

/-- The deliveries the queue may still take. -/
def Policy.work (p : Policy ε σ) (queue : List Msg) : Nat :=
  (queue.map fun m => p.budget m + 1).sum

/-- The same, for the copies of one message. -/
def Policy.workOf (p : Policy ε σ) (i : Nat) (queue : List Msg) : Nat :=
  (queue.map fun m => if m.origin = i then p.budget m + 1 else 0).sum

def Event.isCallback (i : Nat) : Event → Bool
  | .callback origin _ _ => origin == i
  | _ => false

def Event.isSuccess (i : Nat) : Event → Bool
  | .callback origin _ success => origin == i && success
  | _ => false

def Event.isGiveUp (i : Nat) : Event → Bool
  | .giveUp origin _ _ => origin == i
  | _ => false

/-- How often the callback ran on message `i`. -/
def callbacks (i : Nat) (log : List Event) : Nat := log.countP (Event.isCallback i)

def successes (i : Nat) (log : List Event) : Nat := log.countP (Event.isSuccess i)

def giveUps (i : Nat) (log : List Event) : Nat := log.countP (Event.isGiveUp i)

def copies (i : Nat) (queue : List Msg) : Nat := queue.countP (·.origin == i)

/-! ## One turn -/

/-- The body is a JSON object. -/
def Policy.IsObjectBody (p : Policy ε σ) (m : Msg) : Prop :=
  ∃ message, p.loads m.body = some message ∧ message.isObj = true

/-- What handling `m`, the head of the queue `m :: rest`, does. -/
inductive Turn (p : Policy ε σ) (m : Msg) (rest : List Msg) (tag : Nat) (w w' : World σ) :
    Prop where
  | done (message : Json) (hready : w'.ready = rest)
      (hlog : w'.log = w.log ++
        [.deliver ⟨tag, m⟩, .callback m.origin message true, .ack tag])
  | dropped (message : Json) (hmax : p.maxRetries ≤ countOf m.headers)
      (hready : w'.ready = rest)
      (hlog : w'.log = w.log ++
        ([.deliver ⟨tag, m⟩, .callback m.origin message false, .ack tag] ++
          p.giveUpEvents m.origin message (countOf m.headers)))
  | requeued (message : Json) (hmax : countOf m.headers < p.maxRetries)
      (hready : w'.ready = rest ++ [m.republished])
      (hlog : w'.log = w.log ++
        [.deliver ⟨tag, m⟩, .callback m.origin message false, .publish m.republished, .ack tag])

theorem served_turn {p : Policy ε σ} {w : World σ} {m : Msg} {rest : List Msg}
    (hready : w.ready = m :: rest) (hobj : p.IsObjectBody m) (hm : Meets p w.app m) :
    Turn p m rest w.nextTag w (served p w) := by
  obtain ⟨message, hbody, hmsg⟩ := hobj
  have hok := (served_settled hready hm).1
  have hcases := onMessage_handling p ⟨w.nextTag, m⟩ (w.delivered m rest)
  rw [hok] at hcases
  generalize served p w = w' at hcases ⊢
  cases hcases with
  | unparseable hnone => rw [hbody] at hnone; cases hnone
  | done message hbody hobj hout =>
      refine .done message rfl ?_
      have hout : p.outcome message w.app = true := hout
      simp [Policy.called, World.acked, World.delivered, hout]
  | dropped message hbody hobj hout hinf hmax =>
      refine .dropped message hmax ?_ ?_
      · simp [Policy.called, World.acked, World.delivered]
      · have hout : p.outcome message w.app = false := hout
        simp [Policy.called, World.acked, World.delivered, hout]
  | requeued message hbody hobj hout hinf hmax =>
      refine .requeued message hmax rfl ?_
      have hout : p.outcome message w.app = false := hout
      simp [Policy.called, World.acked, World.published, World.delivered, hout]

@[simp] theorem republished_origin (m : Msg) : m.republished.origin = m.origin := rfl

theorem budget_republished {p : Policy ε σ} {m : Msg} (h : countOf m.headers < p.maxRetries) :
    p.budget m.republished + 1 = p.budget m := by
  have hcount : countOf m.republished.headers = countOf m.headers + 1 :=
    countOf_bumped m.headers
  unfold Policy.budget
  rw [hcount]
  omega

/-- **The measure.** A turn uses up at least one delivery. -/
theorem Turn.work_lt {p : Policy ε σ} {m : Msg} {rest : List Msg} {tag : Nat}
    {w w' : World σ} (h : Turn p m rest tag w w') (hready : w.ready = m :: rest) :
    p.work w'.ready < p.work w.ready := by
  cases h with
  | done message hr _ => rw [hr, hready]; simp [Policy.work]
  | dropped message _ hr _ => rw [hr, hready]; simp [Policy.work]
  | requeued message hmax hr _ =>
      have hb := budget_republished hmax
      rw [hr, hready]
      simp only [Policy.work, List.map_append, List.map_cons, List.map_nil, List.sum_append,
        List.sum_cons, List.sum_nil]
      omega

theorem callbacks_giveUpEvents (p : Policy ε σ) (i o : Nat) (message : Json) (count : Int) :
    callbacks i (p.giveUpEvents o message count) = 0 := by
  unfold Policy.giveUpEvents
  split <;> simp [callbacks, Event.isCallback]

/-- **The budget.** Callbacks made plus deliveries still allowed never grow, and
stay the same as long as the callback does not succeed. -/
theorem Turn.callbacks_le {p : Policy ε σ} {m : Msg} {rest : List Msg} {tag : Nat}
    {w w' : World σ} (h : Turn p m rest tag w w') (hready : w.ready = m :: rest) (i : Nat) :
    callbacks i w'.log + p.workOf i w'.ready ≤ callbacks i w.log + p.workOf i w.ready ∧
      (successes i w'.log = 0 → callbacks i w'.log + p.workOf i w'.ready =
        callbacks i w.log + p.workOf i w.ready) := by
  cases h with
  | done message hr hlog =>
      have hc : callbacks i [.deliver ⟨tag, m⟩, .callback m.origin message true, .ack tag] =
          if m.origin = i then 1 else 0 := by
        by_cases ho : m.origin = i <;> simp [callbacks, Event.isCallback, ho]
      have hs : successes i [.deliver ⟨tag, m⟩, .callback m.origin message true, .ack tag] =
          if m.origin = i then 1 else 0 := by
        by_cases ho : m.origin = i <;> simp [successes, Event.isSuccess, ho]
      rw [hr, hready, hlog]
      unfold callbacks at hc ⊢
      unfold successes at hs ⊢
      rw [List.countP_append, List.countP_append, hc, hs]
      simp only [Policy.workOf, List.map_cons, List.sum_cons]
      by_cases ho : m.origin = i <;> simp only [ho, if_true, if_false] <;> omega
  | dropped message hmax hr hlog =>
      have hb : p.budget m = 0 := by unfold Policy.budget; omega
      have hc : callbacks i [.deliver ⟨tag, m⟩, .callback m.origin message false, .ack tag] =
          if m.origin = i then 1 else 0 := by
        by_cases ho : m.origin = i <;> simp [callbacks, Event.isCallback, ho]
      have hg := callbacks_giveUpEvents p i m.origin message (countOf m.headers)
      rw [hr, hready, hlog]
      unfold callbacks at hc hg ⊢
      rw [List.countP_append, List.countP_append, hc, hg]
      simp only [Policy.workOf, List.map_cons, List.sum_cons]
      by_cases ho : m.origin = i <;> simp only [ho, if_true, if_false] <;> omega
  | requeued message hmax hr hlog =>
      have hb := budget_republished hmax
      have hc : callbacks i [.deliver ⟨tag, m⟩, .callback m.origin message false,
          .publish m.republished, .ack tag] = if m.origin = i then 1 else 0 := by
        by_cases ho : m.origin = i <;> simp [callbacks, Event.isCallback, ho]
      rw [hr, hready, hlog]
      unfold callbacks at hc ⊢
      rw [List.countP_append, hc]
      simp only [Policy.workOf, List.map_append, List.map_cons, List.map_nil, List.sum_append,
        List.sum_cons, List.sum_nil, republished_origin]
      by_cases ho : m.origin = i <;> simp only [ho, if_true, if_false] <;> omega

/-- A success once logged stays logged. -/
theorem Turn.successes_mono {p : Policy ε σ} {m : Msg} {rest : List Msg} {tag : Nat}
    {w w' : World σ} (h : Turn p m rest tag w w') (i : Nat) :
    successes i w.log ≤ successes i w'.log := by
  cases h with
  | done message _ hlog => rw [hlog]; simp [successes]
  | dropped message _ _ hlog => rw [hlog]; simp [successes]
  | requeued message _ _ hlog => rw [hlog]; simp [successes]

/-- **One end each.** A message leaves the queue for good by one success or one
give-up. -/
theorem Turn.ends_eq {p : Policy ε σ} {m : Msg} {rest : List Msg} {tag : Nat}
    {w w' : World σ} (h : Turn p m rest tag w w') (hready : w.ready = m :: rest)
    (hgive : p.onGiveUp.isSome = true) (i : Nat) :
    successes i w'.log + giveUps i w'.log + copies i w'.ready =
      successes i w.log + giveUps i w.log + copies i w.ready := by
  cases h with
  | done message hr hlog =>
      rw [hr, hready, hlog]
      by_cases ho : m.origin = i
      · simp [successes, giveUps, copies, Event.isSuccess, Event.isGiveUp, ho]
        omega
      · simp [successes, giveUps, copies, Event.isSuccess, Event.isGiveUp, ho]
  | dropped message _ hr hlog =>
      rw [hr, hready, hlog]
      by_cases ho : m.origin = i
      · simp [successes, giveUps, copies, Event.isSuccess, Event.isGiveUp, ho,
          Policy.giveUpEvents, hgive]
        omega
      · simp [successes, giveUps, copies, Event.isSuccess, Event.isGiveUp, ho,
          Policy.giveUpEvents, hgive]
  | requeued message hmax hr hlog =>
      rw [hr, hready, hlog]
      by_cases ho : m.origin = i <;>
        simp [successes, giveUps, copies, Event.isSuccess, Event.isGiveUp, ho]

/-- Only `m` itself can come back, and it comes back readable. -/
theorem Turn.ready_mem {p : Policy ε σ} {m : Msg} {rest : List Msg} {tag : Nat}
    {w w' : World σ} (h : Turn p m rest tag w w') :
    w'.ready = rest ∨ w'.ready = rest ++ [m.republished] := by
  cases h with
  | done message hr _ => exact Or.inl hr
  | dropped message _ hr _ => exact Or.inl hr
  | requeued message _ hr _ => exact Or.inr hr

theorem isObjectBody_served {p : Policy ε σ} {m : Msg} {rest : List Msg} {tag : Nat}
    {w w' : World σ} (h : Turn p m rest tag w w') (hready : w.ready = m :: rest)
    (hobj : ∀ x ∈ w.ready, p.IsObjectBody x) : ∀ x ∈ w'.ready, p.IsObjectBody x := by
  rw [hready] at hobj
  have hrest : ∀ x ∈ rest, p.IsObjectBody x := fun x hx => hobj x (List.mem_cons_of_mem _ hx)
  rcases h.ready_mem with hr | hr <;> rw [hr]
  · exact hrest
  · intro x hx
    rcases List.mem_append.mp hx with hx | hx
    · exact hrest x hx
    · rw [List.mem_singleton.mp hx]
      exact hobj m List.mem_cons_self

/-- Nothing else enters the queue. -/
theorem origin_served {p : Policy ε σ} {m : Msg} {rest : List Msg} {tag : Nat}
    {w w' : World σ} (h : Turn p m rest tag w w') (hready : w.ready = m :: rest) {i : Nat}
    (hi : ∀ x ∈ w.ready, x.origin ≠ i) : ∀ x ∈ w'.ready, x.origin ≠ i := by
  rw [hready] at hi
  have hrest : ∀ x ∈ rest, x.origin ≠ i := fun x hx => hi x (List.mem_cons_of_mem _ hx)
  rcases h.ready_mem with hr | hr <;> rw [hr]
  · exact hrest
  · intro x hx
    rcases List.mem_append.mp hx with hx | hx
    · exact hrest x hx
    · rw [List.mem_singleton.mp hx]
      exact hi m List.mem_cons_self

/-! ## Only first deliveries matter -/

/-- A message whose counter can be read meets the condition whatever the callback
does. -/
theorem meets_of_not {p : Policy ε σ} {m : Msg} (app : σ) (hobj : p.IsObjectBody m)
    (h : ¬ Overflows m.headers) : Meets p app m := by
  obtain ⟨message, hbody, hmsg⟩ := hobj
  intro message' hbody'
  rw [hbody] at hbody'
  injection hbody' with he
  rw [← he]
  exact ⟨hmsg, fun _ => h⟩

/-- Past the messages that entered the queue as they are, only republished copies
remain, and those carry an integer. -/
theorem meetsFor_extends {p : Policy ε σ} :
    ∀ (N : Nat) {w : World σ} (pre post : List Msg), w.ready = pre ++ post →
      (∀ x ∈ w.ready, p.IsObjectBody x) → (∀ x ∈ post, ¬ Overflows x.headers) →
      MeetsFor p pre.length w → MeetsFor p N w
  | 0, _, _, _, _, _, _, _ => trivial
  | N + 1, w, pre, post, hready, hobj, hpost, hpre => by
      cases hw : w.ready with
      | nil => simp only [MeetsFor, hw]
      | cons m rest =>
          have hm_obj : p.IsObjectBody m := hobj m (by rw [hw]; exact List.mem_cons_self)
          have hkey : Meets p w.app m ∧ ∃ pre' post', rest = pre' ++ post' ∧
              (∀ x ∈ post', ¬ Overflows x.headers) ∧ MeetsFor p pre'.length (served p w) := by
            cases pre with
            | nil =>
                rw [List.nil_append] at hready
                have hpost' : ∀ x ∈ m :: rest, ¬ Overflows x.headers := by
                  rw [← hw, hready]; exact hpost
                exact ⟨meets_of_not w.app hm_obj (hpost' m List.mem_cons_self), [], rest, rfl,
                  fun x hx => hpost' x (List.mem_cons_of_mem _ hx), trivial⟩
            | cons a pre =>
                rw [hw, List.cons_append] at hready
                injection hready with hma hrest
                simp only [List.length_cons, MeetsFor, hw] at hpre
                exact ⟨hpre.1, pre, post, hrest, hpost, hpre.2⟩
          obtain ⟨hm, pre', post', hrest, hpost', hpre'⟩ := hkey
          have hturn := served_turn hw hm_obj hm
          have hobj' := isObjectBody_served hturn hw hobj
          simp only [MeetsFor, hw]
          refine ⟨hm, ?_⟩
          rcases hturn.ready_mem with hr | hr
          · exact meetsFor_extends N _ _ (hr.trans hrest) hobj' hpost' hpre'
          · have hsplit : (served p w).ready = pre' ++ (post' ++ [m.republished]) := by
              rw [hr, hrest, List.append_assoc]
            refine meetsFor_extends N _ _ hsplit hobj' (fun x hx => ?_) hpre'
            rcases List.mem_append.mp hx with hx | hx
            · exact hpost' x hx
            · rw [List.mem_singleton.mp hx]
              exact not_overflows_bumped m.headers

/-! ## Whole drains -/

/-- What a drain that went well left behind. -/
structure Drained (p : Policy ε σ) (w w' : World σ) : Prop where
  ready : w'.ready = []
  unacked : w'.unacked = []
  successes_mono : ∀ i, successes i w.log ≤ successes i w'.log
  within : ∀ i, callbacks i w'.log ≤ callbacks i w.log + p.workOf i w.ready
  exhausted : ∀ i, successes i w'.log = 0 →
    callbacks i w'.log = callbacks i w.log + p.workOf i w.ready
  ends : p.onGiveUp.isSome = true → ∀ i, successes i w'.log + giveUps i w'.log =
    successes i w.log + giveUps i w.log + copies i w.ready

/-- **A drain ends.** More fuel than `work` is enough. -/
theorem consumeLoop_drained {p : Policy ε σ} :
    ∀ {fuel k : Nat} {w : World σ}, p.work w.ready < fuel → w.unacked = [] →
      (∀ x ∈ w.ready, p.IsObjectBody x) → (∀ n, MeetsFor p n w) →
      ∃ handled w', consumeLoop p fuel k w = .ok (some handled) w' ∧ Drained p w w'
  | 0, _, _, hfuel, _, _, _ => absurd hfuel (Nat.not_lt_zero _)
  | fuel + 1, k, w, hfuel, hun, hobj, hmeets => by
      cases hw : w.ready with
      | nil =>
          refine ⟨k, w, consumeLoop_nil hw, hw, hun, fun i => le_refl _, fun i => ?_,
            fun i _ => ?_, fun _ i => ?_⟩
          · simp [hw, Policy.workOf]
          · simp [hw, Policy.workOf]
          · simp [hw, copies]
      | cons m rest =>
          have hm_obj : p.IsObjectBody m := hobj m (by rw [hw]; exact List.mem_cons_self)
          have hm : Meets p w.app m := by
            have h1 := hmeets 1
            simp only [MeetsFor, hw] at h1
            exact h1.1
          have hmeets' : ∀ n, MeetsFor p n (served p w) := fun n => by
            have h := hmeets (n + 1)
            simp only [MeetsFor, hw] at h
            exact h.2
          obtain ⟨hok, -, hunacked⟩ := served_settled hw hm
          have hturn := served_turn hw hm_obj hm
          have hun' : (served p w).unacked = [] := by
            rw [hunacked]
            simp [World.delivered, hun]
          have hwork := hturn.work_lt hw
          obtain ⟨handled, w', hrun, hdr⟩ := consumeLoop_drained (k := k + 1)
            (show p.work (served p w).ready < fuel by omega) hun'
            (isObjectBody_served hturn hw hobj) hmeets'
          refine ⟨handled, w', by rw [consumeLoop_cons hw, bind_ok hok, hrun], hdr.ready,
            hdr.unacked, fun i => (hturn.successes_mono i).trans (hdr.successes_mono i),
            fun i => ?_, fun i hi => ?_, fun hgive i => ?_⟩
          · have h1 := hdr.within i
            have h2 := (hturn.callbacks_le hw i).1
            omega
          · have h1 := hdr.exhausted i hi
            have hs : successes i (served p w).log = 0 := by
              have := hdr.successes_mono i
              omega
            have h2 := (hturn.callbacks_le hw i).2 hs
            omega
          · have h1 := hdr.ends hgive i
            have h2 := hturn.ends_eq hw hgive i
            omega

/-! ## Turns one by one -/

/-- Every queued message can be handled, whatever the callback does. -/
def Policy.Readable (p : Policy ε σ) (queue : List Msg) : Prop :=
  ∀ x ∈ queue, p.IsObjectBody x ∧ ¬ Overflows x.headers

theorem Policy.Readable.meetsFor {p : Policy ε σ} {w : World σ} (h : p.Readable w.ready)
    (n : Nat) : MeetsFor p n w :=
  meetsFor_extends n [] _ (by simp) (fun x hx => (h x hx).1) (fun x hx => (h x hx).2)
    trivial

/-- A turn on a readable queue: the head is handled, and what follows is readable. -/
theorem Policy.Readable.turn {p : Policy ε σ} {w : World σ} (h : p.Readable w.ready)
    {m : Msg} {rest : List Msg} (hready : w.ready = m :: rest) :
    Turn p m rest w.nextTag w (served p w) ∧ p.Readable (served p w).ready := by
  have hm := h m (by rw [hready]; exact List.mem_cons_self)
  have hturn := served_turn hready hm.1 (meets_of_not w.app hm.1 hm.2)
  refine ⟨hturn, fun x hx => ?_⟩
  rcases hturn.ready_mem with hr | hr <;> rw [hr] at hx
  · exact h x (by rw [hready]; exact List.mem_cons_of_mem _ hx)
  · rcases List.mem_append.mp hx with hx | hx
    · exact h x (by rw [hready]; exact List.mem_cons_of_mem _ hx)
    · rw [List.mem_singleton.mp hx]
      exact ⟨hm.1, not_overflows_bumped m.headers⟩

theorem Policy.Readable.iterate {p : Policy ε σ} :
    ∀ (n : Nat) {w : World σ}, p.Readable w.ready → p.Readable ((served p)^[n] w).ready
  | 0, _, h => h
  | n + 1, w, h => by
      rw [Function.iterate_succ_apply]
      refine Policy.Readable.iterate n ?_
      cases hready : w.ready with
      | nil =>
          have hw : served p w = w := by simp only [served, hready]
          rw [hw]
          exact h
      | cons m rest => exact (h.turn hready).2

/-- The messages ahead are handled one at a time, and then it is the turn of the
next one. -/
theorem Policy.Readable.reaches {p : Policy ε σ} :
    ∀ (pre : List Msg) {w : World σ} {x : Msg} {post : List Msg}, p.Readable w.ready →
      w.ready = pre ++ x :: post →
      ∃ post', ((served p)^[pre.length] w).ready = x :: post'
  | [], w, x, post, _, hready => ⟨post, hready⟩
  | m :: pre, w, x, post, h, hready => by
      obtain ⟨hturn, hnext⟩ := h.turn hready
      rw [List.length_cons, Function.iterate_succ_apply]
      rcases hturn.ready_mem with hr | hr
      · exact Policy.Readable.reaches pre hnext hr
      · have hready' : (served p w).ready = pre ++ x :: (post ++ [m.republished]) := by
          rw [hr]
          exact List.append_assoc pre (x :: post) [m.republished]
        exact Policy.Readable.reaches pre hnext hready'

/-- A message that is not in the queue never comes into it. -/
theorem Policy.Readable.origin_iterate {p : Policy ε σ} {i : Nat} :
    ∀ (n : Nat) {w : World σ}, p.Readable w.ready → (∀ x ∈ w.ready, x.origin ≠ i) →
      ∀ x ∈ ((served p)^[n] w).ready, x.origin ≠ i
  | 0, _, _, hi => hi
  | n + 1, w, h, hi => by
      rw [Function.iterate_succ_apply]
      cases hready : w.ready with
      | nil =>
          have hw : served p w = w := by simp only [served, hready]
          rw [hw]
          exact Policy.Readable.origin_iterate n h hi
      | cons m rest =>
          obtain ⟨hturn, hnext⟩ := h.turn hready
          exact Policy.Readable.origin_iterate n hnext (origin_served hturn hready hi)

/-- What a turn on a given message and outcome leaves. -/
theorem Policy.Readable.served_eq {p : Policy ε σ} {w : World σ} (h : p.Readable w.ready)
    {m : Msg} {rest : List Msg} (hready : w.ready = m :: rest) {message : Json}
    (hbody : p.loads m.body = some message) :
    (p.outcome message w.app = true →
      (served p w).app = appAfter (p.callback message w.app) ∧ (served p w).ready = rest) ∧
    (p.outcome message w.app = false → countOf m.headers < p.maxRetries →
      (served p w).app = appAfter (p.callback message w.app) ∧
        (served p w).ready = rest ++ [m.republished]) := by
  have hm := h m (by rw [hready]; exact List.mem_cons_self)
  have hok := (served_settled hready (meets_of_not w.app hm.1 hm.2)).1
  have hcases := onMessage_handling p ⟨w.nextTag, m⟩ (w.delivered m rest)
  rw [hok] at hcases
  generalize served p w = w1 at hcases ⊢
  have hsame : ∀ message', p.loads m.body = some message' → message' = message :=
    fun message' h' => Option.some.inj (h'.symm.trans hbody)
  cases hcases with
  | unparseable hnone => rw [hbody] at hnone; cases hnone
  | done message' hb hobj ho =>
      obtain rfl := hsame message' hb
      exact ⟨fun _ => ⟨rfl, rfl⟩, fun hf => absurd (ho.symm.trans hf) (by simp)⟩
  | dropped message' hb hobj ho hinf hmax =>
      obtain rfl := hsame message' hb
      exact ⟨fun ht => absurd (ht.symm.trans ho) (by simp),
        fun _ hlt => absurd hmax (not_le.mpr hlt)⟩
  | requeued message' hb hobj ho hinf hmax =>
      obtain rfl := hsame message' hb
      exact ⟨fun ht => absurd (ht.symm.trans ho) (by simp), fun _ _ => ⟨rfl, rfl⟩⟩

/-- A run that returns went through the turns one by one. -/
theorem consumeLoop_iterate {p : Policy ε σ} :
    ∀ {fuel k : Nat} {w w' : World σ} {handled : Option Nat},
      consumeLoop p fuel k w = .ok handled w' → ∃ n, w' = (served p)^[n] w
  | 0, _, w, w', _, h => by
      injection h with _ h
      exact ⟨0, h.symm⟩
  | fuel + 1, k, w, w', handled, h => by
      cases hready : w.ready with
      | nil =>
          rw [consumeLoop_nil hready] at h
          injection h with _ h
          exact ⟨0, h.symm⟩
      | cons m rest =>
          rw [consumeLoop_cons hready] at h
          cases hr : onMessage p ⟨w.nextTag, m⟩ (w.delivered m rest) with
          | error e w1 => rw [bind_error hr] at h; cases h
          | ok _ w1 =>
              rw [bind_ok hr] at h
              have hserved : served p w = w1 := by simp only [served, hready, hr, appAfter]
              obtain ⟨n, hn⟩ := consumeLoop_iterate h
              exact ⟨n + 1, by rw [Function.iterate_succ_apply, hserved]; exact hn⟩

/-- A run whose first deliveries do not all meet the condition never comes to an
end of its own. -/
theorem consumeLoop_not_returns {p : Policy ε σ} :
    ∀ {fuel n k : Nat} {w : World σ}, ¬ MeetsFor p n w →
      ∀ handled w', consumeLoop p fuel k w ≠ .ok (some handled) w'
  | 0, _, _, _, _, _, _ => fun h => by cases h
  | _ + 1, 0, _, _, h, _, _ => absurd trivial h
  | fuel + 1, n + 1, k, w, h, handled, w' => by
      cases hready : w.ready with
      | nil => simp [MeetsFor, hready] at h
      | cons m rest =>
          simp only [MeetsFor, hready, not_and] at h
          rw [consumeLoop_cons hready]
          by_cases hm : Meets p w.app m
          · rw [bind_ok (served_settled hready hm).1]
            exact consumeLoop_not_returns (h hm) handled w'
          · have hcases := onMessage_handling p ⟨w.nextTag, m⟩ (w.delivered m rest)
            have hno := mt hcases.ok_iff.mp hm
            cases hr : onMessage p ⟨w.nextTag, m⟩ (w.delivered m rest) with
            | ok _ w'' => exact absurd ⟨w'', hr⟩ hno
            | error e w'' =>
                rw [bind_error hr]
                intro heq
                cases heq

/-- **What is asked of the two paths.** The drain returns, with nothing queued or
held back; each message ran within its budget, used all of it unless the callback
succeeded, and ended by one success or one give-up; and the broker pushing the
same messages to `_on_message` one at a time has the same log. -/
def Drains (p : Policy ε σ) (app : σ) (queue : List Msg) : Prop :=
  ∃ fuel handled w', drainQueueOnce p fuel (World.start app queue) = .ok (some handled) w' ∧
    w'.ready = [] ∧ w'.unacked = [] ∧
    (∀ m ∈ queue,
      (callbacks m.origin w'.log : Int) ≤ max 0 (p.maxRetries - countOf m.headers) + 1 ∧
      (successes m.origin w'.log = 0 →
        (callbacks m.origin w'.log : Int) = max 0 (p.maxRetries - countOf m.headers) + 1) ∧
      (p.onGiveUp.isSome = true →
        successes m.origin w'.log + giveUps m.origin w'.log = 1)) ∧
    ∃ w'', consumeLoop p fuel 0 (World.start app queue) = .ok (some handled) w'' ∧
      w''.log = w'.log

theorem workOf_of_nodup {p : Policy ε σ} {queue : List Msg}
    (hnodup : (queue.map (·.origin)).Nodup) {m : Msg} (hm : m ∈ queue) :
    p.workOf m.origin queue = p.budget m + 1 ∧ copies m.origin queue = 1 := by
  induction queue with
  | nil => cases hm
  | cons a queue ih =>
      rw [List.map_cons, List.nodup_cons] at hnodup
      obtain ⟨hfresh, hrest⟩ := hnodup
      rcases List.mem_cons.mp hm with rfl | hm
      · have hno : ∀ x ∈ queue, x.origin ≠ m.origin := fun x hx he =>
          hfresh (List.mem_map.mpr ⟨x, hx, he⟩)
        constructor
        · simp only [Policy.workOf, List.map_cons, List.sum_cons, if_true]
          rw [List.sum_eq_zero]
          · rfl
          · intro y hy
            obtain ⟨x, hx, rfl⟩ := List.mem_map.mp hy
            exact if_neg (hno x hx)
        · simp only [copies, List.countP_cons, beq_self_eq_true, if_true]
          rw [List.countP_eq_zero.mpr fun x hx => by simpa using hno x hx]
      · have hne : a.origin ≠ m.origin := fun he =>
          hfresh (List.mem_map.mpr ⟨m, hm, he.symm⟩)
        obtain ⟨h1, h2⟩ := ih hrest hm
        constructor
        · simp only [Policy.workOf, List.map_cons, List.sum_cons, if_neg hne, Nat.zero_add]
          exact h1
        · simp only [copies, List.countP_cons] at h2 ⊢
          simp [hne, h2]

/-- **When draining ends and push and pull agree.** For a queue of messages whose
bodies are JSON objects: exactly when the first delivery of each one can be
disposed of, that is, none has an infinite float for a counter while the callback
fails on it. -/
theorem drains_iff (p : Policy ε σ) (app : σ) (queue : List Msg)
    (hobj : ∀ m ∈ queue, p.IsObjectBody m) (hnodup : (queue.map (·.origin)).Nodup) :
    Drains p app queue ↔ MeetsFor p queue.length (World.start app queue) := by
  constructor
  · rintro ⟨fuel, handled, w', -, -, -, -, w'', hrun, -⟩
    by_contra hno
    exact consumeLoop_not_returns hno handled w'' hrun
  · intro hmeets
    have hall : ∀ n, MeetsFor p n (World.start app queue) := fun n =>
      meetsFor_extends n queue [] (by simp [World.start]) hobj
        (fun x hx => by cases hx) hmeets
    obtain ⟨handled, w', hrun, hdr⟩ := consumeLoop_drained (k := 0)
      (Nat.lt_succ_self (p.work (World.start app queue).ready)) rfl hobj hall
    refine ⟨_, handled, w'.closed, drainQueueOnce_ok hrun, ?_, rfl, fun m hm => ?_,
      w', hrun, rfl⟩
    · simp [World.closed, hdr.ready, hdr.unacked]
    · obtain ⟨hwork, hcopies⟩ := workOf_of_nodup (p := p) hnodup hm
      have hbudget : ((p.budget m : Nat) : Int) = max 0 (p.maxRetries - countOf m.headers) := by
        unfold Policy.budget
        omega
      have hcalls : callbacks m.origin (World.start app queue).log = 0 := rfl
      have hready : (World.start app queue).ready = queue := rfl
      refine ⟨?_, fun hs => ?_, fun hgive => ?_⟩
      · have h := hdr.within m.origin
        rw [hready, hwork, hcalls] at h
        rw [← hbudget]
        exact_mod_cast (by omega : callbacks m.origin w'.log ≤ p.budget m + 1)
      · have h := hdr.exhausted m.origin hs
        rw [hready, hwork, hcalls] at h
        rw [← hbudget]
        exact_mod_cast (by omega : callbacks m.origin w'.log = p.budget m + 1)
      · have h := hdr.ends hgive m.origin
        rw [hready, hcopies] at h
        exact h

/-- An application whose callback refuses everything, and that wants to be told. -/
def rejectAll (maxRetries : Int) : Policy Unit Unit where
  loads := Json.loads 1000
  callback _ := pure false
  maxRetries := maxRetries
  onGiveUp := some fun _ _ => pure ()

/-- The object `{}` under a given counter. -/
def emptyObject (counter : HeaderValue) : Msg :=
  ⟨[0x7b, 0x7d], some ⟨some 2, none, some ((∅ : Headers).insert retryHeader counter)⟩, 0⟩

theorem emptyObject_counter (counter : HeaderValue) :
    retryField ((emptyObject counter).headers.getD ∅) = counter := by
  unfold retryField
  rw [show (emptyObject counter).headers.getD ∅ =
    (∅ : Headers).insert retryHeader counter from rfl, AList.lookup_insert]
  rfl

theorem emptyObject_loads : Json.loads 1000 [0x7b, 0x7d] = some (.obj []) := rfl

theorem emptyObject_isObjectBody (maxRetries : Int) (counter : HeaderValue) :
    (rejectAll maxRetries).IsObjectBody (emptyObject counter) :=
  ⟨.obj [], emptyObject_loads, rfl⟩

/-- A message refused three times, then given up. -/
theorem drains_two_retries : Drains (rejectAll 2) () [emptyObject (.int 0)] :=
  (drains_iff (rejectAll 2) () [emptyObject (.int 0)]
    (fun m hm => by
      rw [List.mem_singleton.mp hm]
      exact emptyObject_isObjectBody 2 (.int 0))
    (List.nodup_singleton _)).mpr
    ⟨meets_of_not () (emptyObject_isObjectBody 2 (.int 0)) (by
      rintro ⟨negative, h⟩
      rw [emptyObject_counter] at h
      cases h), trivial⟩

/-- **An infinite counter.** A queue of one object whose callback fails and whose
counter is the float `inf`: the drain raises, and never returns. -/
theorem infinite_counter_not_drained :
    (∀ m ∈ [emptyObject (.float (.inf false))], (rejectAll 5).IsObjectBody m) ∧
      ¬ Drains (rejectAll 5) () [emptyObject (.float (.inf false))] := by
  constructor
  · intro m hm
    rw [List.mem_singleton.mp hm]
    exact emptyObject_isObjectBody 5 _
  · rintro ⟨fuel, handled, w', -, -, -, -, w'', hrun, -⟩
    refine consumeLoop_not_returns (n := 1) ?_ handled w'' hrun
    rintro ⟨hm, -⟩
    exact (hm _ emptyObject_loads).2 rfl ⟨false, emptyObject_counter _⟩

end MesReunions.Queue
