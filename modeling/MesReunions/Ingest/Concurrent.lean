import Mathlib.Logic.Function.Basic
import MesReunions.Base.CheckThenAct
import MesReunions.Base.TSys
import MesReunions.Ingest.Redelivery

/-!
# Concurrent pulls

Any number of calls of `_perform_pull` over one database: the synchronous trigger, the drain of
the queue on every pod, and redeliveries. The look for the row is one transaction, and the
`INSERT` of the audio and its meeting another, after the copy between the buckets.

* `Pods` — the calls, and what they share; `performPull_alone` — a call by itself is `performPull`.
* `Apart` — no call looks for a key while another stands between its look that found nothing and
  its commit.
* **`pulled_once`** — in such a run a key has one audio, one meeting, one dispatch and one call
  that answers `pulled`.
* **`pulled_twice`** — two calls that cross.
-/

namespace MesReunions.Ingest

open TSys CheckThenAct
open MesReunions.Queue (appAfter)

/-! ## The calls -/

/-- A row of `meetings`, as a pull creates it: its `user_audio_file_id`. -/
structure MeetingRow where
  audio : Nat
  deriving DecidableEq

/-- How a call ends; `pulled` is about the audio it created. -/
inductive Answer where
  | alreadyPulled
  | pulled (id : Nat)
  | raised (e : IngestError)
  deriving DecidableEq

abbrev Payload := List (Str × Json)

/-- What a call comes to next. -/
inductive Call where
  | idle
  | look (payload : Payload)
  /-- It has found no row. -/
  | copy (payload : Payload)
  | insert (payload : Payload)
  | dispatch (payload : Payload) (id : Nat)

/-- The payload of a call that has found no row, and has not committed one. -/
def Call.pulling : Call → Option Payload
  | .copy payload => some payload
  | .insert payload => some payload
  | _ => none

/-- The payload of a call that has committed its row. -/
def Call.dispatching : Call → Option Payload
  | .dispatch payload _ => some payload
  | _ => none

structure Pods where
  puller : Puller
  meetings : List MeetingRow
  calls : Nat → Call
  /-- The answers by their key, the last one first. -/
  log : List (Str × Answer)

def Pods.start : Pods := ⟨⟨[], 0, [], []⟩, [], fun _ => .idle, []⟩

def Pods.goto (w : Pods) (c : Nat) (call : Call) : Pods :=
  { w with calls := Function.update w.calls c call }

def Pods.answer (w : Pods) (c : Nat) (key : Str) (answer : Answer) : Pods :=
  { w with calls := Function.update w.calls c .idle, log := (key, answer) :: w.log }

inductive PodAct where
  | performPull (c : Nat) (payload : Payload)
  | look (c : Nat)
  /-- The download and the upload to the internal bucket. -/
  | copy (c : Nat) (ok : Bool)
  | commit (c : Nat) (ok : Bool)
  | dispatch (c : Nat)

/-- `db.commit()` of the audio and its meeting. -/
def Pods.inserted (w : Pods) (key : Str) (autoTranscribe : Bool) : Pods :=
  { w with
    puller := appAfter (commitRow key autoTranscribe w.puller)
    meetings := w.meetings ++ [⟨w.puller.nextId⟩] }

/-- The call that takes the step. -/
def PodAct.call : PodAct → Nat
  | .performPull c _ => c
  | .look c => c
  | .copy c _ => c
  | .commit c _ => c
  | .dispatch c => c

/-- One attempt at the dispatch, counted. -/
def attempt (cfg : Config) (key : Str) (id : Nat) : Act Unit := do
  let s ← get
  noteAttempt key
  dispatch cfg (cfg.env key (s.attempts.count key)) id key

def Pods.step (cfg : Config) (w : Pods) : PodAct → Option Pods
  | .performPull c payload =>
      match w.calls c with
      | .idle => some <|
          if required.any fun f => (Json.get? payload f).isNone then
            w.answer c (internalKey cfg payload) (.raised .valueError)
          else w.goto c (.look payload)
      | _ => none
  | .look c =>
      match w.calls c with
      | .look payload => some <|
          if (w.puller.rows.find? (·.storedFilename == internalKey cfg payload)).isSome then
            w.answer c (internalKey cfg payload) .alreadyPulled
          else w.goto c (.copy payload)
      | _ => none
  | .copy c ok =>
      match w.calls c with
      | .copy payload => some <|
          if ok then w.goto c (.insert payload)
          else w.answer c (internalKey cfg payload) (.raised .other)
      | _ => none
  | .commit c ok =>
      match w.calls c with
      | .insert payload => some <|
          let key := internalKey cfg payload
          let autoTranscribe := (field payload "auto_transcribe").truthy
          if !filenameIsText payload then w.answer c key (.raised .typeError)
          else if !ok then w.answer c key (.raised .other)
          else
            let id := w.puller.nextId
            if autoTranscribe then (w.inserted key autoTranscribe).goto c (.dispatch payload id)
            else (w.inserted key autoTranscribe).answer c key (.pulled id)
      | _ => none
  | .dispatch c =>
      match w.calls c with
      | .dispatch payload id => some <|
          let key := internalKey cfg payload
          match attempt cfg key id w.puller with
          | .ok _ puller => { w with puller := puller }.answer c key (.pulled id)
          | .error e puller => { w with puller := puller }.answer c key (.raised e)
      | _ => none

/-! ## What a dispatch leaves alone -/

/-- What never changes of a row. -/
def Row.entry (r : Row) : Nat × Str := (r.id, r.storedFilename)

/-- An action that adds no row and renames none. -/
structure KeepsRows (x : Act Unit) : Prop where
  rows : ∀ s, (appAfter (x s)).rows.map (·.entry) = s.rows.map (·.entry)
  nextId : ∀ s, (appAfter (x s)).nextId = s.nextId

theorem keepsRows_setStatus (id : Nat) (status : Status) : KeepsRows (setStatus id status) where
  rows := by
    intro s
    show (s.rows.map fun r => if r.id = id then { r with transcriptionStatus := status } else r).map
      (·.entry) = _
    rw [List.map_map]
    refine List.map_congr_left fun r _ => ?_
    show (if r.id = id then { r with transcriptionStatus := status } else r).entry = r.entry
    split <;> rfl
  nextId := fun _ => rfl

theorem keepsRows_throw (e : IngestError) : KeepsRows (throw e) := ⟨fun _ => rfl, fun _ => rfl⟩

theorem keepsRows_dispatched (key : Str) (id : Nat) (status : Status) :
    KeepsRows (noteDispatched key >>= fun _ => setStatus id status) where
  rows := fun s => (keepsRows_setStatus id status).rows (appAfter (noteDispatched key s))
  nextId := fun _ => rfl

theorem keepsRows_pushToMcr (cfg : Config) (env : Env) (id : Nat) (key : Str) :
    KeepsRows (pushToMcr cfg env id key) := by
  unfold pushToMcr
  split
  · exact keepsRows_setStatus id _
  split
  · exact keepsRows_setStatus id _
  split
  · exact keepsRows_setStatus id _
  split
  · exact keepsRows_setStatus id _
  · exact keepsRows_throw _
  split
  · exact keepsRows_setStatus id _
  · exact keepsRows_setStatus id _
  · exact keepsRows_throw _
  · exact keepsRows_dispatched key id _

theorem keepsRows_transcribeViaKevent (cfg : Config) (env : Env) (id : Nat) (key : Str) :
    KeepsRows (transcribeViaKevent cfg env id key) := by
  unfold transcribeViaKevent
  split
  · exact keepsRows_setStatus id _
  split
  · exact keepsRows_setStatus id _
  · exact keepsRows_setStatus id _
  · exact keepsRows_throw _
  · exact keepsRows_dispatched key id _

theorem keepsRows_dispatch (cfg : Config) (env : Env) (id : Nat) (key : Str) :
    KeepsRows (dispatch cfg env id key) := by
  unfold dispatch
  split
  · exact keepsRows_pushToMcr cfg env id key
  split
  · have hmark := keepsRows_setStatus id .keventTranscribing
    have hrun := keepsRows_transcribeViaKevent cfg env id key
    refine ⟨fun s => ?_, fun s => ?_⟩
    · exact (hrun.rows (appAfter (setStatus id .keventTranscribing s))).trans (hmark.rows s)
    · exact (hrun.nextId (appAfter (setStatus id .keventTranscribing s))).trans (hmark.nextId s)
  split
  · exact keepsRows_setStatus id _
  · exact ⟨fun _ => rfl, fun _ => rfl⟩

/-- **An attempt** is one more for its key, and changes no row but in its status. -/
theorem attempt_frame (cfg : Config) (key : Str) (id : Nat) (s : Puller) :
    (appAfter (attempt cfg key id s)).rows.map (·.entry) = s.rows.map (·.entry) ∧
      (appAfter (attempt cfg key id s)).nextId = s.nextId ∧
        (appAfter (attempt cfg key id s)).attempts = s.attempts ++ [key] := by
  let noted : Puller := { s with attempts := s.attempts ++ [key] }
  have heq : attempt cfg key id s =
      dispatch cfg (cfg.env key (s.attempts.count key)) id key noted := rfl
  have hkeeps := keepsRows_dispatch cfg (cfg.env key (s.attempts.count key)) id key
  have hframe := framed_dispatch cfg (cfg.env key (s.attempts.count key)) id key noted
  rw [heq]
  exact ⟨hkeeps.rows noted, hkeeps.nextId noted, hframe.1.attempts⟩

/-! ## What a step does -/

section Calls

variable {w : Pods} {c : Nat}

@[simp] theorem goto_self {call : Call} : (w.goto c call).calls c = call := Function.update_self ..

@[simp] theorem goto_goto {call call' : Call} : (w.goto c call).goto c call' = w.goto c call' := by
  simp only [Pods.goto, Function.update_idem]

@[simp] theorem inserted_goto {call : Call} {key : Str} {auto : Bool} :
    (w.goto c call).inserted key auto = (w.inserted key auto).goto c call := rfl

theorem goto_of_ne {call : Call} {c' : Nat} (h : c' ≠ c) :
    (w.goto c call).calls c' = w.calls c' := Function.update_of_ne h ..

theorem answer_of_ne {key : Str} {answer : Answer} {c' : Nat} (h : c' ≠ c) :
    (w.answer c key answer).calls c' = w.calls c' := Function.update_of_ne h ..

end Calls

/-- What a step of call `c` does. -/
inductive Effect (cfg : Config) (w : Pods) (c : Nat) : PodAct → Pods → Prop where
  | asked (payload : Payload) (hc : w.calls c = .idle) :
      Effect cfg w c (.performPull c payload) (w.goto c (.look payload))
  /-- It ends without a row of its own. -/
  | ended (a : PodAct) (key : Str) (answer : Answer) (hanswer : ∀ id, answer ≠ .pulled id) :
      Effect cfg w c a (w.answer c key answer)
  | missed (payload : Payload) (hc : w.calls c = .look payload)
      (hnone : ∀ r ∈ w.puller.rows, r.storedFilename ≠ internalKey cfg payload) :
      Effect cfg w c (.look c) (w.goto c (.copy payload))
  | copied (payload : Payload) (hc : w.calls c = .copy payload) :
      Effect cfg w c (.copy c true) (w.goto c (.insert payload))
  | committed (payload : Payload) (hc : w.calls c = .insert payload)
      (hauto : (field payload "auto_transcribe").truthy = true) :
      Effect cfg w c (.commit c true) ((w.inserted (internalKey cfg payload) true).goto c
        (.dispatch payload w.puller.nextId))
  | finished (payload : Payload) (hc : w.calls c = .insert payload)
      (hauto : (field payload "auto_transcribe").truthy = false) :
      Effect cfg w c (.commit c true) ((w.inserted (internalKey cfg payload) false).answer c
        (internalKey cfg payload) (.pulled w.puller.nextId))
  | dispatched (payload : Payload) (id : Nat) (answer : Answer)
      (hc : w.calls c = .dispatch payload id) :
      Effect cfg w c (.dispatch c)
        ({ w with puller := appAfter (attempt cfg (internalKey cfg payload) id w.puller) }.answer c
          (internalKey cfg payload) answer)

/-- **Every step is one of these.** -/
theorem effect_of_pull {cfg : Config} {w w' : Pods} {a : PodAct}
    (hs : Pods.step cfg w a = some w') : ∃ c, a.call = c ∧ Effect cfg w c a w' := by
  cases a with
  | performPull c payload =>
      simp only [Pods.step] at hs
      split at hs
      · rename_i hc
        replace hs := Option.some.inj hs
        split at hs <;> subst hs
        · exact ⟨c, rfl, .ended _ _ _ fun id h => by cases h⟩
        · exact ⟨c, rfl, .asked payload hc⟩
      · cases hs
  | look c =>
      simp only [Pods.step] at hs
      split at hs
      · rename_i payload hc
        replace hs := Option.some.inj hs
        split at hs <;> subst hs
        · exact ⟨c, rfl, .ended _ _ _ fun id h => by cases h⟩
        · rename_i hnone
          refine ⟨c, rfl, .missed payload hc fun r hr hkey => hnone ?_⟩
          exact List.find?_isSome.mpr ⟨r, hr, beq_iff_eq.mpr hkey⟩
      · cases hs
  | copy c ok =>
      simp only [Pods.step] at hs
      split at hs
      · rename_i payload hc
        replace hs := Option.some.inj hs
        split at hs <;> subst hs
        · rename_i hok
          subst hok
          exact ⟨c, rfl, .copied payload hc⟩
        · exact ⟨c, rfl, .ended _ _ _ fun id h => by cases h⟩
      · cases hs
  | commit c ok =>
      simp only [Pods.step] at hs
      split at hs
      · rename_i payload hc
        replace hs := Option.some.inj hs
        split at hs
        · subst hs
          exact ⟨c, rfl, .ended _ _ _ fun id h => by cases h⟩
        · split at hs
          · subst hs
            exact ⟨c, rfl, .ended _ _ _ fun id h => by cases h⟩
          · rename_i hok
            have hok : ok = true := by simpa using hok
            subst hok
            split at hs
            · rename_i hauto
              rw [hauto] at hs
              subst hs
              exact ⟨c, rfl, .committed payload hc hauto⟩
            · rename_i hauto
              have hauto := Bool.eq_false_iff.mpr hauto
              rw [hauto] at hs
              subst hs
              exact ⟨c, rfl, .finished payload hc hauto⟩
      · cases hs
  | dispatch c =>
      simp only [Pods.step] at hs
      split at hs
      · rename_i payload id hc
        replace hs := Option.some.inj hs
        cases hattempt : attempt cfg (internalKey cfg payload) id w.puller with
        | ok _ puller =>
            rw [hattempt] at hs
            subst hs
            have heff : Effect cfg w c (.dispatch c) _ := .dispatched payload id (.pulled id) hc
            rw [hattempt] at heff
            exact ⟨c, rfl, heff⟩
        | error e puller =>
            rw [hattempt] at hs
            subst hs
            have heff : Effect cfg w c (.dispatch c) _ := .dispatched payload id (.raised e) hc
            rw [hattempt] at heff
            exact ⟨c, rfl, heff⟩
      · cases hs

/-- The other calls stay where they are. -/
theorem calls_of_run {cfg : Config} {c : Nat} : ∀ {as : List PodAct} {w w' : Pods},
    run (Pods.step cfg) w as = some w' → c ∉ as.map (·.call) → w'.calls c = w.calls c
  | [], w, w', hrun, _ => by
      cases hrun
      rfl
  | a :: as, w, w', hrun, hc => by
      rw [List.map_cons, List.mem_cons, not_or] at hc
      cases hs : Pods.step cfg w a with
      | none =>
          simp only [run, hs] at hrun
          cases hrun
      | some w1 =>
          simp only [run, hs] at hrun
          rw [calls_of_run hrun hc.2]
          obtain ⟨c', hcall, heff⟩ := effect_of_pull hs
          have hne : c ≠ c' := by
            rw [← hcall]
            exact hc.1
          cases heff with
          | asked payload _ => exact goto_of_ne hne
          | ended a key answer _ => exact answer_of_ne hne
          | missed payload _ _ => exact goto_of_ne hne
          | copied payload _ => exact goto_of_ne hne
          | committed payload _ _ => exact goto_of_ne hne
          | finished payload _ _ => exact answer_of_ne hne
          | dispatched payload id answer _ => exact answer_of_ne hne

theorem appAfter_bind_pure {α : Type} (x : Act Unit) (v : α) (s : Puller) :
    appAfter ((x >>= fun _ => pure v) s) = appAfter (x s) := by
  simp only [bind, EStateM.bind]
  cases x s with
  | ok _ s' => rfl
  | error e s' => rfl

/-- **A call alone** does what `performPull` does. -/
theorem performPull_alone (cfg : Config) (w : Pods) (c : Nat) (payload : Payload)
    (hidle : w.calls c = .idle) : ∃ as w', run (Pods.step cfg) w (.performPull c payload :: as) =
      some w' ∧ w'.puller = appAfter (performPull cfg payload w.puller) := by
  by_cases hfields : (required.any fun f => (Json.get? payload f).isNone) = true
  · refine ⟨[], w.answer c (internalKey cfg payload) (.raised .valueError), ?_, ?_⟩
    · simp only [run, Pods.step, hidle, hfields, if_true]
    · simp only [performPull, hfields, if_true]
      rfl
  have hask : Pods.step cfg w (.performPull c payload) = some (w.goto c (.look payload)) := by
    simp only [Pods.step, hidle, if_neg hfields]
  by_cases hrow : (w.puller.rows.find? (·.storedFilename == internalKey cfg payload)).isSome = true
  · have hlook : Pods.step cfg (w.goto c (.look payload)) (.look c) =
        some ((w.goto c (.look payload)).answer c (internalKey cfg payload) .alreadyPulled) := by
      simp only [Pods.step, goto_self]
      exact congrArg some (if_pos hrow)
    refine ⟨[.look c], _, by simp only [run, hask, hlook]; rfl, ?_⟩
    rcases pull_of_row ((find_isSome_iff _ _).mp hrow) with hpull | hpull <;> rw [hpull] <;> rfl
  have hlook : Pods.step cfg (w.goto c (.look payload)) (.look c) =
      some (w.goto c (.copy payload)) := by
    simp only [Pods.step, goto_self, goto_goto]
    exact congrArg some (if_neg hrow)
  have hcopy : Pods.step cfg (w.goto c (.copy payload)) (.copy c true) =
      some (w.goto c (.insert payload)) := by
    simp only [Pods.step, goto_self, goto_goto, if_true]
  by_cases htext : filenameIsText payload = true
  · by_cases hauto : (field payload "auto_transcribe").truthy = true
    · have hcommit : Pods.step cfg (w.goto c (.insert payload)) (.commit c true) =
          some ((w.inserted (internalKey cfg payload) true).goto c
            (.dispatch payload w.puller.nextId)) := by
        simp only [Pods.step, goto_self, htext, Bool.not_true, Bool.false_eq_true, if_false, hauto,
          if_true, inserted_goto, goto_goto]
        rfl
      have hdispatch : ∃ w', Pods.step cfg ((w.inserted (internalKey cfg payload) true).goto c
          (.dispatch payload w.puller.nextId)) (.dispatch c) = some w' ∧
            w'.puller = appAfter (attempt cfg (internalKey cfg payload) w.puller.nextId
              (w.inserted (internalKey cfg payload) true).puller) := by
        simp only [Pods.step, goto_self]
        refine ⟨_, rfl, ?_⟩
        show Pods.puller (match attempt cfg _ _ (w.inserted _ true).puller with
          | .ok _ _ => _
          | .error _ _ => _) = _
        cases attempt cfg (internalKey cfg payload) w.puller.nextId
          (w.inserted (internalKey cfg payload) true).puller with
        | ok _ puller => rfl
        | error e puller => rfl
      obtain ⟨w', hdispatch, hpuller⟩ := hdispatch
      refine ⟨[.look c, .copy c true, .commit c true, .dispatch c], w',
        by simp only [run, hask, hlook, hcopy, hcommit, hdispatch], ?_⟩
      have hpullable : Pullable payload := ⟨Bool.eq_false_iff.mpr hfields, htext⟩
      have hstate : committed cfg payload w.puller =
          { (w.inserted (internalKey cfg payload) true).puller with
            attempts := w.puller.attempts ++ [internalKey cfg payload] } := by
        simp only [committed, hauto, if_true]
        rfl
      rw [hpuller, pull_of_no_row hpullable (mt (find_isSome_iff _ _).mpr hrow) hauto, hstate]
      exact (appAfter_bind_pure _ _ _).symm
    · have hcommit : Pods.step cfg (w.goto c (.insert payload)) (.commit c true) =
          some (((w.inserted (internalKey cfg payload) false).goto c (.insert payload)).answer c
            (internalKey cfg payload) (.pulled w.puller.nextId)) := by
        simp only [Pods.step, goto_self, htext, Bool.not_true, Bool.false_eq_true, if_false, hauto,
          inserted_goto]
        rfl
      refine ⟨[.look c, .copy c true, .commit c true], _,
        by simp only [run, hask, hlook, hcopy, hcommit]; rfl, ?_⟩
      simp only [performPull, if_neg hfields, htext, hauto]
      simp only [bind, EStateM.bind, get, getThe, MonadStateOf.get, EStateM.get, hrow]
      rfl
  · have hcommit : Pods.step cfg (w.goto c (.insert payload)) (.commit c true) =
        some ((w.goto c (.insert payload)).answer c (internalKey cfg payload)
          (.raised .typeError)) := by
      simp only [Pods.step, goto_self, htext, Bool.not_false, if_true]
    refine ⟨[.look c, .copy c true, .commit c true], _,
      by simp only [run, hask, hlook, hcopy, hcommit]; rfl, ?_⟩
    simp only [performPull, if_neg hfields, htext]
    simp only [bind, EStateM.bind, get, getThe, MonadStateOf.get, EStateM.get, hrow]
    rfl

/-! ## What the calls have done for a key -/

def Answer.isPulled : Answer → Bool
  | .pulled _ => true
  | _ => false

/-- The ids of the rows with the keys they are stored under. -/
def Pods.entries (w : Pods) : List (Nat × Str) := w.puller.rows.map (·.entry)

/-- How often a call has answered `pulled` for the key. -/
def Pods.pulls (w : Pods) (key : Str) : Nat :=
  w.log.countP fun e => decide (e.1 = key) && e.2.isPulled

/-- One audio, one meeting, one dispatch and one call that pulled it; and the others answered
`already_pulled` or raised. -/
structure PulledOnce (w : Pods) (key : Str) : Prop where
  audios : w.puller.rows.countP (·.storedFilename = key) ≤ 1
  meetings : w.meetings.countP (fun m => w.puller.rows.any fun r =>
    r.id == m.audio && r.storedFilename == key) ≤ 1
  dispatches : w.puller.attempts.count key ≤ 1
  answers : w.pulls key ≤ 1

/-- A call that looks for a key finds no other between its own look, which found nothing, and its
commit. -/
def Apart (cfg : Config) (w : Pods) : PodAct → Prop
  | .look c => ∀ payload, w.calls c = .look payload →
      ∀ c' payload', (w.calls c').pulling = some payload' →
        internalKey cfg payload' ≠ internalKey cfg payload
  | _ => True

/-- Call `c` stands between its look for the key and its commit. -/
def Pulling (cfg : Config) (w : Pods) (key : Str) (c : Nat) : Prop :=
  ∃ payload, (w.calls c).pulling = some payload ∧ internalKey cfg payload = key

/-- Call `c` has committed the row `id`, and is to dispatch it. -/
def Dispatching (cfg : Config) (w : Pods) (key : Str) (c id : Nat) : Prop :=
  ∃ payload, w.calls c = .dispatch payload id ∧ internalKey cfg payload = key

/-! ### One dispatch a row -/

/-- At most one call dispatches a key, that nobody has dispatched or answered for. -/
structure Served (entries : List (Nat × Str)) (attempts pulls : Str → Nat)
    (dispatching : Str → Nat → Nat → Prop) : Prop where
  fresh : ∀ {k c id}, dispatching k c id → (id, k) ∈ entries ∧ attempts k = 0 ∧ pulls k = 0
  one : ∀ {k c c' id id'}, dispatching k c id → dispatching k c' id' → c = c'
  atMostOne : ∀ k, attempts k ≤ 1 ∧ pulls k ≤ 1
  stored : ∀ {k}, 0 < attempts k ∨ 0 < pulls k → ∃ id, (id, k) ∈ entries

namespace Served

variable {entries : List (Nat × Str)} {attempts pulls attempts' pulls' : Str → Nat}
  {dispatching dispatching' : Str → Nat → Nat → Prop}

/-- Calls end that have nothing to dispatch. -/
theorem quiet (h : Served entries attempts pulls dispatching) (hattempts : attempts' = attempts)
    (hpulls : pulls' = pulls) (hdispatching : ∀ k c id, dispatching' k c id → dispatching k c id) :
    Served entries attempts' pulls' dispatching' := by
  subst hattempts hpulls
  exact ⟨fun hd => h.fresh (hdispatching _ _ _ hd),
    fun hd hd' => h.one (hdispatching _ _ _ hd) (hdispatching _ _ _ hd'), h.atMostOne, h.stored⟩

/-- A row is stored under a key that had none, and call `c` may go on to dispatch it. -/
theorem store (h : Served entries attempts pulls dispatching) {k : Str} {c id : Nat}
    (hnone : ∀ id', (id', k) ∉ entries)
    (hdispatching : ∀ k' c' id', dispatching' k' c' id' →
      dispatching k' c' id' ∨ k' = k ∧ c' = c ∧ id' = id) :
    Served (entries ++ [(id, k)]) attempts pulls dispatching' where
  fresh := by
    intro k' c' id' hd
    rcases hdispatching _ _ _ hd with hd | ⟨rfl, rfl, rfl⟩
    · obtain ⟨hmem, hcounts⟩ := h.fresh hd
      exact ⟨List.mem_append_left _ hmem, hcounts⟩
    · have hzero : ¬ (0 < attempts k' ∨ 0 < pulls k') := by
        intro hpos
        obtain ⟨id, hmem⟩ := h.stored hpos
        exact hnone id hmem
      exact ⟨List.mem_append_right _ List.mem_cons_self, by omega, by omega⟩
  one := by
    intro k' c₁ c₂ id₁ id₂ h₁ h₂
    rcases hdispatching _ _ _ h₁ with h₁ | ⟨rfl, rfl, rfl⟩ <;>
      rcases hdispatching _ _ _ h₂ with h₂ | ⟨hk, rfl, rfl⟩
    · exact h.one h₁ h₂
    · subst hk
      exact absurd (h.fresh h₁).1 (hnone _)
    · exact absurd (h.fresh h₂).1 (hnone _)
    · rfl
  atMostOne := h.atMostOne
  stored := by
    intro k' hpos
    obtain ⟨id', hmem⟩ := h.stored hpos
    exact ⟨id', List.mem_append_left _ hmem⟩

/-- Call `c` is through with `k`, whose counts were 0. -/
theorem serve (h : Served entries attempts pulls dispatching) {k : Str} {c id : Nat}
    (hmem : (id, k) ∈ entries) (hk : attempts' k ≤ 1 ∧ pulls' k ≤ 1)
    (hothers : ∀ k', k' ≠ k → attempts' k' = attempts k' ∧ pulls' k' = pulls k')
    (hdispatching : ∀ k' c' id', dispatching' k' c' id' → dispatching k' c' id' ∧ c' ≠ c)
    (hc : ∀ c' id', dispatching k c' id' → c' = c) :
    Served entries attempts' pulls' dispatching' where
  fresh := by
    intro k' c' id' hd
    obtain ⟨hd, hne⟩ := hdispatching _ _ _ hd
    have hk' : k' ≠ k := by
      rintro rfl
      exact hne (hc c' id' hd)
    obtain ⟨hattempts, hpulls⟩ := hothers k' hk'
    rw [hattempts, hpulls]
    exact h.fresh hd
  one := fun h₁ h₂ => h.one (hdispatching _ _ _ h₁).1 (hdispatching _ _ _ h₂).1
  atMostOne := by
    intro k'
    by_cases hk' : k' = k
    · rw [hk']
      exact hk
    · obtain ⟨hattempts, hpulls⟩ := hothers k' hk'
      rw [hattempts, hpulls]
      exact h.atMostOne k'
  stored := by
    intro k' hpos
    by_cases hk' : k' = k
    · rw [hk']
      exact ⟨id, hmem⟩
    · obtain ⟨hattempts, hpulls⟩ := hothers k' hk'
      rw [hattempts, hpulls] at hpos
      exact h.stored hpos

end Served

/-! ### The invariant -/

/-- A key has one row or one call about to commit it, every row has its meeting, and one dispatch
at most. -/
structure Once (cfg : Config) (w : Pods) : Prop where
  exclusive : Exclusive (fun (_ _ : Nat) => False) (fun k id => (id, k) ∈ w.entries)
    (Pulling cfg w)
  ids : (w.entries.map Prod.fst).Nodup
  bounded : ∀ e ∈ w.entries, e.1 < w.puller.nextId
  meetings : w.meetings.map (·.audio) = w.entries.map Prod.fst
  served : Served w.entries (fun k => w.puller.attempts.count k) w.pulls (Dispatching cfg w)

theorem once_start (cfg : Config) : Once cfg .start where
  exclusive := by
    refine ⟨fun h => absurd h List.not_mem_nil, ?_, ?_⟩
    · rintro k c c' ⟨payload, hc, -⟩
      cases hc
    · rintro k c id ⟨payload, hc, -⟩
      cases hc
  ids := List.nodup_nil
  bounded := fun e he => absurd he List.not_mem_nil
  meetings := rfl
  served := by
    refine ⟨?_, ?_, fun k => ⟨Nat.zero_le _, Nat.zero_le _⟩, ?_⟩
    · rintro k c id ⟨payload, hc, -⟩
      cases hc
    · rintro k c c' id id' ⟨payload, hc, -⟩
      cases hc
    · rintro k (h | h)
      · exact absurd h (Nat.lt_irrefl 0)
      · exact absurd h (Nat.lt_irrefl 0)

/-- A list without duplicates has one element of a kind whose elements are all equal. -/
theorem countP_le_one {α : Type} {p : α → Bool} {l : List α} (hnodup : l.Nodup)
    (hone : ∀ a ∈ l, ∀ b ∈ l, p a = true → p b = true → a = b) : l.countP p ≤ 1 := by
  rw [List.countP_eq_length_filter]
  have hfilter : (l.filter p).Nodup := hnodup.filter p
  cases hl : l.filter p with
  | nil => exact Nat.zero_le _
  | cons a rest =>
      have hmem : ∀ b ∈ l.filter p, b ∈ l ∧ p b = true := fun b hb => List.mem_filter.mp hb
      have ha := hmem a (by rw [hl]; exact List.mem_cons_self)
      have hall : ∀ b ∈ l.filter p, b = a := fun b hb =>
        hone b (hmem b hb).1 a ha.1 (hmem b hb).2 ha.2
      have hrep := List.eq_replicate_of_mem hall
      rw [hrep, List.nodup_replicate] at hfilter
      rw [← hl]
      exact hfilter

theorem mem_entries {w : Pods} {r : Row} (hr : r ∈ w.puller.rows) :
    (r.id, r.storedFilename) ∈ w.entries := List.mem_map_of_mem hr

/-- **What the invariant says of a key.** -/
theorem pulledOnce_of_once {cfg : Config} {w : Pods} (h : Once cfg w) (key : Str) :
    PulledOnce w key where
  audios := by
    have hentries : w.entries.countP (fun e => decide (e.2 = key)) ≤ 1 := by
      refine countP_le_one h.ids.of_map fun e he e' he' hkey hkey' => ?_
      have hkey := of_decide_eq_true hkey
      have hkey' := of_decide_eq_true hkey'
      have hid : e.1 = e'.1 := by
        refine h.exclusive.one (k := key) ?_ ?_
        · rw [← hkey]
          exact he
        · rw [← hkey']
          exact he'
      exact Prod.ext hid (hkey.trans hkey'.symm)
    rw [Pods.entries, List.countP_map] at hentries
    exact hentries
  meetings := by
    have hmeetings : (w.meetings.map (·.audio)).Nodup := by
      rw [h.meetings]
      exact h.ids
    refine countP_le_one hmeetings.of_map fun m _ m' _ hm hm' => ?_
    obtain ⟨r, hr, hmr⟩ := List.any_eq_true.mp hm
    obtain ⟨r', hr', hmr'⟩ := List.any_eq_true.mp hm'
    simp only [Bool.and_eq_true, beq_iff_eq] at hmr hmr'
    have hid : r.id = r'.id := by
      refine h.exclusive.one (k := key) ?_ ?_
      · rw [← hmr.2]
        exact mem_entries hr
      · rw [← hmr'.2]
        exact mem_entries hr'
    have haudio : m.audio = m'.audio := by rw [← hmr.1, ← hmr'.1, hid]
    cases m
    cases m'
    exact congrArg MeetingRow.mk haudio
  dispatches := (h.served.atMostOne key).1
  answers := (h.served.atMostOne key).2

/-! ### Steps -/

section Calls

variable {cfg : Config} {w w' : Pods} {c : Nat} {call : Call}

/-- Who pulls after call `c` has moved on to `call`. -/
theorem pulling_update (hcalls : w'.calls = Function.update w.calls c call) {k : Str} {c' : Nat}
    (hp : Pulling cfg w' k c') : Pulling cfg w k c' ∧ c' ≠ c ∨
      c' = c ∧ ∃ payload, call.pulling = some payload ∧ internalKey cfg payload = k := by
  obtain ⟨payload, hpayload, hk⟩ := hp
  rw [hcalls] at hpayload
  by_cases hc : c' = c
  · rw [hc, Function.update_self] at hpayload
    exact .inr ⟨hc, payload, hpayload, hk⟩
  · rw [Function.update_of_ne hc] at hpayload
    exact .inl ⟨⟨payload, hpayload, hk⟩, hc⟩

/-- Who dispatches after call `c` has moved on to `call`. -/
theorem dispatching_update (hcalls : w'.calls = Function.update w.calls c call) {k : Str}
    {c' id : Nat} (hd : Dispatching cfg w' k c' id) : Dispatching cfg w k c' id ∧ c' ≠ c ∨
      c' = c ∧ ∃ payload, call = .dispatch payload id ∧ internalKey cfg payload = k := by
  obtain ⟨payload, hpayload, hk⟩ := hd
  rw [hcalls] at hpayload
  by_cases hc : c' = c
  · rw [hc, Function.update_self] at hpayload
    exact .inr ⟨hc, payload, hpayload, hk⟩
  · rw [Function.update_of_ne hc] at hpayload
    exact .inl ⟨⟨payload, hpayload, hk⟩, hc⟩

/-- A step that commits no row, and after which nobody new pulls. -/
theorem Once.frame (h : Once cfg w) (hentries : w'.entries = w.entries)
    (hnextId : w'.puller.nextId = w.puller.nextId) (hmeetings : w'.meetings = w.meetings)
    (hpulling : ∀ k c', Pulling cfg w' k c' → Pulling cfg w k c')
    (hserved : Served w.entries (fun k => w'.puller.attempts.count k) w'.pulls
      (Dispatching cfg w')) : Once cfg w' := by
  refine ⟨?_, ?_, ?_, ?_, ?_⟩
  · refine h.exclusive.quiet (fun k id hid => ?_) hpulling
    rw [hentries] at hid
    exact hid
  · rw [hentries]
    exact h.ids
  · rw [hentries, hnextId]
    exact h.bounded
  · rw [hmeetings, hentries]
    exact h.meetings
  · rw [hentries]
    exact hserved

/-- A step that writes nothing, and after which nobody new pulls or dispatches. -/
theorem Once.quiet (h : Once cfg w) (hpuller : w'.puller = w.puller)
    (hmeetings : w'.meetings = w.meetings) (hpulls : w'.pulls = w.pulls)
    (hpulling : ∀ k c', Pulling cfg w' k c' → Pulling cfg w k c')
    (hdispatching : ∀ k c' id, Dispatching cfg w' k c' id → Dispatching cfg w k c' id) :
    Once cfg w' := by
  refine h.frame ?_ ?_ hmeetings hpulling ?_
  · rw [Pods.entries, Pods.entries, hpuller]
  · rw [hpuller]
  · rw [hpuller]
    exact h.served.quiet rfl hpulls hdispatching

/-- The rows once call `c`, which pulls the key, has committed its own. -/
theorem Once.store (h : Once cfg w) {k : Str} (hc : Pulling cfg w k c)
    (hentries : w'.entries = w.entries ++ [(w.puller.nextId, k)])
    (hnextId : w'.puller.nextId = w.puller.nextId + 1)
    (hmeetings : w'.meetings = w.meetings ++ [⟨w.puller.nextId⟩])
    (hpulling : ∀ k' c', Pulling cfg w' k' c' → Pulling cfg w k' c' ∧ c' ≠ c)
    (hserved : Served w'.entries (fun k => w'.puller.attempts.count k) w'.pulls
      (Dispatching cfg w')) : Once cfg w' := by
  refine ⟨?_, ?_, ?_, ?_, hserved⟩
  · refine h.exclusive.act (o := w.puller.nextId) hc (fun o' _ hmine => hmine.elim) ?_
      (fun k' c' hp => (hpulling k' c' hp).1) (fun hp => (hpulling k c hp).2 rfl)
    intro k' id hid
    rw [hentries, List.mem_append, List.mem_singleton] at hid
    rcases hid with hid | hid
    · exact .inl hid
    · cases hid
      exact .inr ⟨rfl, rfl⟩
  · rw [hentries, List.map_append, List.map_singleton]
    refine List.nodup_append.mpr ⟨h.ids, List.nodup_singleton _, ?_⟩
    intro id hid id' hid'
    obtain ⟨e, he, rfl⟩ := List.mem_map.mp hid
    rw [List.mem_singleton.mp hid']
    exact Nat.ne_of_lt (h.bounded e he)
  · intro e he
    rw [hnextId]
    rw [hentries, List.mem_append, List.mem_singleton] at he
    rcases he with he | rfl
    · exact Nat.lt_succ_of_lt (h.bounded e he)
    · exact Nat.lt_succ_self _
  · rw [hmeetings, hentries, List.map_append, List.map_append, h.meetings]
    rfl

end Calls

theorem entries_inserted {w : Pods} {key : Str} {auto : Bool} :
    (w.inserted key auto).entries = w.entries ++ [(w.puller.nextId, key)] := by
  show (w.puller.rows ++ [_]).map Row.entry = _
  rw [List.map_append]
  rfl

/-- An answer other than `pulled` is no pull. -/
theorem pulls_answer_of_ne {w : Pods} {c : Nat} {key : Str} {answer : Answer}
    (hanswer : ∀ id, answer ≠ .pulled id) : (w.answer c key answer).pulls = w.pulls := by
  funext k
  have hfalse : answer.isPulled = false := by
    cases answer with
    | pulled id => exact absurd rfl (hanswer id)
    | alreadyPulled => rfl
    | raised e => rfl
  show List.countP _ ((key, answer) :: w.log) = _
  rw [List.countP_cons_of_neg]
  · rfl
  · simp [hfalse]

/-- An answer for another key is no pull of this one. -/
theorem pulls_answer_of_key {w : Pods} {c : Nat} {key k : Str} {answer : Answer} (hk : k ≠ key) :
    (w.answer c key answer).pulls k = w.pulls k := by
  show List.countP _ ((key, answer) :: w.log) = _
  rw [List.countP_cons_of_neg]
  · rfl
  · simp [Ne.symm hk]

theorem pulls_answer_le {w : Pods} {c : Nat} {key k : Str} {answer : Answer} :
    (w.answer c key answer).pulls k ≤ w.pulls k + 1 := by
  show List.countP _ ((key, answer) :: w.log) ≤ _
  rw [List.countP_cons]
  split
  · exact Nat.le_refl _
  · exact Nat.le_succ _

/-- **The step lemma.** -/
theorem once_of_step {cfg : Config} {w w' : Pods} {a : PodAct} (h : Once cfg w)
    (hguard : Apart cfg w a) (hs : Pods.step cfg w a = some w') : Once cfg w' := by
  obtain ⟨c, -, heff⟩ := effect_of_pull hs
  cases heff with
  | asked payload hc =>
      refine h.quiet rfl rfl rfl (fun k c' hp => ?_) (fun k c' id hd => ?_)
      · rcases pulling_update rfl hp with ⟨hp, -⟩ | ⟨-, payload', hcall, -⟩
        · exact hp
        · cases hcall
      · rcases dispatching_update rfl hd with ⟨hd, -⟩ | ⟨-, payload', hcall, -⟩
        · exact hd
        · cases hcall
  | ended a key answer hanswer =>
      refine h.quiet rfl rfl (pulls_answer_of_ne hanswer) (fun k c' hp => ?_)
        (fun k c' id hd => ?_)
      · rcases pulling_update rfl hp with ⟨hp, -⟩ | ⟨-, payload', hcall, -⟩
        · exact hp
        · cases hcall
      · rcases dispatching_update rfl hd with ⟨hd, -⟩ | ⟨-, payload', hcall, -⟩
        · exact hd
        · cases hcall
  | missed payload hc hnone =>
      have hdispatching : ∀ k c' id, Dispatching cfg (w.goto c (.copy payload)) k c' id →
          Dispatching cfg w k c' id := by
        intro k c' id hd
        rcases dispatching_update rfl hd with ⟨hd, -⟩ | ⟨-, payload', hcall, -⟩
        · exact hd
        · cases hcall
      refine ⟨?_, h.ids, h.bounded, h.meetings, h.served.quiet rfl rfl hdispatching⟩
      refine h.exclusive.check (k := internalKey cfg payload) (a := c) ?_ ?_
        (fun _ _ hid => hid) ?_
      · intro id hid
        obtain ⟨r, hr, hentry⟩ := List.mem_map.mp hid
        exact hnone r hr (congrArg Prod.snd hentry)
      · -- nobody else is between its look and its commit: this is the guard
        rintro c' ⟨payload', hpayload', hk⟩
        exact absurd hk (hguard payload hc c' payload' hpayload')
      · intro k c' hp
        rcases pulling_update rfl hp with ⟨hp, -⟩ | ⟨hc', payload', hcall, hk⟩
        · exact .inl hp
        · cases hcall
          exact .inr ⟨hk.symm, hc'⟩
  | copied payload hc =>
      refine h.quiet rfl rfl rfl (fun k c' hp => ?_) (fun k c' id hd => ?_)
      · rcases pulling_update rfl hp with ⟨hp, -⟩ | ⟨rfl, payload', hcall, hk⟩
        · exact hp
        · cases hcall
          refine ⟨payload, ?_, hk⟩
          rw [hc]
          rfl
      · rcases dispatching_update rfl hd with ⟨hd, -⟩ | ⟨-, payload', hcall, -⟩
        · exact hd
        · cases hcall
  | committed payload hc hauto =>
      have hpull : Pulling cfg w (internalKey cfg payload) c := by
        refine ⟨payload, ?_, rfl⟩
        rw [hc]
        rfl
      refine h.store hpull entries_inserted rfl rfl (fun k' c' hp => ?_) ?_
      · rcases pulling_update rfl hp with hp | ⟨-, payload', hcall, -⟩
        · exact hp
        · cases hcall
      · show Served (w.inserted _ true).entries _ _ _
        rw [entries_inserted]
        refine h.served.store (c := c) (fun id hid => h.exclusive.free hpull hid) fun k' c' id' hd => ?_
        rcases dispatching_update rfl hd with ⟨hd, -⟩ | ⟨hc', payload', hcall, hk⟩
        · exact .inl hd
        · cases hcall
          exact .inr ⟨hk.symm, hc', rfl⟩
  | finished payload hc hauto =>
      have hpull : Pulling cfg w (internalKey cfg payload) c := by
        refine ⟨payload, ?_, rfl⟩
        rw [hc]
        rfl
      have hnone : ∀ id, (id, internalKey cfg payload) ∉ w.entries := fun id hid =>
        h.exclusive.free hpull hid
      refine h.store hpull entries_inserted rfl rfl (fun k' c' hp => ?_) ?_
      · rcases pulling_update rfl hp with hp | ⟨-, payload', hcall, -⟩
        · exact hp
        · cases hcall
      · show Served (w.inserted _ false).entries _ _ _
        rw [entries_inserted]
        have hstored : Served (w.entries ++ [(w.puller.nextId, internalKey cfg payload)])
            (fun k => w.puller.attempts.count k) w.pulls (Dispatching cfg w) :=
          h.served.store (c := c) hnone fun k' c' id' hd => .inl hd
        have hzero := (h.served.atMostOne (internalKey cfg payload)).1
        have hpulls : w.pulls (internalKey cfg payload) = 0 := by
          by_contra hpos
          obtain ⟨id, hid⟩ := h.served.stored (.inr (Nat.pos_of_ne_zero hpos))
          exact hnone id hid
        refine hstored.serve (c := c) (List.mem_append_right _ List.mem_cons_self)
          ⟨hzero, ?_⟩ (fun k' hk' => ⟨rfl, pulls_answer_of_key hk'⟩) (fun k' c' id' hd => ?_)
          (fun c' id' hd => absurd (h.served.fresh hd).1 (hnone id'))
        · exact pulls_answer_le.trans (by show w.pulls _ + 1 ≤ 1; omega)
        · rcases dispatching_update rfl hd with hd | ⟨-, payload', hcall, -⟩
          · exact hd
          · cases hcall
  | dispatched payload id answer hc =>
      obtain ⟨hrows, hnextId, hattempts⟩ :=
        attempt_frame cfg (internalKey cfg payload) id w.puller
      have hd : Dispatching cfg w (internalKey cfg payload) c id := ⟨payload, hc, rfl⟩
      obtain ⟨hmem, hzero, hpulls⟩ := h.served.fresh hd
      refine h.frame hrows hnextId rfl (fun k c' hp => ?_) ?_
      · rcases pulling_update rfl hp with ⟨hp, -⟩ | ⟨-, payload', hcall, -⟩
        · exact hp
        · cases hcall
      · have hcount : ∀ k, (appAfter (attempt cfg (internalKey cfg payload) id
            w.puller)).attempts.count k =
              w.puller.attempts.count k + [internalKey cfg payload].count k := by
          intro k
          rw [hattempts, List.count_append]
        refine h.served.serve hmem ⟨?_, pulls_answer_le.trans ?_⟩ (fun k' hk' => ⟨?_, ?_⟩)
          (fun k' c' id' hd' => ?_) (fun c' id' hd' => h.served.one hd' hd)
        · have hone := hcount (internalKey cfg payload)
          rw [List.count_singleton_self, hzero] at hone
          exact hone.le
        · show w.pulls _ + 1 ≤ 1
          omega
        · have hsame := hcount k'
          have hzero' : [internalKey cfg payload].count k' = 0 :=
            List.count_eq_zero.mpr (by simpa using hk')
          rw [hzero'] at hsame
          exact hsame
        · exact pulls_answer_of_key hk'
        · rcases dispatching_update rfl hd' with hd' | ⟨-, payload', hcall, -⟩
          · exact hd'
          · cases hcall

/-! ## The result -/

/-- **One pull a key.** Where the calls for a key do not cross, it has at most one audio and one
meeting, is handed to a backend once, and one call at most answers `pulled`. -/
theorem pulled_once (cfg : Config) (as : List PodAct) (w : Pods)
    (hguard : Guarded (Pods.step cfg) (Apart cfg) .start as)
    (hrun : run (Pods.step cfg) .start as = some w) (key : Str) : PulledOnce w key := by
  have hstep : ∀ w a w', Once cfg w → Apart cfg w a → Pods.step cfg w a = some w' → Once cfg w' :=
    fun _ _ _ h hapart hs => once_of_step h hapart hs
  exact pulledOnce_of_once (inv_of_guarded _ _ hstep (once_start cfg) hguard hrun) key

/-- No call stands between its look and its commit. -/
theorem apart_of_none {cfg : Config} {w : Pods} {a : PodAct}
    (hnone : ∀ c, (w.calls c).pulling = none) : Apart cfg w a := by
  cases a with
  | look c =>
      intro payload _ c' payload' hpulling
      rw [hnone c'] at hpulling
      cases hpulling
  | performPull c payload => exact trivial
  | copy c ok => exact trivial
  | commit c ok => exact trivial
  | dispatch c => exact trivial

/-- A pull whose dispatch raises, and its redelivery. -/
def redeliveredPull : List PodAct :=
  [.performPull 0 pullPayload, .look 0, .copy 0 true, .commit 0 true, .dispatch 0,
   .performPull 1 pullPayload, .look 1]

theorem redeliveredPull_apart :
    Guarded (Pods.step (keventConfig 1)) (Apart (keventConfig 1)) .start redeliveredPull := by
  -- only call 0 moves before the second look, and it is through by then
  have hothers : ∀ (as : List PodAct) {w : Pods},
      run (Pods.step (keventConfig 1)) .start as = some w → (∀ a ∈ as.map (·.call), a < 2) →
        (w.calls 0).pulling = none → (w.calls 1).pulling = none →
          ∀ c, (w.calls c).pulling = none := by
    intro as w hrun hcalls h0 h1 c
    match c with
    | 0 => exact h0
    | 1 => exact h1
    | c + 2 =>
        have hc : c + 2 ∉ as.map (·.call) := fun hmem => absurd (hcalls _ hmem) (by omega)
        rw [calls_of_run hrun hc]
        rfl
  refine guarded_cons _ trivial rfl (guarded_cons _ ?_ rfl (guarded_cons _ trivial rfl
    (guarded_cons _ trivial rfl (guarded_cons _ trivial rfl (guarded_cons _ trivial rfl
      (guarded_cons _ ?_ rfl trivial))))))
  · exact apart_of_none (hothers (redeliveredPull.take 1) rfl (by decide) rfl rfl)
  · exact apart_of_none (hothers (redeliveredPull.take 6) rfl (by decide) rfl rfl)

theorem pulled_once_redelivered :
    ∃ w, run (Pods.step (keventConfig 1)) .start redeliveredPull = some w ∧
      w.log.map Prod.snd = [.alreadyPulled, .raised .keventTransient] ∧
        PulledOnce w (internalKey (keventConfig 1) pullPayload) :=
  ⟨_, rfl, by decide, pulled_once (keventConfig 1) redeliveredPull _ redeliveredPull_apart rfl _⟩

/-- The synchronous trigger and the drain, on one message. -/
def crossingPulls : List PodAct :=
  [.performPull 0 pullPayload, .performPull 1 pullPayload, .look 0, .look 1, .copy 0 true,
   .copy 1 true, .commit 0 true, .commit 1 true, .dispatch 0, .dispatch 1]

/-- **Two pulls of one payload.** Both look before either has committed. -/
theorem pulled_twice :
    ∃ w, run (Pods.step (keventConfig 0)) .start crossingPulls = some w ∧
      w.puller.rows.length = 2 ∧ w.meetings.length = 2 ∧ w.puller.attempts.length = 2 ∧
        w.log.map Prod.snd = [.pulled 1, .pulled 0] ∧
          ¬ PulledOnce w (internalKey (keventConfig 0) pullPayload) :=
  ⟨_, rfl, rfl, rfl, rfl, rfl, fun h => absurd h.audios (by decide)⟩

end MesReunions.Ingest
