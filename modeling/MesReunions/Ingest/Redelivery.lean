import MesReunions.Ingest.Pull

/-!
# Redelivered pulls

The row is committed before the dispatch, and a row that exists ends a pull
early. So the retry the queue helper grants after a failed dispatch finds the
row and is acknowledged without a second attempt.

* **`pull_of_row`** — a pull that finds its row changes nothing.
* **`served_of_row`** — nothing in the rest of the drain dispatches an audio
  whose row exists.
* **`retried_iff`** — when the redeliveries end in a dispatch.
-/

namespace MesReunions.Ingest

open MesReunions.Queue

/-- A row is stored under this key. -/
def HasRow (key : Str) (s : Puller) : Prop := key ∈ s.rows.map (·.storedFilename)

/-! ## What a dispatch touches -/

/-- A dispatch for `key` adds no row and no attempt, and speaks for `key` only. -/
structure DispatchFrame (key : Str) (s s' : Puller) : Prop where
  keys : s'.rows.map (·.storedFilename) = s.rows.map (·.storedFilename)
  attempts : s'.attempts = s.attempts
  others : ∀ k, k ≠ key → (k ∈ s'.dispatched ↔ k ∈ s.dispatched)

/-- An action on `key` that is framed, and dispatches nothing when it raises. -/
def Framed (key : Str) (x : Act Unit) : Prop :=
  ∀ s, DispatchFrame key s (appAfter (x s)) ∧
    ∀ e s', x s = .error e s' → s'.dispatched = s.dispatched

theorem framed_setStatus (key : Str) (id : Nat) (status : Status) :
    Framed key (setStatus id status) := by
  refine fun s => ⟨⟨?_, rfl, fun _ _ => Iff.rfl⟩, fun e s' h => by cases h⟩
  simp only [setStatus, modify, modifyGet, MonadStateOf.modifyGet, EStateM.modifyGet, appAfter,
    List.map_map]
  congr 1
  funext r
  simp only [Function.comp_apply]
  split <;> rfl

theorem framed_throw (key : Str) (e : IngestError) : Framed key (throw e) := by
  refine fun s => ⟨⟨rfl, rfl, fun _ _ => Iff.rfl⟩, fun e' s' h => ?_⟩
  injection h with _ h
  rw [← h]

theorem framed_dispatched (key : Str) (id : Nat) (status : Status) :
    Framed key (noteDispatched key >>= fun _ => setStatus id status) := by
  refine fun s => ⟨⟨(framed_setStatus key id status s).1.keys, rfl, fun k hk => ?_⟩,
    fun e s' h => by cases h⟩
  change k ∈ s.dispatched ++ [key] ↔ _
  simp [hk]

theorem framed_pushToMcr (cfg : Config) (env : Env) (id : Nat) (key : Str) :
    Framed key (pushToMcr cfg env id key) := by
  unfold pushToMcr
  split
  · exact framed_setStatus key id _
  split
  · exact framed_setStatus key id _
  split
  · exact framed_setStatus key id _
  split
  · exact framed_setStatus key id _
  · exact framed_throw key _
  split
  · exact framed_setStatus key id _
  · exact framed_setStatus key id _
  · exact framed_throw key _
  · exact framed_dispatched key id _

theorem framed_transcribeViaKevent (cfg : Config) (env : Env) (id : Nat) (key : Str) :
    Framed key (transcribeViaKevent cfg env id key) := by
  unfold transcribeViaKevent
  split
  · exact framed_setStatus key id _
  split
  · exact framed_setStatus key id _
  · exact framed_setStatus key id _
  · exact framed_throw key _
  · exact framed_dispatched key id _

theorem framed_dispatch (cfg : Config) (env : Env) (id : Nat) (key : Str) :
    Framed key (dispatch cfg env id key) := by
  unfold dispatch
  split
  · exact framed_pushToMcr cfg env id key
  split
  · intro s
    obtain ⟨hmark, -⟩ := framed_setStatus key id .keventTranscribing s
    obtain ⟨hrun, hraise⟩ := framed_transcribeViaKevent cfg env id key
      (appAfter (setStatus id .keventTranscribing s))
    exact ⟨⟨hrun.keys.trans hmark.keys, hrun.attempts, hrun.others⟩, hraise⟩
  split
  · exact framed_setStatus key id _
  · exact fun s => ⟨⟨rfl, rfl, fun _ _ => Iff.rfl⟩, fun e s' h => by cases h⟩

/-! ## What a pull does -/

/-- A payload that `_perform_pull` gets past its two checks. -/
structure Pullable (payload : List (Str × Json)) : Prop where
  fields : (required.any fun f => (Json.get? payload f).isNone) = false
  filename : filenameIsText payload = true

theorem find_isSome_iff (key : Str) (s : Puller) :
    (s.rows.find? fun r => r.storedFilename == key).isSome = true ↔ HasRow key s := by
  simp [HasRow]

/-- **The idempotence guard.** A pull that finds its row changes nothing. -/
theorem pull_of_row {cfg : Config} {payload : List (Str × Json)} {s : Puller}
    (hrow : HasRow (internalKey cfg payload) s) :
    performPull cfg payload s = .ok .alreadyPulled s ∨
      performPull cfg payload s = .error .valueError s := by
  unfold performPull
  split
  · exact Or.inr rfl
  · left
    have hfind := (find_isSome_iff _ s).mpr hrow
    simp only [bind, EStateM.bind, get, getThe, MonadStateOf.get, EStateM.get, hfind, if_true]
    rfl

/-- A callback on a message whose row exists acknowledges it and changes nothing. -/
theorem callback_of_row (cfg : Config) {payload : List (Str × Json)} {s : Puller}
    (hrow : HasRow (internalKey cfg payload) s) :
    drainInternalPullCallback cfg (.obj payload) s = .ok true s := by
  change verdict (performPull cfg payload s) = _
  rcases pull_of_row hrow with h | h <;> rw [h] <;> rfl

/-- The state a pull dispatches from: the row is committed, the attempt counted. -/
def committed (cfg : Config) (payload : List (Str × Json)) (s : Puller) : Puller :=
  { s with
    rows := s.rows ++ [⟨s.nextId, internalKey cfg payload,
      if (field payload "auto_transcribe").truthy then .pending else .disabled⟩]
    nextId := s.nextId + 1
    attempts := if (field payload "auto_transcribe").truthy then
      s.attempts ++ [internalKey cfg payload] else s.attempts }

/-- **The order of the writes.** A pull that finds no row commits one, and then
its result is that of the dispatch. -/
theorem pull_of_no_row {cfg : Config} {payload : List (Str × Json)} {s : Puller}
    (hpull : Pullable payload) (hrow : ¬ HasRow (internalKey cfg payload) s)
    (hauto : (field payload "auto_transcribe").truthy = true) :
    performPull cfg payload s =
      (dispatch cfg (cfg.env (internalKey cfg payload)
          (s.attempts.count (internalKey cfg payload))) s.nextId (internalKey cfg payload) >>=
        fun _ => pure .pulled) (committed cfg payload s) := by
  have hfind : (s.rows.find? fun r => r.storedFilename == internalKey cfg payload).isSome =
      false := by
    rw [Bool.eq_false_iff]
    exact mt (find_isSome_iff _ s).mp hrow
  unfold performPull
  rw [if_neg (by rw [hpull.fields]; exact Bool.false_ne_true)]
  simp only [bind, EStateM.bind, get, getThe, MonadStateOf.get, EStateM.get, hfind,
    hpull.filename, hauto, commitRow, noteAttempt, committed, modify, modifyGet,
    MonadStateOf.modifyGet, EStateM.modifyGet, if_true, if_false, Bool.false_eq_true,
    Bool.not_true]

/-- Whatever a pull does, its state is the one it began with, the one with the row
committed, or that of a dispatch from there. -/
theorem pull_cases (cfg : Config) (payload : List (Str × Json)) (s : Puller) :
    appAfter (performPull cfg payload s) = s ∨
      appAfter (performPull cfg payload s) = committed cfg payload s ∨
      ∃ env, appAfter (performPull cfg payload s) =
        appAfter (dispatch cfg env s.nextId (internalKey cfg payload)
          (committed cfg payload s)) := by
  by_cases hfields : (required.any fun f => (Json.get? payload f).isNone) = true
  · left
    unfold performPull
    rw [if_pos hfields]
    rfl
  by_cases hrow : HasRow (internalKey cfg payload) s
  · left
    rcases pull_of_row hrow with h | h <;> rw [h] <;> rfl
  cases hname : filenameIsText payload with
  | false =>
      left
      have hfind : (s.rows.find? fun r => r.storedFilename == internalKey cfg payload).isSome =
          false := by
        rw [Bool.eq_false_iff]
        exact mt (find_isSome_iff _ s).mp hrow
      unfold performPull
      rw [if_neg hfields]
      simp only [bind, EStateM.bind, get, getThe, MonadStateOf.get, EStateM.get, hfind, hname,
        if_true, if_false, Bool.false_eq_true, Bool.not_false]
      rfl
  | true =>
      have hpull : Pullable payload := ⟨by simpa using hfields, hname⟩
      cases hauto : (field payload "auto_transcribe").truthy with
      | true =>
          right; right
          refine ⟨cfg.env (internalKey cfg payload)
            (s.attempts.count (internalKey cfg payload)), ?_⟩
          rw [pull_of_no_row hpull hrow hauto]
          simp only [bind, EStateM.bind]
          generalize dispatch cfg _ s.nextId _ (committed cfg payload s) = r
          cases r <;> rfl
      | false =>
          right; left
          have hfind : (s.rows.find? fun r =>
              r.storedFilename == internalKey cfg payload).isSome = false := by
            rw [Bool.eq_false_iff]
            exact mt (find_isSome_iff _ s).mp hrow
          unfold performPull
          rw [if_neg hfields]
          simp only [bind, EStateM.bind, get, getThe, MonadStateOf.get, EStateM.get, hfind,
            hname, hauto, commitRow, committed, if_false, Bool.false_eq_true, Bool.not_true]
          rfl

/-! ## Nothing dispatches an audio whose row exists -/

/-- What is known about `key` is unchanged. -/
structure RowFrame (key : Str) (s s' : Puller) : Prop where
  row : HasRow key s → HasRow key s'
  dispatched : HasRow key s → (key ∈ s'.dispatched ↔ key ∈ s.dispatched)

theorem RowFrame.refl (key : Str) (s : Puller) : RowFrame key s s := ⟨id, fun _ => Iff.rfl⟩

theorem RowFrame.trans {key : Str} {s s' s'' : Puller} (h : RowFrame key s s')
    (h' : RowFrame key s' s'') : RowFrame key s s'' :=
  ⟨fun hr => h'.row (h.row hr),
    fun hr => (h'.dispatched (h.row hr)).trans (h.dispatched hr)⟩

theorem committed_hasRow (cfg : Config) (payload : List (Str × Json)) (s : Puller) :
    HasRow (internalKey cfg payload) (committed cfg payload s) := by
  simp [HasRow, committed]

theorem rowFrame_committed (key : Str) (cfg : Config) (payload : List (Str × Json))
    (s : Puller) : RowFrame key s (committed cfg payload s) := by
  refine ⟨fun h => ?_, fun _ => Iff.rfl⟩
  unfold HasRow committed at *
  rw [List.map_append]
  exact List.mem_append_left _ h

theorem rowFrame_callback (key : Str) (cfg : Config) (message : Json) (s : Puller) :
    RowFrame key s (appAfter (drainInternalPullCallback cfg message s)) := by
  cases message with
  | obj payload =>
      have hverdict : appAfter (drainInternalPullCallback cfg (.obj payload) s) =
          appAfter (performPull cfg payload s) := by
        change appAfter (verdict (performPull cfg payload s)) = _
        cases performPull cfg payload s with
        | ok a s' => rfl
        | error e s' => cases e <;> rfl
      rw [hverdict]
      by_cases hkey : key = internalKey cfg payload
      · subst hkey
        by_cases hrow : HasRow (internalKey cfg payload) s
        · rcases pull_of_row hrow with h | h <;> rw [h] <;> exact RowFrame.refl _ s
        · exact ⟨fun h => absurd h hrow, fun h => absurd h hrow⟩
      · rcases pull_cases cfg payload s with h | h | ⟨env, h⟩ <;> rw [h]
        · exact RowFrame.refl key s
        · exact rowFrame_committed key cfg payload s
        · refine (rowFrame_committed key cfg payload s).trans ?_
          have hframe := (framed_dispatch cfg env s.nextId (internalKey cfg payload)
            (committed cfg payload s)).1
          refine ⟨fun hr => ?_, fun _ => hframe.others key hkey⟩
          unfold HasRow
          rw [hframe.keys]
          exact hr
  | null => exact RowFrame.refl key s
  | bool b => exact RowFrame.refl key s
  | int n => exact RowFrame.refl key s
  | float x => exact RowFrame.refl key s
  | str t => exact RowFrame.refl key s
  | list items => exact RowFrame.refl key s

/-- Whatever message the helper handles next, it does not dispatch an audio whose
row exists. -/
theorem served_of_row (key : Str) (cfg : Config) (loads : Bytes → Option Json)
    (maxRetries : Int) (w : World Puller) :
    RowFrame key w.app (served (pullPolicy cfg loads maxRetries) w).app := by
  unfold served
  split
  · exact RowFrame.refl key w.app
  · rename_i m rest hready
    have hcases := onMessage_handling (pullPolicy cfg loads maxRetries) ⟨w.nextTag, m⟩
      (w.delivered m rest)
    generalize onMessage (pullPolicy cfg loads maxRetries) ⟨w.nextTag, m⟩
      (w.delivered m rest) = r at hcases
    cases hcases with
    | unparseable hbody => exact RowFrame.refl key w.app
    | notObject message hbody hobj => exact RowFrame.refl key w.app
    | done message hbody hobj hout => exact rowFrame_callback key cfg message w.app
    | escaped message hbody hobj hout hinf => exact rowFrame_callback key cfg message w.app
    | dropped message hbody hobj hout hinf hmax => exact rowFrame_callback key cfg message w.app
    | requeued message hbody hobj hout hinf hmax => exact rowFrame_callback key cfg message w.app

theorem iterate_of_row (key : Str) (cfg : Config) (loads : Bytes → Option Json)
    (maxRetries : Int) (n : Nat) (w : World Puller) :
    RowFrame key w.app ((served (pullPolicy cfg loads maxRetries))^[n] w).app := by
  induction n generalizing w with
  | zero => exact RowFrame.refl key w.app
  | succ n ih =>
      rw [Function.iterate_succ_apply]
      exact (served_of_row key cfg loads maxRetries w).trans (ih _)

/-! ## When the redeliveries end in a dispatch -/

/-- The dispatch fails in a way the queue is meant to retry. -/
def FailsTransiently (cfg : Config) (env : Env) : Prop :=
  ∀ id key s, ∃ e s', dispatch cfg env id key s = .error e s' ∧ e.isTransient = true

/-- The dispatch succeeds. -/
def Succeeds (cfg : Config) (env : Env) : Prop :=
  ∀ id key s, ∃ s', dispatch cfg env id key s = .ok () s' ∧ key ∈ s'.dispatched

/-- From the first delivery of `m` on: the drain returns with the audio dispatched,
and no redelivery of `m` is acknowledged unless it made a new attempt. -/
structure Retried (p : Policy IngestError Puller) (w : World Puller) (m : Msg) (key : Str) :
    Prop where
  dispatched : ∃ fuel handled w', drainLoop p fuel 0 w = .ok (some handled) w' ∧
    key ∈ w'.app.dispatched
  attempted : ∀ n m' rest message, ((served p)^[n + 1] w).ready = m' :: rest →
    m'.origin = m.origin → p.loads m'.body = some message →
    p.outcome message ((served p)^[n + 1] w).app = true →
    ((served p)^[n + 1] w).app.attempts.count key <
      (appAfter (p.callback message ((served p)^[n + 1] w).app)).attempts.count key

section Runs

variable (cfg : Config) (loads : Bytes → Option Json) (maxRetries : Int)
  {w : World Puller} {m : Msg} {rest : List Msg} {payload : List (Str × Json)}

/-- A first delivery whose callback succeeded is the last one. -/
theorem retried_of_done (hready : w.ready = m :: rest) (hun : w.unacked = [])
    (hreadable : (pullPolicy cfg loads maxRetries).Readable w.ready)
    (horigin : ∀ x ∈ rest, x.origin ≠ m.origin) (hbody : loads m.body = some (.obj payload))
    {s' : Puller} (hcall : drainInternalPullCallback cfg (.obj payload) w.app = .ok true s')
    (hrow : HasRow (internalKey cfg payload) s')
    (hdisp : internalKey cfg payload ∈ s'.dispatched) :
    Retried (pullPolicy cfg loads maxRetries) w m (internalKey cfg payload) := by
  have hout : (pullPolicy cfg loads maxRetries).outcome (.obj payload) w.app = true := by
    unfold Policy.outcome
    rw [show (pullPolicy cfg loads maxRetries).callback (.obj payload) w.app = _ from hcall]
  obtain ⟨hturn, hnext⟩ := hreadable.turn hready
  obtain ⟨happ, hrest⟩ := (hreadable.served_eq hready hbody).1 hout
  rw [show (pullPolicy cfg loads maxRetries).callback (.obj payload) w.app = _ from hcall]
    at happ
  change _ = s' at happ
  constructor
  · obtain ⟨handled, w', hrun, hdr⟩ := consumeLoop_drained (k := 0)
      (Nat.lt_succ_self ((pullPolicy cfg loads maxRetries).work w.ready)) hun
      (fun x hx => (hreadable x hx).1) hreadable.meetsFor
    obtain ⟨n, hn⟩ := consumeLoop_iterate hrun
    refine ⟨_, handled, w', by rw [drainLoop_eq_consumeLoop]; exact hrun, ?_⟩
    cases n with
    | zero =>
        have hend := hdr.ready
        rw [hn, Function.iterate_zero_apply, hready] at hend
        cases hend
    | succ n =>
        rw [Function.iterate_succ_apply] at hn
        have hframe := iterate_of_row (internalKey cfg payload) cfg loads maxRetries n
          (served (pullPolicy cfg loads maxRetries) w)
        rw [hn]
        exact (hframe.dispatched (by rw [happ]; exact hrow)).mpr (by rw [happ]; exact hdisp)
  · intro n m' rest' message hready' ho
    have hfresh : ∀ x ∈ (served (pullPolicy cfg loads maxRetries) w).ready,
        x.origin ≠ m.origin := by rw [hrest]; exact horigin
    rw [Function.iterate_succ_apply] at hready'
    exact absurd ho (hnext.origin_iterate n hfresh m'
      (by rw [hready']; exact List.mem_cons_self))

/-- **The lost retry.** A first delivery that commits the row and then fails is
republished, and its redelivery is acknowledged without an attempt. -/
theorem not_retried_of_transient (hready : w.ready = m :: rest)
    (hreadable : (pullPolicy cfg loads maxRetries).Readable w.ready)
    (hbody : loads m.body = some (.obj payload)) (hpull : Pullable payload)
    (hauto : (field payload "auto_transcribe").truthy = true)
    (hcount : countOf m.headers = 0) (hmax : 0 < maxRetries)
    (hrow : ¬ HasRow (internalKey cfg payload) w.app)
    (hfail : FailsTransiently cfg (cfg.env (internalKey cfg payload)
      (w.app.attempts.count (internalKey cfg payload)))) :
    ¬ Retried (pullPolicy cfg loads maxRetries) w m (internalKey cfg payload) := by
  rintro ⟨-, hatt⟩
  -- the first delivery commits the row, fails, and is republished behind `rest`
  obtain ⟨e, s', hdispatch, htransient⟩ := hfail w.app.nextId (internalKey cfg payload)
    (committed cfg payload w.app)
  have hcall : drainInternalPullCallback cfg (.obj payload) w.app = .ok false s' := by
    change verdict (performPull cfg payload w.app) = _
    rw [pull_of_no_row hpull hrow hauto]
    simp only [bind, EStateM.bind, hdispatch]
    cases e <;> first | rfl | cases htransient
  have hout : (pullPolicy cfg loads maxRetries).outcome (.obj payload) w.app = false := by
    unfold Policy.outcome
    rw [show (pullPolicy cfg loads maxRetries).callback (.obj payload) w.app = _ from hcall]
  obtain ⟨happ, hqueue⟩ := (hreadable.served_eq hready hbody).2 hout (by rw [hcount]; exact hmax)
  rw [show (pullPolicy cfg loads maxRetries).callback (.obj payload) w.app = _ from hcall]
    at happ
  change _ = s' at happ
  have hrow' : HasRow (internalKey cfg payload)
      (served (pullPolicy cfg loads maxRetries) w).app := by
    have hframe := (framed_dispatch cfg (cfg.env (internalKey cfg payload)
      (w.app.attempts.count (internalKey cfg payload))) w.app.nextId
      (internalKey cfg payload) (committed cfg payload w.app)).1
    rw [hdispatch] at hframe
    rw [happ]
    unfold HasRow
    rw [show s'.rows.map (·.storedFilename) = _ from hframe.keys]
    exact committed_hasRow cfg payload w.app
  -- when its turn comes again, the row is there and no attempt is made
  obtain ⟨post, hturn⟩ := (hreadable.turn hready).2.reaches rest (x := m.republished)
    (show _ = rest ++ m.republished :: [] from hqueue)
  have hrow'' := (iterate_of_row (internalKey cfg payload) cfg loads maxRetries rest.length
    (served (pullPolicy cfg loads maxRetries) w)).row hrow'
  rw [← Function.iterate_succ_apply] at hturn hrow''
  have hcall' := callback_of_row cfg hrow''
  have hlt := hatt rest.length m.republished post (.obj payload) hturn rfl hbody
    (by
      unfold Policy.outcome
      rw [show (pullPolicy cfg loads maxRetries).callback (.obj payload) _ = _ from hcall'])
  rw [show (pullPolicy cfg loads maxRetries).callback (.obj payload) _ = _ from hcall'] at hlt
  exact lt_irrefl _ hlt

/-- **When redeliveries end in a dispatch.** Take the drain at the first delivery of
`m`, an `auto_transcribe` pull, anything else readable being queued behind it, and
suppose the dispatch for its audio fails transiently at the first `k` attempts, `k`
within the retries, and succeeds at the next. The redeliveries get the audio
dispatched exactly when its row, if there is one already, belongs to an audio
already dispatched, and `k = 0` if there is none. -/
theorem retried_iff (k : Nat) (hready : w.ready = m :: rest) (hun : w.unacked = [])
    (hreadable : (pullPolicy cfg loads maxRetries).Readable w.ready)
    (horigin : ∀ x ∈ rest, x.origin ≠ m.origin) (hbody : loads m.body = some (.obj payload))
    (hpull : Pullable payload) (hauto : (field payload "auto_transcribe").truthy = true)
    (hcount : countOf m.headers = 0) (hk : (k : Int) ≤ maxRetries)
    (hfail : ∀ j < k, FailsTransiently cfg (cfg.env (internalKey cfg payload)
      (w.app.attempts.count (internalKey cfg payload) + j)))
    (hok : Succeeds cfg (cfg.env (internalKey cfg payload)
      (w.app.attempts.count (internalKey cfg payload) + k))) :
    Retried (pullPolicy cfg loads maxRetries) w m (internalKey cfg payload) ↔
      (HasRow (internalKey cfg payload) w.app →
        internalKey cfg payload ∈ w.app.dispatched) ∧
      (¬ HasRow (internalKey cfg payload) w.app → k = 0) := by
  constructor
  · rintro ⟨⟨fuel, handled, w', hrun, hdisp⟩, hatt⟩
    constructor
    · intro hrow
      rw [drainLoop_eq_consumeLoop] at hrun
      obtain ⟨n, hn⟩ := consumeLoop_iterate hrun
      rw [hn] at hdisp
      exact ((iterate_of_row _ cfg loads maxRetries n w).dispatched hrow).mp hdisp
    · intro hrow
      by_contra hk0
      have hpos : 0 < k := Nat.pos_of_ne_zero hk0
      exact not_retried_of_transient cfg loads maxRetries hready hreadable hbody hpull hauto
        hcount (by omega) hrow (hfail 0 hpos) ⟨⟨fuel, handled, w', hrun, hdisp⟩, hatt⟩
  · rintro ⟨hdone, hfirst⟩
    by_cases hrow : HasRow (internalKey cfg payload) w.app
    · exact retried_of_done cfg loads maxRetries hready hun hreadable horigin hbody
        (callback_of_row cfg hrow) hrow (hdone hrow)
    · obtain rfl := hfirst hrow
      obtain ⟨s', hdispatch, hdisp⟩ := hok w.app.nextId (internalKey cfg payload)
        (committed cfg payload w.app)
      rw [Nat.add_zero] at hdispatch
      have hcall : drainInternalPullCallback cfg (.obj payload) w.app = .ok true s' := by
        change verdict (performPull cfg payload w.app) = _
        rw [pull_of_no_row hpull hrow hauto]
        simp only [bind, EStateM.bind, hdispatch]
        rfl
      have hframe := (framed_dispatch cfg (cfg.env (internalKey cfg payload)
        (w.app.attempts.count (internalKey cfg payload))) w.app.nextId
        (internalKey cfg payload) (committed cfg payload w.app)).1
      rw [hdispatch] at hframe
      refine retried_of_done cfg loads maxRetries hready hun hreadable horigin hbody hcall ?_ hdisp
      unfold HasRow
      rw [show s'.rows.map (·.storedFilename) = _ from hframe.keys]
      exact committed_hasRow cfg payload w.app

end Runs

/-! ## One pull, dispatched at once or failing once -/

/-- A Kevent deployment whose first `failures` transcriptions fail transiently. -/
def keventConfig (failures : Nat) : Config where
  transcriptionBackend := "kevent".toList
  lower := id
  format
    | .str s => s
    | _ => []
  env _ n :=
    { mcrConfigured := false, ciphertext := false, decrypts := false
      exchangeRefresh := .ok (), createMeeting := .ok (), generatePresigned := .ok ()
      uploadBinary := .ok (), keventConfigured := true
      transcribe := if n < failures then .error .keventTransient else .ok ()
      enqueue := .ok () }

def pullPayload : List (Str × Json) :=
  [("file_id".toList, .str ['f']), ("user_sub".toList, .str ['u']),
   ("simple_code".toList, .str ['c']), ("transcoded_filename".toList, .str ['t']),
   ("auto_transcribe".toList, .bool true)]

/-- The body of a pull, as JSON text. -/
def pullBody : Bytes :=
  ("\x7b\"file_id\":\"f\",\"user_sub\":\"u\",\"simple_code\":\"c\",".toList ++
    "\"transcoded_filename\":\"t\",\"auto_transcribe\":true\x7d".toList).map
    fun c => UInt8.ofNat c.toNat

/-- `json.loads`, on that body. -/
def pullLoads (b : Bytes) : Option Json := if b = pullBody then some (.obj pullPayload) else none

/-- A drain about to take that message, for the first time. -/
def pullWorld : World Puller :=
  World.start ⟨[], 0, [], []⟩ [⟨pullBody, none, 0⟩]

theorem pullLoads_body : pullLoads pullBody = some (.obj pullPayload) := if_pos rfl

theorem pullWorld_readable (failures : Nat) :
    (pullPolicy (keventConfig failures) pullLoads 5).Readable pullWorld.ready := by
  intro x hx
  rw [List.mem_singleton.mp hx]
  refine ⟨⟨_, pullLoads_body, rfl⟩, ?_⟩
  rintro ⟨negative, h⟩
  simp [Msg.headers, retryField] at h

theorem pullPayload_pullable : Pullable pullPayload := ⟨by decide, by decide⟩

theorem keventConfig_fails {failures n : Nat} (h : n < failures) (key : Str) :
    FailsTransiently (keventConfig failures) ((keventConfig failures).env key n) := by
  intro id key' s
  refine ⟨.keventTransient, appAfter (setStatus id .keventTranscribing s), ?_, rfl⟩
  have htranscribe : ((keventConfig failures).env key n).transcribe =
      .error .keventTransient := if_pos h
  have hbackend : backend (keventConfig failures) = "kevent".toList :=
    (by decide : Str.strip "kevent".toList = "kevent".toList)
  have hclient : buildKeventClient (keventConfig failures)
      ((keventConfig failures).env key n) = true := rfl
  unfold dispatch transcribeViaKevent
  rw [hbackend, if_neg (by decide), if_pos rfl, hclient, htranscribe]
  rfl

theorem keventConfig_succeeds (failures : Nat) (key : Str) :
    Succeeds (keventConfig failures) ((keventConfig failures).env key failures) := by
  intro id key' s
  have htranscribe : ((keventConfig failures).env key failures).transcribe = .ok () :=
    if_neg (lt_irrefl _)
  have hbackend : backend (keventConfig failures) = "kevent".toList :=
    (by decide : Str.strip "kevent".toList = "kevent".toList)
  have hclient : buildKeventClient (keventConfig failures)
      ((keventConfig failures).env key failures) = true := rfl
  unfold dispatch transcribeViaKevent
  rw [hbackend, if_neg (by decide), if_pos rfl, hclient, htranscribe]
  refine ⟨_, rfl, ?_⟩
  exact List.mem_append_right _ (List.mem_singleton_self _)

/-- A pull whose dispatch succeeds at once. -/
theorem pull_dispatched_at_once :
    Retried (pullPolicy (keventConfig 0) pullLoads 5) pullWorld ⟨pullBody, none, 0⟩
      (internalKey (keventConfig 0) pullPayload) :=
  (retried_iff (keventConfig 0) pullLoads 5 0 (w := pullWorld) (m := ⟨pullBody, none, 0⟩)
    (show pullWorld.ready = _ :: [] from rfl) rfl (pullWorld_readable 0)
    (fun x hx => absurd hx List.not_mem_nil) pullLoads_body pullPayload_pullable rfl rfl
    (by decide) (fun j hj => absurd hj (Nat.not_lt_zero j))
    (keventConfig_succeeds 0 _)).mpr
    ⟨fun h => absurd h List.not_mem_nil, fun _ => rfl⟩

/-- **A pull that fails once is lost.** The transcription fails transiently at the
first attempt and would succeed at the second, five retries being allowed. -/
theorem pull_failing_once_lost :
    FailsTransiently (keventConfig 1) ((keventConfig 1).env
      (internalKey (keventConfig 1) pullPayload) 0) ∧
    Succeeds (keventConfig 1) ((keventConfig 1).env
      (internalKey (keventConfig 1) pullPayload) 1) ∧
    ¬ Retried (pullPolicy (keventConfig 1) pullLoads 5) pullWorld ⟨pullBody, none, 0⟩
      (internalKey (keventConfig 1) pullPayload) :=
  ⟨keventConfig_fails Nat.zero_lt_one _, keventConfig_succeeds 1 _,
    not_retried_of_transient (keventConfig 1) pullLoads 5 (w := pullWorld)
      (m := ⟨pullBody, none, 0⟩) (show pullWorld.ready = _ :: [] from rfl)
      (pullWorld_readable 1) pullLoads_body pullPayload_pullable rfl rfl (by decide)
      (fun h => absurd h List.not_mem_nil) (keventConfig_fails Nat.zero_lt_one _)⟩

end MesReunions.Ingest
