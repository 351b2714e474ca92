import MesReunions.Upload.Winner

/-!
# The lock against brute force

`_register_qr_failed_attempt` reads `failed_attempts` and writes it back one higher; at
`QR_CODE_MAX_FAILED_ATTEMPTS` it sets `locked_at`. `api_upload` looks at `locked_at` once, on
the row it reads first.

* `failures` — the attempts on a session that failed since the last one that claimed it.
* `counted`, `LocksAlone` — a registration is not lost, and it locks a session to which no upload
  is under way.
* **`locked`** — in such a run a session with that many failures is locked, and no file is
  accepted for one that is locked.
* **`not_locked`** — twenty attempts at once count for one.
-/

namespace MesReunions.Upload

open TSys

universe u

variable {δ : Type u}

/-- The attempts that failed since the last successful claim. -/
def failures (session : Str) : List (Attempt δ) → Nat
  | [] => 0
  | .failed _ s :: attempts =>
      if s = session then failures session attempts + 1 else failures session attempts
  | .claim e :: attempts =>
      if e.session = session ∧ e.verdict = .ok then 0 else failures session attempts

/-- From `QR_CODE_MAX_FAILED_ATTEMPTS` failures on, a session is locked. -/
def Locks (svc : Service) (w : World δ) : Prop :=
  ∀ session row, w.sessions session = some row →
    svc.maxFailedAttempts ≤ failures session w.attempts → row.lockedAt ≠ none

/-- No file is accepted for a locked session. -/
def Shut (w : World δ) (a : Act δ) : Prop :=
  ∀ c req loaded, a = .update c → w.calls c = .commit req loaded →
    ∀ row, w.sessions req.session = some row → row.lockedAt = none

/-- A registration finds the counter no higher than it has read it, and no statement of it
fails. -/
def counted (w : World δ) : Act δ → Bool
  | .update c =>
      match w.calls c with
      | .failedCommit req _ sess =>
          (w.sessions req.session).all fun row => row.failedAttempts ≤ sess.failedAttempts
      | _ => true
  | .error c =>
      match w.calls c with
      | .failedRead _ _ => false
      | .failedCommit _ _ _ => false
      | _ => true
  | _ => true

/-- A registration that locks a session does so while no upload to it is under way. -/
def LocksAlone (svc : Service) (w : World δ) : Act δ → Prop
  | .update c => ∀ req refusal sess, w.calls c = .failedCommit req refusal sess →
      svc.maxFailedAttempts ≤ sess.failedAttempts + 1 →
        ∀ c', (w.calls c').uploading ≠ some req.session
  | _ => True

/-! ## The invariant -/

structure LockInv (svc : Service) (w : World δ) : Prop where
  counted : ∀ session row, w.sessions session = some row →
    failures session w.attempts ≤ row.failedAttempts
  below : ∀ session row, w.sessions session = some row → row.lockedAt = none →
    row.failedAttempts < svc.maxFailedAttempts
  fresh : ∀ session, w.sessions session = none → failures session w.attempts = 0
  held : ∀ c req refusal sess, w.calls c = .failedCommit req refusal sess →
    sess.lockedAt ≠ none → ∀ row, w.sessions req.session = some row → row.lockedAt ≠ none
  there : ∀ c session, (w.calls c).session = some session → w.sessions session ≠ none
  shut : ∀ c session, (w.calls c).uploading = some session →
    ∀ row, w.sessions session = some row → row.lockedAt = none

theorem lockInv_start (svc : Service) : LockInv svc (World.start : World δ) where
  counted := fun _ _ h => by cases h
  below := fun _ _ h => by cases h
  fresh := fun _ _ => rfl
  held := fun _ _ _ _ h => by cases h
  there := fun _ _ h => by cases h
  shut := fun _ _ h => by cases h

/-! ## What a step does to the counters -/

/-- The row of a session, and its failures, after a step. -/
inductive Counts (svc : Service) (w : World δ) (a : Act δ) (session : Str) (row : Session δ)
    (n : Nat) : Session δ → Nat → Prop where
  | kept (row' : Session δ) (hfailed : row'.failedAttempts = row.failedAttempts)
      (hlocked : row'.lockedAt = row.lockedAt) : Counts svc w a session row n row' n
  | reset (row' : Session δ) (hfailed : row'.failedAttempts = 0)
      (hlocked : row'.lockedAt = row.lockedAt) : Counts svc w a session row n row' 0
  | registered (c : Nat) (req : Request δ) (refusal : Refusal) (sess : Session δ)
      (ha : a = .update c) (hc : w.calls c = .failedCommit req refusal sess)
      (hreq : req.session = session) :
      Counts svc w a session row n (row.registered sess svc w.now) (n + 1)

theorem write_row {w : World δ} {write : Write δ} {session : Str} {row : Session δ}
    (h : w.sessions session = some row) : (w.write write).sessions session =
      some (if write.session = session then write.set row else row) := by
  rw [write_sessions]
  by_cases hsession : write.session = session
  · rw [← hsession, Function.update_self, hsession, h, if_pos rfl, Option.map_some]
  · rw [Function.update_of_ne (Ne.symm hsession), h, if_neg hsession]

/-- A write that leaves the counters alone. -/
theorem counts_of_write {svc : Service} {w : World δ} {a : Act δ} {write : Write δ}
    {session : Str} {row : Session δ} (n : Nat) (h : w.sessions session = some row)
    (hset : ∀ row, (write.set row).failedAttempts = row.failedAttempts ∧
      (write.set row).lockedAt = row.lockedAt) :
    ∃ row', (w.write write).sessions session = some row' ∧
      Counts svc w a session row n row' n := by
  refine ⟨_, write_row h, ?_⟩
  split
  · exact .kept _ (hset row).1 (hset row).2
  · exact .kept _ rfl rfl

theorem failures_of_claim {session : Str} {e : Return δ} {attempts : List (Attempt δ)}
    (h : e.verdict ≠ .ok) : failures session (.claim e :: attempts) = failures session attempts :=
  if_neg fun hok => h hok.2

variable [DecidableEq δ]

/-- **The row of a session and its failures move together.** -/
theorem counts_of_effect {svc : Service} {w w' : World δ} {a : Act δ}
    (heff : Effect svc w a w') (hact : counted w a = true)
    (hthere : ∀ c session, (w.calls c).session = some session → w.sessions session ≠ none)
    {session : Str} {row : Session δ} (h : w.sessions session = some row) :
    ∃ row', w'.sessions session = some row' ∧ Counts svc w a session row
      (failures session w.attempts) row' (failures session w'.attempts) := by
  cases heff with
  | waited seconds => exact ⟨row, h, .kept row rfl rfl⟩
  | created qrToken simpleCode maxUploads ttl view sess hsess hnone =>
      have hne : session ≠ qrToken := by
        rintro rfl
        rw [h] at hnone
        cases hnone
      exact ⟨row, (Function.update_of_ne hne ..).trans h, .kept row rfl rfl⟩
  | trashed qrToken => exact counts_of_write _ h fun _ => ⟨rfl, rfl⟩
  | renewed qrToken expiresAt view addUploads => exact counts_of_write _ h fun _ => ⟨rfl, rfl⟩
  | moved a c next hmoves =>
      rw [proceed_sessions, proceed_attempts]
      refine ⟨row, h, ?_⟩
      cases hmoves with
      | refused | refusedAgain =>
          rw [failures_of_claim (show Verdict.claimedByOtherDevice ≠ .ok by decide)]
          exact .kept row rfl rfl
      | ignored _ req device verdict ha hread hc hok hother =>
          rw [failures_of_claim hok]
          exact .kept row rfl rfl
      | dropped _ req refusal ha hc =>
          -- the session is there, and the registration does not fail
          rcases ha with ⟨-, hgone⟩ | rfl
          · refine absurd hgone (hthere c req.session ?_)
            rcases hc with hc | ⟨sess, hc⟩ <;> rw [hc] <;> rfl
          · rcases hc with hc | ⟨sess, hc⟩ <;> simp only [counted, hc, Bool.false_eq_true] at hact
      | asked | found | failed | counting | validated | unclaimed | own | lost | passed | put
      | inserted | ended => exact .kept row rfl rfl
  | wrote c write next hwrites =>
      rw [proceed_sessions, proceed_attempts]
      cases hwrites with
      | registered req refusal sess hc =>
          refine ⟨_, write_row h, ?_⟩
          by_cases hsession : req.session = session
          · rw [if_pos hsession]
            simp only [write_attempts, failures, if_pos hsession]
            exact .registered c req refusal sess rfl hc hsession
          · rw [if_neg hsession]
            simp only [write_attempts, failures, if_neg hsession]
            exact .kept row rfl rfl
      | won req device sess row' hc hrow hnone => exact counts_of_write _ h fun _ => ⟨rfl, rfl⟩
      | granted req device hc =>
          refine ⟨_, write_row h, ?_⟩
          by_cases hsession : req.session = session
          · rw [if_pos hsession]
            simp only [write_attempts, failures, hsession, and_self, if_true]
            exact .reset _ rfl rfl
          · rw [if_neg hsession]
            simp only [write_attempts, failures, hsession, false_and, if_false]
            exact .kept row rfl rfl
      | stored req loaded response hc => exact counts_of_write _ h fun _ => ⟨rfl, rfl⟩

omit [DecidableEq δ] in
/-- A lock stays. -/
theorem lock_kept {svc : Service} {w : World δ} {a : Act δ} {session : Str}
    {row row' : Session δ} {n n' : Nat} (h : Counts svc w a session row n row' n')
    (hlocked : row.lockedAt ≠ none) : row'.lockedAt ≠ none := by
  cases h with
  | kept _ _ hsame => rwa [hsame]
  | reset _ _ hsame => rwa [hsame]
  | registered c req refusal sess ha hc hreq =>
      unfold Session.registered
      split
      · exact Option.some_ne_none w.now
      · exact hlocked

omit [DecidableEq δ] in
/-- A registration that does not lock leaves the counter below the threshold. -/
theorem below_of_registered {svc : Service} {row sess : Session δ} {now : Nat}
    (hheld : sess.lockedAt ≠ none → row.lockedAt ≠ none)
    (h : (row.registered sess svc now).lockedAt = none) :
    sess.failedAttempts + 1 < svc.maxFailedAttempts := by
  unfold Session.registered at h
  split at h
  · cases h
  · rename_i hnot
    by_contra hle
    exact hheld (fun hfree => hnot ⟨Nat.not_lt.mp hle, hfree⟩) h

omit [DecidableEq δ] in
theorem session_of_claiming {call : Call δ} {req : Request δ} (h : call.claiming = some req) :
    call.uploading = some req.session ∧ call.session = some req.session := by
  cases call with
  | validate | claimRead | claimUpdate | claimReread | claimReset =>
      cases h
      exact ⟨rfl, rfl⟩
  | idle | find | failedRead | failedCommit | store | insert | commit => cases h

omit [DecidableEq δ] in
theorem session_of_uploading {call : Call δ} {session : Str} (h : call.uploading = some session) :
    call.session = some session := by
  cases call with
  | failedRead | failedCommit => cases h
  | idle | find | validate | claimRead | claimUpdate | claimReread | claimReset | store | insert
  | commit => exact h

/-- **Where the session of a request comes from.** -/
theorem session_of_came {svc : Service} {w w' : World δ} {c : Nat} {a : Act δ} {call : Call δ}
    (h : Came svc w w' c a call) {session : Str} (hsession : call.session = some session) :
    (w.calls c).session = some session ∨ w.sessions session ≠ none := by
  have hthere : ∀ {s : Str} {row : Session δ}, w.sessions s = some row → w.sessions s ≠ none :=
    fun hrow hnone => by rw [hrow] at hnone; cases hnone
  cases h with
  | asked qrToken file => cases hsession
  | found qrToken file sess hc hsess hlocked =>
      cases hsession
      exact .inr (hthere hsess)
  | failed req refusal hc | counting req refusal sess hc | validated req device hc
  | unclaimed req device sess hc | own req device hc | won req device sess hc
  | lost req device sess hc | passed req device sess hc | put req hc | inserted req row hc =>
      rw [hc]
      exact .inl hsession
  | reached _ req ha hc hroom =>
      cases hsession
      exact .inl (session_of_claiming hc).2

/-- An upload that is under way was, or it has just seen the session unlocked. -/
theorem uploading_of_came {svc : Service} {w w' : World δ} {c : Nat} {a : Act δ} {call : Call δ}
    (h : Came svc w w' c a call) {session : Str} (hsession : call.uploading = some session) :
    (w.calls c).uploading = some session ∨
      (∀ c', a ≠ .update c') ∧ ∃ sess, w.sessions session = some sess ∧ sess.lockedAt = none := by
  cases h with
  | asked qrToken file => cases hsession
  | found qrToken file sess hc hsess hlocked =>
      cases hsession
      exact .inr ⟨fun c' ha => (by cases ha), sess, hsess, hlocked⟩
  | failed req refusal hc | counting req refusal sess hc => cases hsession
  | validated req device hc | unclaimed req device sess hc | own req device hc
  | won req device sess hc | lost req device sess hc | passed req device sess hc | put req hc
  | inserted req row hc =>
      rw [hc]
      exact .inl hsession
  | reached _ req ha hc hroom =>
      cases hsession
      exact .inl (session_of_claiming hc).1

/-- **One step.** -/
theorem lockInv_step {svc : Service} {w w' : World δ} {a : Act δ} (h : LockInv svc w)
    (hcounted : counted w a = true) (halone : LocksAlone svc w a) (heff : Effect svc w a w') :
    LockInv svc w' where
  counted := by
    intro session row' hrow'
    cases hrow : w.sessions session with
    | none =>
        obtain ⟨⟨_, _, _, _, rfl⟩, hattempts, -⟩ := created_of_effect heff hrow hrow'
        rw [hattempts, h.fresh session hrow]
        exact Nat.zero_le _
    | some row =>
        obtain ⟨row'', hsame, hcounts⟩ := counts_of_effect heff hcounted h.there hrow
        rw [hrow'] at hsame
        cases hsame
        have hle := h.counted session row hrow
        generalize failures session w'.attempts = n' at hcounts ⊢
        cases hcounts with
        | kept _ hfailed => omega
        | reset => exact Nat.zero_le _
        | registered c req refusal sess ha hc hreq =>
            subst ha
            have hread := hcounted
            simp only [counted, hc, hreq, hrow, Option.all_some, decide_eq_true_eq] at hread
            show _ ≤ sess.failedAttempts + 1
            omega
  below := by
    intro session row' hrow' hfree
    cases hrow : w.sessions session with
    | none =>
        obtain ⟨⟨_, _, _, _, rfl⟩, -⟩ := created_of_effect heff hrow hrow'
        exact svc.positive
    | some row =>
        obtain ⟨row'', hsame, hcounts⟩ := counts_of_effect heff hcounted h.there hrow
        rw [hrow'] at hsame
        cases hsame
        generalize failures session w'.attempts = n' at hcounts
        cases hcounts with
        | kept _ hfailed hlocked =>
            rw [hfailed]
            exact h.below session row hrow (hlocked ▸ hfree)
        | reset _ hfailed =>
            rw [hfailed]
            exact svc.positive
        | registered c req refusal sess ha hc hreq =>
            exact below_of_registered (fun hheld => h.held c req refusal sess hc hheld row
              (hreq ▸ hrow)) hfree
  fresh := by
    intro session hnone
    have hbefore : w.sessions session = none :=
      by_contra fun hthere => session_kept heff hthere hnone
    have hzero := h.fresh session hbefore
    rcases attempt_of_effect heff with hsame | ⟨e, hnew, hattempted⟩
    · rw [hsame, hzero]
    · rw [hnew]
      cases hattempted with
      | granted c req device hc =>
          simp only [failures]
          split
          · rfl
          · exact hzero
      | refused | refusedAgain =>
          rw [failures_of_claim (show Verdict.claimedByOtherDevice ≠ .ok by decide), hzero]
      | ignored _ e hok => rw [failures_of_claim hok, hzero]
      | failed _ c s hc =>
          have hne : s ≠ session := by
            rintro rfl
            exact h.there c s hc hbefore
          simp only [failures, if_neg hne, hzero]
  held := by
    intro c req refusal sess hc hheld row' hrow'
    have hstays : ∀ row, w.sessions req.session = some row → row.lockedAt ≠ none →
        row'.lockedAt ≠ none := by
      intro row hrow hlocked
      obtain ⟨row'', hsame, hcounts⟩ := counts_of_effect heff hcounted h.there hrow
      rw [hrow'] at hsame
      cases hsame
      exact lock_kept hcounts hlocked
    rcases call_of_effect heff c with hcall | hcall | hcame
    · have hbefore := hcall ▸ hc
      obtain ⟨row, hrow⟩ := Option.ne_none_iff_exists'.mp
        (h.there c req.session (by rw [hbefore]; rfl))
      exact hstays row hrow (h.held c req refusal sess hbefore hheld row hrow)
    · rw [hcall] at hc
      cases hc
    · rw [hc] at hcame
      cases hcame with
      | counting req refusal sess hread hsess => exact hstays sess hsess hheld
  there := by
    intro c session hsession
    rcases call_of_effect heff c with hcall | hcall | hcame
    · exact session_kept heff (h.there c session (hcall ▸ hsession))
    · rw [hcall] at hsession
      cases hsession
    · rcases session_of_came hcame hsession with hbefore | hthere
      · exact session_kept heff (h.there c session hbefore)
      · exact session_kept heff hthere
  shut := by
    intro c session hsession row' hrow'
    -- a registration may lock the session, but not while this upload is under way
    have hstays : ∀ row, w.sessions session = some row → row.lockedAt = none →
        (∃ c', (w.calls c').uploading = some session) ∨
          (∀ c', a ≠ .update c') → row'.lockedAt = none := by
      intro row hrow hfree hquiet
      obtain ⟨row'', hsame, hcounts⟩ := counts_of_effect heff hcounted h.there hrow
      rw [hrow'] at hsame
      cases hsame
      generalize failures session w'.attempts = n' at hcounts
      cases hcounts with
      | kept _ _ hlocked => rw [hlocked, hfree]
      | reset _ _ hlocked => rw [hlocked, hfree]
      | registered c' req refusal sess ha hc hreq =>
          subst ha
          rcases hquiet with ⟨c'', hup⟩ | hquiet
          · unfold Session.registered
            split
            · rename_i hlocks
              exact absurd (hreq ▸ hup) (halone req refusal sess hc hlocks.1 c'')
            · exact hfree
          · exact absurd rfl (hquiet c')
    have hbefore : (w.calls c).uploading = some session → row'.lockedAt = none := by
      intro hup
      obtain ⟨row, hrow⟩ := Option.ne_none_iff_exists'.mp
        (h.there c session (session_of_uploading hup))
      exact hstays row hrow (h.shut c session hup row hrow) (.inl ⟨c, hup⟩)
    rcases call_of_effect heff c with hcall | hcall | hcame
    · exact hbefore (hcall ▸ hsession)
    · rw [hcall] at hsession
      cases hsession
    · rcases uploading_of_came hcame hsession with hup | ⟨hread, sess, hsess, hfree⟩
      · exact hbefore hup
      · exact hstays sess hsess hfree (.inr hread)

/-! ## Runs -/

omit [DecidableEq δ] in
theorem LockInv.locks {svc : Service} {w : World δ} (h : LockInv svc w) : Locks svc w := by
  intro session row hrow hmax hfree
  have hcounted := h.counted session row hrow
  have hbelow := h.below session row hrow hfree
  omega

omit [DecidableEq δ] in
theorem LockInv.shuts {svc : Service} {w : World δ} (h : LockInv svc w) (a : Act δ) :
    Shut w a := by
  intro c req loaded _ hc row hrow
  exact h.shut c req.session (by rw [hc]; rfl) row hrow

/-- Enough failures lock a session, and at no step of the run is a file accepted for one that is
locked. -/
def BruteForceLock (svc : Service) (acts : List (Act δ)) (w : World δ) : Prop :=
  Locks svc w ∧ Along (step svc) (fun w a _ => Shut w a) World.start acts

/-- **The lock**, in every run whose registrations are counted and lock alone. -/
theorem locked {svc : Service} {acts : List (Act δ)} {w : World δ}
    (h : Guarded (step svc) (fun w a => counted w a = true ∧ LocksAlone svc w a) World.start acts)
    (hrun : run (step svc) World.start acts = some w) : BruteForceLock svc acts w := by
  have hstep : ∀ (w : World δ) a w', LockInv svc w → (counted w a = true ∧ LocksAlone svc w a) →
      step svc w a = some w' → Shut w a ∧ LockInv svc w' :=
    fun w a w' hinv hact hs =>
      ⟨hinv.shuts a, lockInv_step hinv hact.1 hact.2 (effect_of_step hs)⟩
  refine ⟨LockInv.locks ?_, along_of_guarded _ (LockInv svc) hstep (lockInv_start svc) h⟩
  exact inv_of_guarded _ (LockInv svc) (fun w a w' hinv hact hs => (hstep w a w' hinv hact hs).2)
    (lockInv_start svc) h hrun

omit [DecidableEq δ] in
/-- A registration that is alone locks alone. -/
theorem locksAlone_of_solo {svc : Service} {c : Nat} {w : World δ} {a : Act δ} (hw : Solo c w)
    (ha : a.caller = none ∨ a.caller = some c) : LocksAlone svc w a := by
  cases a with
  | update c₁ =>
      have hc₁ : c₁ = c := ha.elim nofun Option.some.inj
      subst hc₁
      intro req refusal sess hc _ c' huploading
      by_cases hne : c' = c₁
      · rw [hne, hc] at huploading
        cases huploading
      · rw [hw c' hne] at huploading
        cases huploading
  | wait | createSession | trashSession | renewSession | apiUpload | select | validate | put
  | error => trivial

/-- An attempt on session `q` that fails, up to the commit of its registration. -/
def failing (c : Nat) : List (Act Nat) :=
  [.apiUpload c ['q'] none, .select c, .validate c (.error ⟨[], ""⟩), .select c]

/-- A session that one failure locks, and an attempt after it. -/
def strict : Service := ⟨createSessionFactory, 1, by decide⟩

def oneFailure : List (Act Nat) :=
  .createSession ['q'] ['c'] 5 60 0 :: failing 0 ++ [.update 0, .apiUpload 0 ['q'] none, .select 0]

theorem locked_by_one : ∃ w, run (step strict) World.start oneFailure = some w ∧
    (w.sessions ['q']).map (·.lockedAt) = some (some 0) ∧ BruteForceLock strict oneFailure w := by
  obtain ⟨w, hw⟩ : ∃ w, run (step strict) World.start oneFailure = some w := ⟨_, rfl⟩
  have hlocked : (run (step strict) World.start oneFailure).map
      (fun w => (w.sessions ['q']).map (·.lockedAt)) = some (some (some 0)) := by decide
  rw [hw] at hlocked
  have hcaller : ∀ a ∈ oneFailure, a.caller = none ∨ a.caller = some 0 := by decide
  have hcounted : Guarded (step strict) (fun w a => counted w a = true) World.start oneFailure := by
    decide
  refine ⟨w, hw, Option.some.inj hlocked, locked (guarded_and _ hcounted ?_) hw⟩
  exact guarded_of_solo (fun _ _ => locksAlone_of_solo) (fun _ _ => rfl) hcaller

/-- Twenty attempts that all read the counter before any of them writes it. -/
def twentyAtOnce : List (Act Nat) :=
  .createSession ['q'] ['c'] 5 60 0 :: (List.range 20).flatMap failing ++
    (List.range 20).map .update

/-- **Twenty failures lock nothing.** -/
theorem not_locked : ¬∀ acts w,
    run (step .standard) (World.start : World Nat) acts = some w →
      BruteForceLock .standard acts w := by
  intro h
  obtain ⟨w, hw⟩ : ∃ w, run (step .standard) World.start twentyAtOnce = some w := ⟨_, rfl⟩
  have hstate : (run (step .standard) World.start twentyAtOnce).map
      (fun w => (failures ['q'] w.attempts, (w.sessions ['q']).map (·.lockedAt))) =
        some (20, some none) := by decide +kernel
  rw [hw] at hstate
  obtain ⟨hfailures, hrow⟩ := Prod.mk.inj (Option.some.inj hstate)
  obtain ⟨row, hrow, hfree⟩ := Option.map_eq_some_iff.mp hrow
  have hlocks := (h twentyAtOnce w hw).1 ['q'] row hrow
  rw [hfailures] at hlocks
  exact hlocks (by decide) hfree

end MesReunions.Upload
