import MesReunions.VideoIngest.Worker

/-!
# One owner, final outcomes

None of `extend_lease`, `complete`, `fail` and `retry` asks who holds the job, so a
worker that stalls past its lease writes over its successor. What the statements do
give is the protection of the lease itself.

* **`InLease`** — a worker's statement that reaches a row runs while the worker is
  still at that job, before the end of the lease it last wrote.
* **`Owned`** — the invariant: while its lease runs, a worker's job is running, with
  that lease, and was claimed last by it.
* **`fenced_of_inLease`** — in a run whose steps are all within their leases,
  terminal states are final and only the last claimer writes.
-/

namespace MesReunions.VideoIngest

open TSys

/-! ## What is asked of every step -/

/-- The worker and the job of a heartbeat or an outcome that reaches a row. -/
def Op.writes (s : World) : Op → Option (Nat × Nat)
  | .beatWrite b _ =>
      if (s.jobs b.claim.job).any (·.status == .running) then some (b.worker, b.claim.job)
      else none
  | .finish worker _ outcome =>
      match s.main worker, outcome with
      | _, .lost => none
      | .working c _, _ => some (worker, c.job)
      | _, _ => none
  | _ => none

/-- (a) A job that is done or failed keeps its status, and (b) only the worker that
made the most recent claim of a job extends its lease or writes its outcome. -/
structure Fenced (s : World) (op : Op) (s' : World) : Prop where
  terminal : ∀ j r, s.jobs j = some r → r.status.isTerminal = true →
    ∃ r', s'.jobs j = some r' ∧ r'.status = r.status
  owner : ∀ w j, op.writes s = some (w, j) → s.lastClaimer j = some w

/-- A statement that reaches a row runs within the lease of its worker. -/
def InLease (s : World) : Op → Prop
  | .beatWrite b _ => (s.jobs b.claim.job).any (·.status == .running) = true →
      ∃ lease, s.main b.worker = .working b.claim lease ∧ s.now ≤ lease
  | .finish worker _ outcome => outcome ≠ .lost →
      ∀ c lease, s.main worker = .working c lease → s.now ≤ lease
  | _ => True

/-! ## The invariant -/

/-- The row of a job whose worker `w` is within its lease. -/
structure Holds (lastClaimer : Nat → Option Nat) (w : Nat) (c : Claim) (lease : Nat)
    (r : Row) : Prop where
  running : r.status = .running
  attempts : r.attempts = c.attempts
  leaseUntil : r.leaseUntil = some lease
  claimer : lastClaimer c.job = some w

/-- Claims are told apart by their `attempts`, and a lease that has not ended
protects its row. -/
structure Owned (s : World) : Prop where
  unique : ∀ w w' c e e', s.main w = .working c e → s.main w' = .working c e' → w = w'
  row : ∀ w c e, s.main w = .working c e → ∃ r, s.jobs c.job = some r ∧
    c.attempts ≤ r.attempts ∧ (s.now ≤ e → Holds s.lastClaimer w c e r)

theorem owned_start (jobs : Table) : Owned (World.start jobs) where
  unique w w' c e e' h := by cases h
  row w c e h := by cases h

/-! ## What an outcome does to the table -/

theorem runAndRecord_of_ne (cfg : Config) (t : Table) (c : Claim) (began : Nat) (o : Outcome)
    {k : Nat} (h : k ≠ c.job) : runAndRecord cfg t c began o k = t k := by
  cases o with
  | transient e =>
      simp only [runAndRecord]
      split <;> exact update_of_ne h _ _
  | lost => rfl
  | result v u => exact update_of_ne h _ _
  | videoUnavailable e => exact update_of_ne h _ _
  | needsAudio e => exact update_of_ne h _ _
  | providerError e => exact update_of_ne h _ _
  | unexpected => exact update_of_ne h _ _

theorem runAndRecord_self (cfg : Config) {t : Table} {c : Claim} (began : Nat) (o : Outcome)
    {r : Row} (h : t c.job = some r) :
    ∃ r', runAndRecord cfg t c began o c.job = some r' ∧ r'.attempts = r.attempts := by
  cases o with
  | transient e =>
      simp only [runAndRecord]
      split <;> exact ⟨_, update_self h _ _, rfl⟩
  | lost => exact ⟨r, h, rfl⟩
  | result v u => exact ⟨_, update_self h _ _, rfl⟩
  | videoUnavailable e => exact ⟨_, update_self h _ _, rfl⟩
  | needsAudio e => exact ⟨_, update_self h _ _, rfl⟩
  | providerError e => exact ⟨_, update_self h _ _, rfl⟩
  | unexpected => exact ⟨_, update_self h _ _, rfl⟩

/-! ## Steps -/

/-- A job that may be claimed or reset is in no one's running lease. -/
theorem Owned.not_held {s : World} (h : Owned s) {w : Nat} {c : Claim} {e began : Nat} {r : Row}
    (hw : s.main w = .working c e) (hr : s.jobs c.job = some r) (hbegan : began ≤ s.now)
    (hfree : r.status = .running → ∃ t, r.leaseUntil = some t ∧ t < began) : ¬ s.now ≤ e := by
  intro hle
  obtain ⟨r', hr', -, hholds⟩ := h.row w c e hw
  obtain rfl := Option.some.inj (hr.symm.trans hr')
  obtain ⟨hrun, -, hlease, -⟩ := hholds hle
  obtain ⟨t, ht, hlt⟩ := hfree hrun
  rw [hlease] at ht
  injection ht with ht
  omega

theorem Row.claimable_free {r : Row} {began : Nat} (h : r.claimable began = true) :
    r.status.isTerminal = false ∧
      (r.status = .running → ∃ t, r.leaseUntil = some t ∧ t < began) := by
  simp only [Row.claimable, Bool.or_eq_true, Bool.and_eq_true, beq_iff_eq] at h
  rcases h with ⟨hp, -⟩ | ⟨hr, hlease⟩
  · exact ⟨by rw [hp]; rfl, fun hr => by rw [hp] at hr; cases hr⟩
  · refine ⟨by rw [hr]; rfl, fun _ => ?_⟩
    cases hl : r.leaseUntil with
    | none => simp [hl] at hlease
    | some t => exact ⟨t, rfl, by simpa [hl] using hlease⟩

theorem Row.orphan_free {r : Row} {began : Nat} (h : r.orphan began = true) :
    r.status = .running ∧ ∃ t, r.leaseUntil = some t ∧ t < began := by
  simp only [Row.orphan, Bool.and_eq_true, beq_iff_eq] at h
  obtain ⟨hr, hlease⟩ := h
  cases hl : r.leaseUntil with
  | none => simp [hl] at hlease
  | some t => exact ⟨hr, t, rfl, by simpa [hl] using hlease⟩

theorem Status.running_not_terminal {r : Row} (h : r.status = .running) :
    r.status.isTerminal = false := by rw [h]; rfl

/-- Claiming a job that is free for it. -/
theorem owned_claim {cfg : Config} {s : World} (h : Owned s) {w j began : Nat} {r : Row}
    (hr : s.jobs j = some r) (hbegan : began ≤ s.now)
    (hfree : r.claimable began = true) :
    Owned { s with
      jobs := s.jobs.update j (fun _ => true) (·.claimed w began cfg.lease)
      main := Function.update s.main w (.working ⟨j, r.attempts + 1⟩ (began + cfg.lease))
      lastClaimer := Function.update s.lastClaimer j (some w) } := by
  -- no worker is at a claim of `j` that is not yet made
  have hfresh : ∀ v e, s.main v ≠ .working ⟨j, r.attempts + 1⟩ e := by
    intro v e hv
    obtain ⟨r', hr', hle, -⟩ := h.row v _ e hv
    obtain rfl := Option.some.inj (hr.symm.trans hr')
    exact absurd hle (by simp)
  constructor
  · intro v v' c e e' hv hv'
    by_cases hvw : v = w
    · by_cases hvw' : v' = w
      · rw [hvw, hvw']
      · simp only [hvw, Function.update_self] at hv
        simp only [Function.update_of_ne hvw'] at hv'
        injection hv with hc
        rw [← hc] at hv'
        exact absurd hv' (hfresh v' e')
    · by_cases hvw' : v' = w
      · simp only [hvw', Function.update_self] at hv'
        simp only [Function.update_of_ne hvw] at hv
        injection hv' with hc
        rw [← hc] at hv
        exact absurd hv (hfresh v e)
      · simp only [Function.update_of_ne hvw] at hv
        simp only [Function.update_of_ne hvw'] at hv'
        exact h.unique v v' c e e' hv hv'
  · intro v c e hv
    by_cases hvw : v = w
    · simp only [hvw, Function.update_self] at hv
      injection hv with hc he
      subst hc he
      refine ⟨_, update_self hr _ _, le_refl _, fun _ => ⟨rfl, rfl, rfl, ?_⟩⟩
      simp [hvw]
    · simp only [Function.update_of_ne hvw] at hv
      obtain ⟨r', hr', hle, hholds⟩ := h.row v c e hv
      by_cases hcj : c.job = j
      · rw [hcj, hr] at hr'
        obtain rfl := Option.some.inj hr'
        refine ⟨_, by rw [hcj]; exact update_self hr _ _, ?_, fun hnow => ?_⟩
        · change c.attempts ≤ r.attempts + 1
          omega
        · exact absurd hnow (h.not_held hv (by rw [hcj]; exact hr) hbegan
            (Row.claimable_free hfree).2)
      · refine ⟨r', by rw [← hr']; exact update_of_ne hcj _ _, hle, fun hnow => ?_⟩
        obtain ⟨h1, h2, h3, h4⟩ := hholds hnow
        exact ⟨h1, h2, h3, by simp only [Function.update_of_ne hcj]; exact h4⟩

/-- A worker that stops working, the rest being as it was. -/
theorem Owned.leave {s : World} (h : Owned s) (w : Nat) {m : Main}
    (hm : ∀ c e, m ≠ .working c e) :
    Owned { s with main := Function.update s.main w m } := by
  have hsame : ∀ v c e, Function.update s.main w m v = .working c e →
      s.main v = .working c e := by
    intro v c e hv
    by_cases hvw : v = w
    · simp only [hvw, Function.update_self] at hv
      exact absurd hv (hm c e)
    · simpa only [Function.update_of_ne hvw] using hv
  exact ⟨fun v v' c e e' hv hv' => h.unique v v' c e e' (hsame v c e hv) (hsame v' c e' hv'),
    fun v c e hv => h.row v c e (hsame v c e hv)⟩

/-- Within the lease of a worker, no other worker holds the job. -/
theorem Owned.alone {s : World} (h : Owned s) {w v : Nat} {c c' : Claim} {e e' : Nat}
    (hw : s.main w = .working c e) (hnow : s.now ≤ e) (hv : s.main v = .working c' e')
    (hnow' : s.now ≤ e') (hjob : c'.job = c.job) : v = w := by
  obtain ⟨r, hr, -, hholds⟩ := h.row w c e hw
  obtain ⟨r', hr', -, hholds'⟩ := h.row v c' e' hv
  rw [hjob] at hr'
  obtain rfl := Option.some.inj (hr.symm.trans hr')
  have hc : c' = c := by
    cases c; cases c'
    simp only at hjob
    simp only [Claim.mk.injEq, hjob, true_and]
    exact (hholds' hnow').attempts.symm.trans (hholds hnow).attempts
  subst hc
  exact h.unique v w c' e' e hv hw

/-- An outcome written within the lease. -/
theorem owned_finish {cfg : Config} {s : World} (h : Owned s) {w began : Nat} {c : Claim}
    {e : Nat} {o : Outcome} (hw : s.main w = .working c e) (hnow : o ≠ .lost → s.now ≤ e) :
    Owned { s with jobs := runAndRecord cfg s.jobs c began o
                   main := Function.update s.main w (.recorded c) } := by
  have hleave := h.leave w (m := .recorded c) (fun c' e' hc => by cases hc)
  by_cases ho : o = .lost
  · subst ho
    exact hleave
  refine ⟨hleave.unique, fun v c' e' hv => ?_⟩
  have hv' : s.main v = .working c' e' := by
    by_cases hvw : v = w
    · simp only [hvw, Function.update_self] at hv
      cases hv
    · simpa only [Function.update_of_ne hvw] using hv
  obtain ⟨r, hr, hle, hholds⟩ := h.row v c' e' hv'
  by_cases hjob : c'.job = c.job
  · obtain ⟨r', hr', hatt⟩ := runAndRecord_self cfg began o (hjob ▸ hr)
    refine ⟨r', by rw [hjob]; exact hr', by rw [hatt]; exact hle, fun hnow' => ?_⟩
    obtain rfl := h.alone hw (hnow ho) hv' hnow' hjob
    simp only [Function.update_self] at hv
    cases hv
  · refine ⟨r, by rw [← hr]; exact runAndRecord_of_ne cfg s.jobs c began o hjob, hle,
      fun hnow' => ?_⟩
    obtain ⟨h1, h2, h3, h4⟩ := hholds hnow'
    exact ⟨h1, h2, h3, h4⟩

/-- A heartbeat within the lease, or one that reaches no row. -/
theorem owned_beat {cfg : Config} {s : World} (h : Owned s) {b : Beat} {began : Nat}
    {beats : List Beat}
    (hlease : (s.jobs b.claim.job).any (·.status == .running) = true →
      ∃ e, s.main b.worker = .working b.claim e ∧ s.now ≤ e) :
    Owned { s with
      jobs := extendLease s.jobs b.claim.job began cfg.lease
      main := Function.update s.main b.worker
        (if (s.jobs b.claim.job).any (·.status == .running) then
          (s.main b.worker).extended b.claim (began + cfg.lease) else s.main b.worker)
      beats := beats } := by
  cases hrun : (s.jobs b.claim.job).any (·.status == .running) with
  | false =>
      -- the guard of the statement is false, so nothing changes
      have hjobs : extendLease s.jobs b.claim.job began cfg.lease = s.jobs := by
        funext k
        by_cases hk : k = b.claim.job
        · cases hr : s.jobs b.claim.job with
          | none => simp [extendLease, Table.update, hk, hr]
          | some r =>
              rw [hr] at hrun
              have hr' : (r.status == .running) = false := hrun
              rw [hk, extendLease, update_self hr, hr', hr]
              rfl
        · exact update_of_ne hk _ _
      rw [hjobs]
      simp only [if_false, Function.update_eq_self, Bool.false_eq_true]
      exact ⟨h.unique, h.row⟩
  | true =>
      obtain ⟨e, hw, hnow⟩ := hlease hrun
      obtain ⟨r, hr, hle, hholds⟩ := h.row b.worker b.claim e hw
      obtain ⟨hrunning, hatt, -, hclaimer⟩ := hholds hnow
      have hmain : (s.main b.worker).extended b.claim (began + cfg.lease) =
          .working b.claim (began + cfg.lease) := by
        rw [hw]
        exact if_pos rfl
      rw [hmain]
      have hext : extendLease s.jobs b.claim.job began cfg.lease b.claim.job =
          some { r with leaseUntil := some (began + cfg.lease) } := by
        rw [extendLease, update_self hr, hrunning]
        rfl
      have hback : ∀ v c e', Function.update s.main b.worker
          (if True then Main.working b.claim (began + cfg.lease) else s.main b.worker) v =
            .working c e' → ∃ e'', s.main v = .working c e'' ∧ (v ≠ b.worker → e'' = e') := by
        intro v c e' hv
        by_cases hvw : v = b.worker
        · simp only [hvw, Function.update_self, if_true] at hv
          injection hv with hc he
          exact ⟨e, by rw [hvw, hw, hc], fun hne => absurd hvw hne⟩
        · simp only [Function.update_of_ne hvw] at hv
          exact ⟨e', hv, fun _ => rfl⟩
      simp only [if_true] at hback ⊢
      constructor
      · intro v v' c e1 e2 hv hv'
        obtain ⟨e1', hv, -⟩ := hback v c e1 hv
        obtain ⟨e2', hv', -⟩ := hback v' c e2 hv'
        exact h.unique v v' c e1' e2' hv hv'
      · intro v c e' hv
        by_cases hvw : v = b.worker
        · simp only [hvw, Function.update_self] at hv
          injection hv with hc he
          subst hc he
          exact ⟨_, hext, hle, fun _ => ⟨hrunning, hatt, rfl, by rw [hvw]; exact hclaimer⟩⟩
        · simp only [Function.update_of_ne hvw] at hv
          obtain ⟨r', hr', hle', hholds'⟩ := h.row v c e' hv
          by_cases hjob : c.job = b.claim.job
          · rw [hjob, hr] at hr'
            obtain rfl := Option.some.inj hr'
            exact ⟨{ r with leaseUntil := some (began + cfg.lease) }, by rw [hjob]; exact hext,
              hle', fun hnow' => absurd (h.alone hw hnow hv hnow' hjob) hvw⟩
          · exact ⟨r', by rw [← hr']; exact update_of_ne hjob _ _, hle', hholds'⟩

/-- The watchdog resets no job whose lease runs. -/
theorem owned_reset {s : World} (h : Owned s) {began : Nat} (hbegan : began ≤ s.now) :
    Owned { s with jobs := resetOrphans s.jobs began } := by
  refine ⟨h.unique, fun w c e hw => ?_⟩
  obtain ⟨r, hr, hle, hholds⟩ := h.row w c e hw
  cases horphan : r.orphan began with
  | true =>
      refine ⟨{ r with status := .pending, claimedBy := none }, ?_, hle, fun hnow => ?_⟩
      · simp [resetOrphans, hr, horphan]
      · exact absurd hnow (h.not_held hw hr hbegan fun _ => (Row.orphan_free horphan).2)
  | false => exact ⟨r, by simp [resetOrphans, hr, horphan], hle, hholds⟩

/-- **The invariant.** Every step within its lease keeps it. -/
theorem owned_step (cfg : Config) (s : World) (op : Op) (s' : World) (h : Owned s)
    (hlease : InLease s op) (hs : step cfg s op = some s') : Owned s' := by
  cases op with
  | tick d =>
      injection hs with hs
      subst hs
      refine ⟨h.unique, fun w c e hw => ?_⟩
      obtain ⟨r, hr, hle, hholds⟩ := h.row w c e hw
      exact ⟨r, hr, hle, fun hnow => hholds (le_trans (Nat.le_add_right s.now d) hnow)⟩
  | enqueue job =>
      simp only [step] at hs
      split at hs
      · rename_i hnone
        injection hs with hs
        subst hs
        refine ⟨h.unique, fun w c e hw => ?_⟩
        obtain ⟨r, hr, hle, hholds⟩ := h.row w c e hw
        have hne : c.job ≠ job := fun hc => by rw [hc, hnone] at hr; cases hr
        exact ⟨r, by simp only [Function.update_of_ne hne]; exact hr, hle, hholds⟩
      · cases hs
  | claimNext w j began =>
      simp only [step] at hs
      split at hs
      · cases hs
      · rename_i r hr
        split at hs
        · rename_i hcond
          injection hs with hs
          subst hs
          exact owned_claim h hr hcond.2.1 hcond.2.2
        · cases hs
  | beatRead w =>
      simp only [step] at hs
      split at hs
      · cases hs
      · injection hs with hs; subst hs; exact ⟨h.unique, h.row⟩
      · injection hs with hs; subst hs; exact ⟨h.unique, h.row⟩
  | beatWrite b began =>
      simp only [step] at hs
      split at hs
      · injection hs with hs; subst hs; exact owned_beat h hlease
      · cases hs
  | finish w began o =>
      simp only [step] at hs
      split at hs
      · rename_i c e hw
        split at hs
        · injection hs with hs
          subst hs
          exact owned_finish h hw fun ho => hlease ho c e hw
        · cases hs
      · cases hs
  | clear w =>
      simp only [step] at hs
      split at hs
      · injection hs with hs; subst hs; exact h.leave w (fun c e hc => by cases hc)
      · cases hs
  | crash w =>
      injection hs with hs
      subst hs
      exact h.leave w (fun c e hc => by cases hc)
  | resetOrphans began =>
      simp only [step] at hs
      split at hs
      · rename_i hbegan
        injection hs with hs
        subst hs
        exact owned_reset h hbegan
      · cases hs

/-! ## Terminal states and owners -/

/-- A statement whose guard a terminal row fails leaves it. -/
theorem update_terminal {t : Table} {id : Nat} {guard : Row → Bool} {f : Row → Row} {j : Nat}
    {r : Row} (hr : t j = some r) (hguard : j = id → guard r = false) :
    t.update id guard f j = some r := by
  by_cases hj : j = id
  · subst hj
    rw [update_self hr, hguard rfl]
    rfl
  · rw [update_of_ne hj, hr]

theorem terminal_step (cfg : Config) (s : World) (op : Op) (s' : World) (h : Owned s)
    (hlease : InLease s op) (hs : step cfg s op = some s') (j : Nat) (r : Row)
    (hr : s.jobs j = some r) (hterm : r.status.isTerminal = true) : s'.jobs j = some r := by
  cases op with
  | tick d => injection hs with hs; subst hs; exact hr
  | enqueue job =>
      simp only [step] at hs
      split at hs
      · rename_i hnone
        injection hs with hs
        subst hs
        have hne : j ≠ job := fun hj => by rw [hj, hnone] at hr; cases hr
        simpa only [Function.update_of_ne hne] using hr
      · cases hs
  | claimNext w job began =>
      simp only [step] at hs
      split at hs
      · cases hs
      · rename_i r0 hr0
        split at hs
        · rename_i hcond
          injection hs with hs
          subst hs
          have hne : j ≠ job := fun hj => by
            rw [hj, hr0] at hr
            injection hr with hr
            rw [← hr, (Row.claimable_free hcond.2.2).1] at hterm
            cases hterm
          exact (update_of_ne hne _ _).trans hr
        · cases hs
  | beatRead w =>
      simp only [step] at hs
      split at hs
      · cases hs
      · injection hs with hs; subst hs; exact hr
      · injection hs with hs; subst hs; exact hr
  | beatWrite b began =>
      simp only [step] at hs
      split at hs
      · injection hs with hs
        subst hs
        refine update_terminal hr fun _ => ?_
        cases hstatus : r.status <;> rw [hstatus] at hterm <;> first | rfl | cases hterm
      · cases hs
  | finish w began o =>
      simp only [step] at hs
      split at hs
      · rename_i c e hw
        split at hs
        · injection hs with hs
          subst hs
          by_cases ho : o = .lost
          · subst ho; exact hr
          have hne : j ≠ c.job := fun hj => by
            obtain ⟨r0, hr0, -, hholds⟩ := h.row w c e hw
            rw [hj, hr0] at hr
            injection hr with hr
            rw [← hr, Status.running_not_terminal (hholds (hlease ho c e hw)).running] at hterm
            cases hterm
          exact (runAndRecord_of_ne cfg s.jobs c began o hne).trans hr
        · cases hs
      · cases hs
  | clear w =>
      simp only [step] at hs
      split at hs
      · injection hs with hs; subst hs; exact hr
      · cases hs
  | crash w => injection hs with hs; subst hs; exact hr
  | resetOrphans began =>
      simp only [step] at hs
      split at hs
      · injection hs with hs
        subst hs
        have horphan : r.orphan began = false := by
          by_contra hno
          rw [Status.running_not_terminal (Row.orphan_free (Bool.eq_true_of_not_eq_false hno)).1]
            at hterm
          cases hterm
        simp [resetOrphans, hr, horphan]
      · cases hs

theorem owner_step (s : World) (op : Op) (h : Owned s) (hlease : InLease s op) (w j : Nat)
    (hw : op.writes s = some (w, j)) : s.lastClaimer j = some w := by
  cases op with
  | beatWrite b began =>
      simp only [Op.writes] at hw
      split at hw
      · rename_i hrun
        simp only [Option.some.injEq, Prod.mk.injEq] at hw
        obtain ⟨e, hmain, hnow⟩ := hlease hrun
        obtain ⟨r, -, -, hholds⟩ := h.row _ _ e hmain
        rw [← hw.1, ← hw.2]
        exact (hholds hnow).claimer
      · cases hw
  | finish v began o =>
      simp only [Op.writes] at hw
      split at hw
      · cases hw
      · rename_i c e hmain ho
        simp only [Option.some.injEq, Prod.mk.injEq] at hw
        obtain ⟨r, -, -, hholds⟩ := h.row _ _ e hmain
        rw [← hw.1, ← hw.2]
        exact (hholds (hlease ho c e hmain)).claimer
      · cases hw
  | tick d => cases hw
  | enqueue job => cases hw
  | claimNext v job began => cases hw
  | beatRead v => cases hw
  | clear v => cases hw
  | crash v => cases hw
  | resetOrphans began => cases hw

/-- **One owner, final outcomes.** In every run of any number of workers, from any
table, whose heartbeats and outcomes reach their row within the lease of the worker
that sends them: a job once done or failed keeps that status, and only the worker
that made the most recent claim of a job extends its lease or writes its outcome. -/
theorem fenced_of_inLease (cfg : Config) (jobs : Table) (ops : List Op)
    (hlease : Guarded (step cfg) InLease (World.start jobs) ops) :
    Along (step cfg) Fenced (World.start jobs) ops := by
  refine along_of_guarded (step cfg) Owned ?_ (owned_start jobs) hlease
  intro s op s' hinv hguard hs
  refine ⟨⟨fun j r hr hterm => ?_, fun w j hw => owner_step s op hinv hguard w j hw⟩,
    owned_step cfg s op s' hinv hguard hs⟩
  exact ⟨r, terminal_step cfg s op s' hinv hguard hs j r hr hterm, rfl⟩

/-- The table with one pending job. -/
def oneJob : Table := Function.update (fun _ => none) 1 (some newRow)

/-- The default settings, on a clock that ticks once a second. -/
def defaults : Config := ⟨1, 90, 4, 20⟩

/-- Claimed, and completed half a minute later. -/
theorem fenced_single_worker :
    Along (step defaults) Fenced (World.start oneJob)
      [.claimNext 7 1 0, .tick 30, .finish 7 30 (.result 5 false)] := by
  refine fenced_of_inLease defaults oneJob _ ⟨trivial, fun s1 h1 => ⟨trivial, fun s2 h2 => ?_⟩⟩
  injection h1 with h1
  subst h1
  injection h2 with h2
  subst h2
  refine ⟨fun _ c lease hmain => ?_, fun _ _ => trivial⟩
  change Main.working ⟨1, 1⟩ (0 + defaults.lease) = _ at hmain
  injection hmain with _ hlease
  rw [← hlease]
  decide

/-- **A stale retry.** Worker 1 stalls past its lease, worker 2 claims the job and
completes it, and the retry of worker 1 puts it back to pending. -/
theorem stale_retry_not_fenced :
    ¬ Along (step defaults) Fenced (World.start oneJob)
      [.claimNext 1 1 0, .tick 100, .claimNext 2 1 100,
        .finish 2 100 (.result 5 false),
        .finish 1 100 (.transient "429".toList)] := by
  intro h
  obtain ⟨-, h⟩ := h _ rfl
  obtain ⟨-, h⟩ := h _ rfl
  obtain ⟨-, h⟩ := h _ rfl
  obtain ⟨-, h⟩ := h _ rfl
  obtain ⟨hfenced, -⟩ := h _ rfl
  obtain ⟨r', hr', hstatus⟩ := hfenced.terminal 1 _ rfl rfl
  injection hr' with hr'
  rw [← hr'] at hstatus
  cases hstatus

end MesReunions.VideoIngest
