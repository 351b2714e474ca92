import MesReunions.VideoIngest.Fencing

/-!
# How often a job is claimed

`MAX_ATTEMPTS` is looked at in one place, when an outcome is a transient failure. A job
whose worker died is claimed again whatever its `attempts`, by `claim_next` itself or after
`reset_orphans`.

* **`rowChange_of_step`** — what a step can do to one row.
* **`holder_step`** — a worker that is looked after stays at the last attempt.
* **`bounded_of_supervised`** — where no last attempt is lost, the bound holds.
* **`deaths_not_bounded`** — five claims of a job, and five dead workers.
-/

namespace MesReunions.VideoIngest

open TSys

/-! ## Runs that are counted -/

/-- How often an operation claims the job. -/
def Op.claims (j : Nat) : Op → Nat
  | .claimNext _ k _ => if k = j then 1 else 0
  | _ => 0

structure Traced where
  world : World
  /-- How often the job has been claimed. -/
  claims : Nat → Nat
  /-- The job has been done or failed. -/
  ended : Nat → Bool

/-- No job yet. -/
def Traced.start : Traced := ⟨World.start fun _ => none, fun _ => 0, fun _ => false⟩

def traced (cfg : Config) (t : Traced) (op : Op) : Option Traced :=
  (step cfg t.world op).map fun w =>
    ⟨w, fun j => t.claims j + op.claims j,
      fun j => t.ended j || (w.jobs j).any (·.status.isTerminal)⟩

/-- A job that has not ended has been claimed `MAX_ATTEMPTS` times at most, and none is
claimed before its `next_attempt_at`. -/
structure Bounded (cfg : Config) (t : Traced) (op : Op) (t' : Traced) : Prop where
  attempts : ∀ j, t'.ended j = false → t'.claims j ≤ cfg.maxAttempts
  backoff : ∀ w j began r due, op = .claimNext w j began → t.world.jobs j = some r →
    r.nextAttemptAt = some due → due ≤ t.world.now

/-! ## What is asked of a last attempt -/

/-- The worker is at an attempt after which there is no other. -/
def AtLast (cfg : Config) (s : World) (w : Nat) : Prop :=
  ∃ c e, s.main w = .working c e ∧ cfg.maxAttempts ≤ c.attempts

/-- The worker of a last attempt does not die, writes an outcome, and its leases are
renewed before they end. -/
def KeepsLast (cfg : Config) (s : World) : Op → Prop
  | .tick d => ∀ w c e, s.main w = .working c e → cfg.maxAttempts ≤ c.attempts → s.now + d ≤ e
  | .claimNext _ j began => ∀ r, s.jobs j = some r → cfg.maxAttempts ≤ r.attempts + 1 →
      s.now ≤ began + cfg.lease
  | .beatWrite b began => cfg.maxAttempts ≤ b.claim.attempts → s.now ≤ began + cfg.lease
  | .finish w _ outcome => AtLast cfg s w → outcome ≠ .lost
  | .crash w => ¬ AtLast cfg s w
  | _ => True

/-- Writes are within their leases, and no last attempt is lost. -/
structure Supervised (cfg : Config) (s : World) (op : Op) : Prop where
  inLease : InLease s op
  last : KeepsLast cfg s op

/-! ## What a step does to one row -/

/-- The row `j` before and after a step. -/
inductive RowChange (cfg : Config) (s s' : World) (op : Op) (j : Nat) : Prop where
  | same (hrow : s'.jobs j = s.jobs j) (hclaims : op.claims j = 0)
      (hfinish : ∀ w began o c e, op = .finish w began o → s.main w = .working c e →
        o ≠ .lost → c.job ≠ j)
  | enqueued (hop : op = .enqueue j) (hnone : s.jobs j = none) (hrow : s'.jobs j = some newRow)
  | claimed (w began : Nat) (r : Row) (hop : op = .claimNext w j began)
      (hr : s.jobs j = some r) (hbegan : began ≤ s.now) (hfree : r.claimable began = true)
      (hrow : s'.jobs j = some (r.claimed w began cfg.lease))
      (hmain : s'.main w = .working ⟨j, r.attempts + 1⟩ (began + cfg.lease))
  | extended (b : Beat) (began : Nat) (r : Row) (hop : op = .beatWrite b began)
      (hr : s.jobs j = some r)
      (hrow : s'.jobs j = some { r with leaseUntil := some (began + cfg.lease) })
  | outcome (w began : Nat) (o : Outcome) (c : Claim) (e : Nat)
      (hop : op = .finish w began o) (hw : s.main w = .working c e) (ho : o ≠ .lost)
      (hjob : c.job = j) (hrow : s'.jobs j = runAndRecord cfg s.jobs c began o j)
  | reset (began : Nat) (r : Row) (hop : op = .resetOrphans began) (hbegan : began ≤ s.now)
      (hr : s.jobs j = some r) (horphan : r.orphan began = true)
      (hrow : s'.jobs j = some { r with status := .pending, claimedBy := none })

/-- **What a step can do to one row.** -/
theorem rowChange_of_step {cfg : Config} {s s' : World} {op : Op} (hs : step cfg s op = some s')
    (j : Nat) : RowChange cfg s s' op j := by
  cases op with
  | tick d =>
      injection hs with hs
      subst hs
      exact .same rfl rfl (by rintro _ _ _ _ _ ⟨⟩)
  | enqueue job =>
      simp only [step] at hs
      split at hs
      · rename_i hnone
        injection hs with hs
        subst hs
        by_cases hj : j = job
        · subst hj
          exact .enqueued rfl hnone (Function.update_self ..)
        · exact .same (Function.update_of_ne hj ..) rfl fun _ _ _ _ _ hop => by cases hop
      · cases hs
  | claimNext w job began =>
      simp only [step] at hs
      split at hs
      · cases hs
      · rename_i r hr
        split at hs
        · rename_i hcond
          injection hs with hs
          subst hs
          by_cases hj : j = job
          · subst hj
            exact .claimed w began r rfl hr hcond.2.1 hcond.2.2 (update_self hr _ _)
              (Function.update_self ..)
          · exact .same (update_of_ne hj _ _) (if_neg (Ne.symm hj)) (by rintro _ _ _ _ _ ⟨⟩)
        · cases hs
  | beatRead w =>
      simp only [step] at hs
      split at hs
      · cases hs
      · injection hs with hs
        subst hs
        exact .same rfl rfl (by rintro _ _ _ _ _ ⟨⟩)
      · injection hs with hs
        subst hs
        exact .same rfl rfl (by rintro _ _ _ _ _ ⟨⟩)
  | beatWrite b began =>
      simp only [step] at hs
      split at hs
      · injection hs with hs
        subst hs
        have hsame : ∀ s' : World, s'.jobs j = s.jobs j → RowChange cfg s s' (.beatWrite b began) j := fun _ hrow =>
          .same hrow rfl (by rintro _ _ _ _ _ ⟨⟩)
        by_cases hj : j = b.claim.job
        · subst hj
          cases hr : s.jobs b.claim.job with
          | none => exact hsame _ (by simp [extendLease, Table.update, hr])
          | some r =>
              cases hrun : r.status == .running with
              | true =>
                  refine .extended b began r rfl hr ?_
                  change extendLease s.jobs b.claim.job began cfg.lease b.claim.job = _
                  rw [extendLease, update_self hr, hrun]
                  rfl
              | false =>
                  refine hsame _ ?_
                  change extendLease s.jobs b.claim.job began cfg.lease b.claim.job = _
                  rw [extendLease, update_self hr, hrun, hr]
                  rfl
        · exact hsame _ (update_of_ne hj _ _)
      · cases hs
  | finish w began o =>
      simp only [step] at hs
      split at hs
      · rename_i c e hw
        split at hs
        · injection hs with hs
          subst hs
          by_cases ho : o = .lost
          · subst ho
            refine .same rfl rfl fun w' began' o' c' e' hop _ hne => ?_
            injection hop with _ _ ho
            exact absurd ho.symm hne
          · by_cases hj : c.job = j
            · exact .outcome w began o c e rfl hw ho hj rfl
            · refine .same (runAndRecord_of_ne cfg s.jobs c began o (Ne.symm hj)) rfl
                fun w' began' o' c' e' hop hw' _ => ?_
              injection hop with hww
              subst hww
              rw [hw] at hw'
              injection hw' with hc
              rw [← hc]
              exact hj
        · cases hs
      · cases hs
  | clear w =>
      simp only [step] at hs
      split at hs
      · injection hs with hs
        subst hs
        exact .same rfl rfl (by rintro _ _ _ _ _ ⟨⟩)
      · cases hs
  | crash w =>
      injection hs with hs
      subst hs
      exact .same rfl rfl (by rintro _ _ _ _ _ ⟨⟩)
  | resetOrphans began =>
      simp only [step] at hs
      split at hs
      · rename_i hbegan
        injection hs with hs
        subst hs
        have hsame : ∀ s' : World, s'.jobs j = s.jobs j → RowChange cfg s s' (.resetOrphans began) j := fun _ hrow =>
          .same hrow rfl (by rintro _ _ _ _ _ ⟨⟩)
        cases hr : s.jobs j with
        | none => exact hsame _ (by simp [resetOrphans, hr])
        | some r =>
            cases horphan : r.orphan began with
            | true => exact .reset began r rfl hbegan hr horphan (by simp [resetOrphans, hr, horphan])
            | false => exact hsame _ (by simp [resetOrphans, hr, horphan])
      · cases hs

theorem now_le_of_step {cfg : Config} {s s' : World} {op : Op} (hs : step cfg s op = some s') :
    s.now ≤ s'.now := by
  cases op with
  | tick d =>
      cases hs
      exact Nat.le_add_right ..
  | crash w =>
      cases hs
      exact le_refl _
  | claimNext w j began =>
      simp only [step] at hs
      split at hs
      · cases hs
      · split at hs <;> cases hs
        exact le_refl _
  | finish w began o =>
      simp only [step] at hs
      split at hs
      · split at hs <;> cases hs
        exact le_refl _
      · cases hs
  | _ =>
      simp only [step] at hs
      split at hs <;> cases hs <;> exact le_refl _

/-! ## The worker of a last attempt -/

/-- **A worker that is looked after stays**, with a lease that has not ended, until it
writes its outcome. -/
theorem holder_step {cfg : Config} {s s' : World} {op : Op} (hsup : Supervised cfg s op)
    (hs : step cfg s op = some s') {w : Nat} {c : Claim} {e : Nat} (hw : s.main w = .working c e)
    (hlast : cfg.maxAttempts ≤ c.attempts) (hnow : s.now ≤ e) :
    (∃ e', s'.main w = .working c e' ∧ s'.now ≤ e') ∨
      ∃ began o, op = .finish w began o ∧ o ≠ .lost := by
  have hatLast : AtLast cfg s w := ⟨c, e, hw, hlast⟩
  cases op with
  | tick d =>
      injection hs with hs
      subst hs
      exact Or.inl ⟨e, hw, hsup.last w c e hw hlast⟩
  | enqueue job =>
      simp only [step] at hs
      split at hs
      · injection hs with hs
        subst hs
        exact Or.inl ⟨e, hw, hnow⟩
      · cases hs
  | claimNext v job began =>
      simp only [step] at hs
      split at hs
      · cases hs
      · split at hs
        · rename_i hcond
          injection hs with hs
          subst hs
          have hne : w ≠ v := fun hv => by
            rw [hv, hcond.1] at hw
            cases hw
          exact Or.inl ⟨e, (Function.update_of_ne hne ..).trans hw, hnow⟩
        · cases hs
  | beatRead v =>
      simp only [step] at hs
      split at hs
      · cases hs
      · injection hs with hs
        subst hs
        exact Or.inl ⟨e, hw, hnow⟩
      · injection hs with hs
        subst hs
        exact Or.inl ⟨e, hw, hnow⟩
  | beatWrite b began =>
      simp only [step] at hs
      split at hs
      · injection hs with hs
        subst hs
        by_cases hb : w = b.worker
        · cases hrun : (s.jobs b.claim.job).any (·.status == .running) with
          | false =>
              refine Or.inl ⟨e, ?_, hnow⟩
              simp [hb, ← hw]
          | true =>
              obtain ⟨e₀, hw₀, -⟩ := hsup.inLease hrun
              rw [← hb, hw] at hw₀
              injection hw₀ with hc
              refine Or.inl ⟨began + cfg.lease, ?_, hsup.last (hc ▸ hlast)⟩
              simp only [hb, Function.update_self, if_true]
              rw [← hb, hw, ← hc]
              exact if_pos rfl
        · exact Or.inl ⟨e, (Function.update_of_ne hb ..).trans hw, hnow⟩
      · cases hs
  | finish v began o =>
      by_cases hv : v = w
      · subst hv
        exact Or.inr ⟨began, o, rfl, hsup.last hatLast⟩
      · simp only [step] at hs
        split at hs
        · split at hs
          · injection hs with hs
            subst hs
            exact Or.inl ⟨e, (Function.update_of_ne (Ne.symm hv) ..).trans hw, hnow⟩
          · cases hs
        · cases hs
  | clear v =>
      simp only [step] at hs
      split at hs
      · rename_i c' hv
        injection hs with hs
        subst hs
        have hne : w ≠ v := fun hwv => by
          rw [hwv, hv] at hw
          cases hw
        exact Or.inl ⟨e, (Function.update_of_ne hne ..).trans hw, hnow⟩
      · cases hs
  | crash v =>
      injection hs with hs
      subst hs
      have hne : w ≠ v := fun hwv => hsup.last (hwv ▸ hatLast)
      exact Or.inl ⟨e, (Function.update_of_ne hne ..).trans hw, hnow⟩
  | resetOrphans began =>
      simp only [step] at hs
      split at hs
      · injection hs with hs
        subst hs
        exact Or.inl ⟨e, hw, hnow⟩
      · cases hs

/-! ## The invariant -/

/-- The row of a job that has not ended: attempts are left, unless a worker is at the last
one. -/
structure Room (cfg : Config) (s : World) (j : Nat) (r : Row) : Prop where
  attempts : r.attempts ≤ cfg.maxAttempts
  pending : r.status = .pending → r.attempts < cfg.maxAttempts
  running : r.status = .running → r.attempts = cfg.maxAttempts →
    ∃ w e, s.main w = .working ⟨j, r.attempts⟩ e ∧ s.now ≤ e

structure Counted (cfg : Config) (t : Traced) : Prop where
  owned : Owned t.world
  claims : ∀ j, t.claims j = ((t.world.jobs j).map Row.attempts).getD 0
  backoff : ∀ j r due, t.world.jobs j = some r → r.status = .running →
    r.nextAttemptAt = some due → due ≤ t.world.now
  ended : ∀ j r, t.world.jobs j = some r → t.ended j = false → r.status.isTerminal = false
  room : ∀ j r, t.world.jobs j = some r → t.ended j = false → Room cfg t.world j r

/-- An outcome ends the job, or puts it back for an attempt that is left. -/
theorem runAndRecord_cases (cfg : Config) {t : Table} {c : Claim} (began : Nat) {o : Outcome}
    (ho : o ≠ .lost) {r : Row} (h : t c.job = some r) :
    ∃ r', runAndRecord cfg t c began o c.job = some r' ∧ r'.attempts = r.attempts ∧
      (r'.status.isTerminal = true ∨ r'.status = .pending ∧ c.attempts < cfg.maxAttempts) := by
  cases o with
  | transient e =>
      simp only [runAndRecord]
      split
      · exact ⟨_, update_self h _ _, rfl, Or.inl rfl⟩
      · exact ⟨_, update_self h _ _, rfl, Or.inr ⟨rfl, by omega⟩⟩
  | lost => exact absurd rfl ho
  | result v u => exact ⟨_, update_self h _ _, rfl, Or.inl rfl⟩
  | videoUnavailable e => exact ⟨_, update_self h _ _, rfl, Or.inl rfl⟩
  | needsAudio e => exact ⟨_, update_self h _ _, rfl, Or.inl rfl⟩
  | providerError e => exact ⟨_, update_self h _ _, rfl, Or.inl rfl⟩
  | unexpected => exact ⟨_, update_self h _ _, rfl, Or.inl rfl⟩

theorem claimable_cases {r : Row} {began : Nat} (h : r.claimable began = true) :
    (r.status = .pending ∧ ∀ due, r.nextAttemptAt = some due → due ≤ began) ∨
      (r.status = .running ∧ ∃ t, r.leaseUntil = some t ∧ t < began) := by
  simp only [Row.claimable, Bool.or_eq_true, Bool.and_eq_true, beq_iff_eq] at h
  rcases h with ⟨hp, hdue⟩ | ⟨hr, hlease⟩
  · refine Or.inl ⟨hp, fun due hd => ?_⟩
    rw [hd] at hdue
    exact of_decide_eq_true hdue
  · refine Or.inr ⟨hr, ?_⟩
    cases hl : r.leaseUntil with
    | none => simp [hl] at hlease
    | some t => exact ⟨t, rfl, by simpa [hl] using hlease⟩

/-- The lease of a running job at its last attempt has not ended. -/
theorem Counted.not_free {cfg : Config} {t : Traced} (h : Counted cfg t) {j : Nat} {r : Row}
    (hr : t.world.jobs j = some r) (hend : t.ended j = false) (hrun : r.status = .running)
    {lease began : Nat} (hlease : r.leaseUntil = some lease) (hlt : lease < began)
    (hbegan : began ≤ t.world.now) : r.attempts < cfg.maxAttempts := by
  have hroom := h.room j r hr hend
  by_contra hnot
  have heq : r.attempts = cfg.maxAttempts := le_antisymm hroom.attempts (not_lt.mp hnot)
  obtain ⟨w, e, hw, hnow⟩ := hroom.running hrun heq
  exact h.owned.not_held hw hr hbegan (fun _ => ⟨lease, hlease, hlt⟩) hnow

theorem counted_start (cfg : Config) : Counted cfg Traced.start where
  owned := owned_start _
  claims _ := rfl
  backoff _ _ _ h := by cases h
  ended _ _ h := by cases h
  room _ _ h := by cases h

/-- The claims of a job are what its `attempts` counts. -/
theorem counted_claims {cfg : Config} {t : Traced} {op : Op} {s' : World} (h : Counted cfg t)
    (hs : step cfg t.world op = some s') (j : Nat) :
    t.claims j + op.claims j = ((s'.jobs j).map Row.attempts).getD 0 := by
  rw [h.claims j]
  cases rowChange_of_step hs j with
  | same hrow hclaims hfinish => rw [hrow, hclaims, Nat.add_zero]
  | enqueued hop hnone hrow => rw [hrow, hop, hnone]; rfl
  | claimed w began r hop hr hbegan hfree hrow hmain =>
      rw [hrow, hop, hr, Op.claims, if_pos rfl]
      rfl
  | extended b began r hop hr hrow => rw [hrow, hop, hr]; rfl
  | outcome w began o c e hop hw ho hjob hrow =>
      subst hjob hop
      obtain ⟨r, hr, -, -⟩ := h.owned.row w c e hw
      obtain ⟨r', hr', hatt, -⟩ := runAndRecord_cases cfg began ho hr
      rw [hrow, hr', hr, Option.map_some, Option.map_some, Option.getD_some, Option.getD_some, hatt]
      rfl
  | reset began r hop hbegan hr horphan hrow => rw [hrow, hop, hr]; rfl

/-- A running job has waited for its `next_attempt_at`. -/
theorem counted_backoff {cfg : Config} {t : Traced} {op : Op} {s' : World} (h : Counted cfg t)
    (hs : step cfg t.world op = some s') {j : Nat} {r' : Row} {due : Nat}
    (hr' : s'.jobs j = some r') (hrun : r'.status = .running)
    (hdue : r'.nextAttemptAt = some due) : due ≤ s'.now := by
  have hnow := now_le_of_step hs
  cases rowChange_of_step hs j with
  | same hrow hclaims hfinish =>
      rw [hrow] at hr'
      exact le_trans (h.backoff j r' due hr' hrun hdue) hnow
  | enqueued hop hnone hrow =>
      rw [hrow] at hr'
      cases hr'
      cases hrun
  | claimed w began r hop hr hbegan hfree hrow hmain =>
      rw [hrow] at hr'
      cases hr'
      rcases claimable_cases hfree with ⟨-, hpending⟩ | ⟨hrunning, -⟩
      · exact le_trans (hpending due hdue) (le_trans hbegan hnow)
      · exact le_trans (h.backoff j r due hr hrunning hdue) hnow
  | extended b began r hop hr hrow =>
      rw [hrow] at hr'
      cases hr'
      exact le_trans (h.backoff j r due hr hrun hdue) hnow
  | outcome w began o c e hop hw ho hjob hrow =>
      subst hjob
      obtain ⟨r, hr, -, -⟩ := h.owned.row w c e hw
      obtain ⟨r₁, hr₁, -, hcases⟩ := runAndRecord_cases cfg began ho hr
      rw [hrow, hr₁] at hr'
      cases hr'
      rcases hcases with hterm | ⟨hpending, -⟩
      · rw [hrun] at hterm
        cases hterm
      · rw [hrun] at hpending
        cases hpending
  | reset began r hop hbegan hr horphan hrow =>
      rw [hrow] at hr'
      cases hr'
      cases hrun

/-- Attempts are left, or the last one is being made. -/
theorem counted_room {cfg : Config} (hmax : 0 < cfg.maxAttempts) {t : Traced} {op : Op}
    {s' : World} (h : Counted cfg t) (hsup : Supervised cfg t.world op)
    (hs : step cfg t.world op = some s') {j : Nat} {r' : Row} (hr' : s'.jobs j = some r')
    (hend : t.ended j = false) (hterm : r'.status.isTerminal = false) : Room cfg s' j r' := by
  -- A worker at the last attempt is still there, unless this step is its outcome.
  have hholder : ∀ {r : Row}, Room cfg t.world j r → r.status = .running →
      r.attempts = cfg.maxAttempts →
      (∀ w began o c e, op = .finish w began o → t.world.main w = .working c e → o ≠ .lost →
        c.job ≠ j) → ∃ w e, s'.main w = .working ⟨j, r.attempts⟩ e ∧ s'.now ≤ e := by
    intro r hroom hrun hlast hfinish
    obtain ⟨w, e, hw, hnow⟩ := hroom.running hrun hlast
    rcases holder_step hsup hs hw (le_of_eq hlast.symm) hnow with ⟨e', hw', hnow'⟩ | ⟨b, o, hop, ho⟩
    · exact ⟨w, e', hw', hnow'⟩
    · exact absurd rfl (hfinish w b o _ e hop hw ho)
  cases rowChange_of_step hs j with
  | same hrow hclaims hfinish =>
      rw [hrow] at hr'
      have hroom := h.room j r' hr' hend
      exact ⟨hroom.attempts, hroom.pending, fun hrun hlast => hholder hroom hrun hlast hfinish⟩
  | enqueued hop hnone hrow =>
      rw [hrow] at hr'
      cases hr'
      exact ⟨Nat.zero_le _, fun _ => hmax, fun hrun => by cases hrun⟩
  | claimed w began r hop hr hbegan hfree hrow hmain =>
      rw [hrow] at hr'
      cases hr'
      have hlt : r.attempts < cfg.maxAttempts := by
        rcases claimable_cases hfree with ⟨hpending, -⟩ | ⟨hrunning, lease, hlease, hlt⟩
        · exact (h.room j r hr hend).pending hpending
        · exact h.not_free hr hend hrunning hlease hlt hbegan
      refine ⟨hlt, fun hp => (by cases hp), fun _ hlast => ⟨w, _, hmain, ?_⟩⟩
      subst hop
      have hnow : s'.now = t.world.now := by
        simp only [step, hr] at hs
        split at hs <;> cases hs
        rfl
      rw [hnow]
      exact hsup.last r hr (le_of_eq hlast.symm)
  | extended b began r hop hr hrow =>
      rw [hrow] at hr'
      cases hr'
      have hroom := h.room j r hr hend
      refine ⟨hroom.attempts, hroom.pending, fun hrun hlast => hholder (r := r) hroom hrun hlast ?_⟩
      rintro w began' o c e hop'
      rw [hop] at hop'
      cases hop'
  | outcome w began o c e hop hw ho hjob hrow =>
      subst hjob hop
      obtain ⟨r, hr, -, hholds⟩ := h.owned.row w c e hw
      obtain ⟨r₁, hr₁, hatt, hcases⟩ := runAndRecord_cases cfg began ho hr
      rw [hrow, hr₁] at hr'
      cases hr'
      rcases hcases with hterm' | ⟨hpending, hleft⟩
      · rw [hterm'] at hterm
        cases hterm
      · have hsame := (hholds (hsup.inLease ho c e hw)).attempts
        have hlt : r'.attempts < cfg.maxAttempts := by omega
        exact ⟨le_of_lt hlt, fun _ => hlt, fun hrun => by rw [hpending] at hrun; cases hrun⟩
  | reset began r hop hbegan hr horphan hrow =>
      rw [hrow] at hr'
      cases hr'
      obtain ⟨hrunning, lease, hlease, hlt⟩ := Row.orphan_free horphan
      have hleft := h.not_free hr hend hrunning hlease hlt hbegan
      exact ⟨le_of_lt hleft, fun _ => hleft, fun hrun => by cases hrun⟩

theorem counted_step {cfg : Config} (hmax : 0 < cfg.maxAttempts) {t t' : Traced} {op : Op}
    (h : Counted cfg t) (hsup : Supervised cfg t.world op) (ht : traced cfg t op = some t') :
    Counted cfg t' := by
  rw [traced, Option.map_eq_some_iff] at ht
  obtain ⟨s', hs, rfl⟩ := ht
  have hsplit : ∀ j r, s'.jobs j = some r →
      (t.ended j || (s'.jobs j).any (·.status.isTerminal)) = false →
      t.ended j = false ∧ r.status.isTerminal = false := by
    intro j r hr hend
    rw [hr, Bool.or_eq_false_iff] at hend
    exact hend
  exact
    { owned := owned_step cfg t.world op s' h.owned hsup.inLease hs
      claims := counted_claims h hs
      backoff := fun j r due hr hrun hdue => counted_backoff h hs hr hrun hdue
      ended := fun j r hr hend => (hsplit j r hr hend).2
      room := fun j r hr hend => counted_room hmax h hsup hs hr (hsplit j r hr hend).1
        (hsplit j r hr hend).2 }

/-- **Bounded attempts.** In every run of any number of workers in which outcomes and
heartbeats are written within their leases and no last attempt is lost, a job that has not
ended has been claimed at most `MAX_ATTEMPTS` times, and none is claimed before its
`next_attempt_at`. -/
theorem bounded_of_supervised (cfg : Config) (hmax : 0 < cfg.maxAttempts) (ops : List Op)
    (hsup : Guarded (traced cfg) (fun t op => Supervised cfg t.world op) Traced.start ops) :
    Along (traced cfg) (Bounded cfg) Traced.start ops := by
  refine along_of_guarded (traced cfg) (Counted cfg) ?_ (counted_start cfg) hsup
  intro t op t' hinv hguard ht
  have hinv' := counted_step hmax hinv hguard ht
  refine ⟨⟨fun j hend => ?_, ?_⟩, hinv'⟩
  · rw [hinv'.claims j]
    cases hr : t'.world.jobs j with
    | none => exact Nat.zero_le _
    | some r => exact (hinv'.room j r hr hend).attempts
  · rintro w j began r due rfl hr hdue
    rw [traced, Option.map_eq_some_iff] at ht
    obtain ⟨s', hs, rfl⟩ := ht
    simp only [step, hr] at hs
    split at hs
    · rename_i hcond
      rcases claimable_cases hcond.2.2 with ⟨-, hpending⟩ | ⟨hrunning, -⟩
      · exact le_trans (hpending due hdue) hcond.2.1
      · exact hinv.backoff j r due hr hrunning hdue
    · cases hs

/-- One worker claims a job and completes it. -/
theorem bounded_single_worker : Along (traced defaults) (Bounded defaults) Traced.start
    [.enqueue 1, .claimNext 7 1 0, .finish 7 0 (.result 5 false)] := by
  refine bounded_of_supervised defaults (by decide) _ ⟨⟨trivial, trivial⟩, fun t h => ?_⟩
  cases h
  refine ⟨⟨trivial, fun r hr hlast => ?_⟩, fun t h => ?_⟩
  · exact Nat.zero_le _
  cases h
  refine ⟨⟨fun _ c e hw => Nat.zero_le _, fun _ => by simp⟩, fun _ _ => trivial⟩

/-- A worker claims the job and dies; when the lease has run out, the next one does. -/
def deaths : Nat → Nat → List Op
  | 0, began => [.claimNext 7 1 began]
  | n + 1, began => .claimNext 7 1 began :: .crash 7 :: .tick 91 :: deaths n (began + 91)

/-- **A fifth claim**, four being allowed. -/
theorem deaths_not_bounded :
    ¬ Along (traced defaults) (Bounded defaults) Traced.start (.enqueue 1 :: deaths 4 0) := by
  intro h
  obtain ⟨-, h⟩ := h _ rfl
  iterate 4
    obtain ⟨-, h⟩ := h _ rfl
    obtain ⟨-, h⟩ := h _ rfl
    obtain ⟨-, h⟩ := h _ rfl
  obtain ⟨hbounded, -⟩ := h _ rfl
  exact absurd (hbounded.attempts 1 rfl) (by decide)

end MesReunions.VideoIngest
