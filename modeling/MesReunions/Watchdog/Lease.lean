import MesReunions.Watchdog.Retries

/-!
# How often a row is resumed

A claim is a lease from the time it was won, and nothing renews it; the cap is looked at
by the scan alone. Both hold off a second run of `scan_and_resume` as long as each run
commits what it does to a row within the lease of its scan.

* `Leased` — while it is in time, a run that holds a row is alone with it, and no other run
  that found it can claim it.
* **`leased_step`** — a prompt step keeps it.
-/

namespace MesReunions.Watchdog

open TSys

/-- The row a run has claimed and not yet committed. -/
def Phase.working : Phase → Option Nat
  | .claimed a _ => some a
  | .routed a _ _ => some a
  | .loaded a _ _ => some a
  | _ => none

/-- The run is within the lease of its scan, and within the threshold of staleness. -/
structure Call.InTime (cfg : Config) (k : Call) (now : Nat) : Prop where
  lease : now < k.scannedAt + cfg.claimLease
  stale : now ≤ k.scannedAt + cfg.staleThreshold

/-- The loops of the pods, the pipelines and the importer; nothing by hand. -/
def Act.automatic : Act → Bool
  | .scan _ caller _ => decide (caller = .watchdog)
  | .ask .. => false
  | _ => true

/-- A run claims a row and commits what it does to it in time. -/
def OnTime (cfg : Config) (s : World) : Act → Prop
  | .tryClaim c _ => (s.calls c).InTime cfg s.now
  | .commit c _ _ => (s.calls c).InTime cfg s.now
  | _ => True

/-- An automatic action, in time. -/
structure Prompt (cfg : Config) (s : World) (act : Act) : Prop where
  automatic : act.automatic = true
  onTime : OnTime cfg s act

instance (cfg : Config) (k : Call) (now : Nat) : Decidable (k.InTime cfg now) :=
  decidable_of_iff (now < k.scannedAt + cfg.claimLease ∧ now ≤ k.scannedAt + cfg.staleThreshold)
    ⟨fun h => ⟨h.1, h.2⟩, fun h => ⟨h.1, h.2⟩⟩

instance (cfg : Config) (s : World) : ∀ act, Decidable (OnTime cfg s act)
  | .tryClaim c _ => inferInstanceAs (Decidable ((s.calls c).InTime cfg s.now))
  | .commit c _ _ => inferInstanceAs (Decidable ((s.calls c).InTime cfg s.now))
  | .wait _ | .create .. | .scan .. | .inspect .. | .load _ | .submit .. | .leave _ | .markCapped
  | .ask .. | .answer _ | .launch .. | .abandon _ | .progress .. | .poll _ | .finish .. | .chain ..
  | .mcr .. | .edit _ => isTrue trivial

instance (cfg : Config) (s : World) (act : Act) : Decidable (Prompt cfg s act) :=
  decidable_of_iff (act.automatic = true ∧ OnTime cfg s act)
    ⟨fun h => ⟨h.1, h.2⟩, fun h => ⟨h.1, h.2⟩⟩

/-! ## The invariant -/

/-- The row was claimed, and active, since `t`. -/
structure Row.Since (r : Row) (t : Nat) : Prop where
  claim : ∃ u, r.pipelineClaimAt = some u ∧ t ≤ u
  activity : ∃ u, r.lastActivityAt = some u ∧ t ≤ u

/-- The run `c` holds row `r` under the claim of time `t`. -/
structure Held (cfg : Config) (s : World) (c a : Nat) (r : Row) (t : Nat) : Prop where
  row : s.rows a = some r
  claim : r.pipelineClaimAt = some t
  since : (s.calls c).scannedAt ≤ t
  below : r.reprocessVersion < cfg.maxAutoRetries
  loaded : ∀ path l, (s.calls c).phase = .loaded a path l → l.reprocessVersion = r.reprocessVersion
  /-- The runs that also found the row did so before the claim. -/
  others : ∀ d userSub, (a, userSub) ∈ (s.calls d).todo → (s.calls d).InTime cfg s.now →
    (s.calls d).scannedAt ≤ t

structure Leased (cfg : Config) (s : World) : Prop where
  requests : ∀ q, s.requests q = none
  watchdog : ∀ c, (s.calls c).caller = .watchdog
  past : ∀ c, (s.calls c).scannedAt ≤ s.now
  found : ∀ c a userSub, (a, userSub) ∈ (s.calls c).todo → ∃ r, s.rows a = some r ∧
    ((s.calls c).InTime cfg s.now → r.reprocessVersion < cfg.maxAutoRetries ∨ r.Since (s.calls c).scannedAt)
  held : ∀ c a, (s.calls c).phase.working = some a → (s.calls c).InTime cfg s.now → ∃ r t, Held cfg s c a r t
  alone : ∀ c d a, (s.calls c).phase.working = some a → (s.calls d).phase.working = some a →
    (s.calls c).InTime cfg s.now → (s.calls d).InTime cfg s.now → c = d

theorem leased_start {cfg : Config} : Leased cfg World.start where
  requests := fun _ => rfl
  watchdog := fun _ => rfl
  past := fun _ => Nat.le_refl _
  found := fun _ _ _ h => absurd h List.not_mem_nil
  held := fun _ _ h => by cases h
  alone := fun _ _ _ h => by cases h

/-- A claim since the scan of a run in time is not free for it. -/
theorem not_free_of_since {cfg : Config} {s : World} {c t : Nat} {r : Row}
    (hclaim : r.pipelineClaimAt = some t) (hsince : (s.calls c).scannedAt ≤ t)
    (htime : (s.calls c).InTime cfg s.now) : r.claimFree cfg s.now = false := by
  have hlease := htime.lease
  exact before_some hclaim (by omega)

theorem since_touched {r r' : Row} {t now : Nat} (h : r.Since t) (ht : t ≤ now)
    (htouched : r.Touched r' now) : r'.Since t := by
  obtain ⟨u, hu, htu⟩ := h.claim
  obtain ⟨v, hv, htv⟩ := h.activity
  refine ⟨⟨u, htouched.claim.trans hu, htu⟩, ?_⟩
  rcases htouched.activity with hsame | hnow
  · exact ⟨v, hsame.trans hv, htv⟩
  · exact ⟨now, hnow, ht⟩

/-! ## Steps that leave claims and versions alone -/

/-- How a run goes on without winning or committing anything. -/
structure Follows (s : World) (k k' : Call) : Prop where
  caller : k'.caller = k.caller
  scannedAt : k'.scannedAt = k.scannedAt
  todo : ∀ x ∈ k'.todo, x ∈ k.todo
  working : ∀ a, k'.phase.working = some a → k.phase.working = some a
  loaded : ∀ a path l, k'.phase = .loaded a path l → k.phase = .loaded a path l ∨ s.rows a = some l

theorem follows_refl (s : World) (k : Call) : Follows s k k :=
  ⟨rfl, rfl, fun _ h => h, fun _ h => h, fun _ _ _ h => .inl h⟩

/-- A run lets go of its row. -/
theorem follows_next (s : World) (k : Call) {todo : List (Nat × String)}
    (htodo : ∀ x ∈ todo, x ∈ k.todo) : Follows s k { k with todo := todo, phase := .next } where
  caller := rfl
  scannedAt := rfl
  todo := htodo
  working := fun _ h => by cases h
  loaded := fun _ _ _ h => by cases h

theorem inTime_of_follows {cfg : Config} {s s' : World} {c : Nat} (hnow : s.now ≤ s'.now)
    (h : Follows s (s.calls c) (s'.calls c)) (htime : (s'.calls c).InTime cfg s'.now) : (s.calls c).InTime cfg s.now := by
  have hlease := htime.lease
  have hstale := htime.stale
  rw [h.scannedAt] at hlease hstale
  exact ⟨by omega, by omega⟩

/-- **The frame rule.** -/
theorem Leased.frame {cfg : Config} {s s' : World} (h : Leased cfg s) (hnow : s.now ≤ s'.now)
    (hrequests : ∀ q, s'.requests q = none)
    (hrows : ∀ a r, s.rows a = some r → ∃ r', s'.rows a = some r' ∧ r.Touched r' s.now)
    (hcalls : ∀ c, Follows s (s.calls c) (s'.calls c)) : Leased cfg s' where
  requests := hrequests
  watchdog := fun c => (hcalls c).caller.trans (h.watchdog c)
  past := fun c => by
    rw [(hcalls c).scannedAt]
    exact Nat.le_trans (h.past c) hnow
  found := by
    intro c a userSub hmem
    obtain ⟨r, hr, hfound⟩ := h.found c a userSub ((hcalls c).todo _ hmem)
    obtain ⟨r', hr', htouched⟩ := hrows a r hr
    refine ⟨r', hr', fun htime => ?_⟩
    rw [htouched.version, (hcalls c).scannedAt]
    rcases hfound (inTime_of_follows hnow (hcalls c) htime) with hlt | hsince
    · exact .inl hlt
    · exact .inr (since_touched hsince (h.past c) htouched)
  held := by
    intro c a hwork htime
    obtain ⟨r, t, hheld⟩ := h.held c a ((hcalls c).working a hwork)
      (inTime_of_follows hnow (hcalls c) htime)
    obtain ⟨r', hr', htouched⟩ := hrows a r hheld.row
    refine ⟨r', t, hr', htouched.claim.trans hheld.claim, ?_, ?_, ?_, ?_⟩
    · rw [(hcalls c).scannedAt]
      exact hheld.since
    · rw [htouched.version]
      exact hheld.below
    · intro path l hl
      rw [htouched.version]
      rcases (hcalls c).loaded a path l hl with hold | hrow
      · exact hheld.loaded path l hold
      · rw [hheld.row] at hrow
        cases hrow
        rfl
    · intro d userSub hmem hd
      rw [(hcalls d).scannedAt]
      exact hheld.others d userSub ((hcalls d).todo _ hmem) (inTime_of_follows hnow (hcalls d) hd)
  alone := by
    intro c d a hc hd htc htd
    exact h.alone c d a ((hcalls c).working a hc) ((hcalls d).working a hd)
      (inTime_of_follows hnow (hcalls c) htc) (inTime_of_follows hnow (hcalls d) htd)

/-- One run changes. -/
theorem follows_update {s : World} {calls : Nat → Call} {c : Nat} {k : Call}
    (hcalls : calls = Function.update s.calls c k) (h : Follows s (s.calls c) k) (d : Nat) :
    Follows s (s.calls d) (calls d) := by
  subst hcalls
  by_cases hd : d = c
  · subst hd
    rw [Function.update_self]
    exact h
  · rw [Function.update_of_ne hd]
    exact follows_refl s _

/-- One row is touched. -/
theorem touched_update {s : World} {rows : Table} {a : Nat} {r r' : Row} {now : Nat}
    (hrows : rows = Function.update s.rows a (some r')) (hr : s.rows a = some r)
    (h : r.Touched r' now) :
    ∀ b x, s.rows b = some x → ∃ x', rows b = some x' ∧ x.Touched x' now := by
  subst hrows
  intro b x hx
  by_cases hb : b = a
  · subst hb
    rw [hr] at hx
    cases hx
    exact ⟨r', Function.update_self .., h⟩
  · exact ⟨x, (Function.update_of_ne hb ..).trans hx, touched_refl x now⟩

/-! ## One run, its scan still the same -/

section OneRun

variable {s : World} {c : Nat} {k : Call}

theorem scannedAt_setCall (hscan : k.scannedAt = (s.calls c).scannedAt) (d : Nat) :
    ((s.setCall c k).calls d).scannedAt = (s.calls d).scannedAt := by
  by_cases hd : d = c
  · subst hd
    rw [setCall_self, hscan]
  · rw [setCall_of_ne s c k hd]

theorem todo_setCall (htodo : ∀ x ∈ k.todo, x ∈ (s.calls c).todo) {d : Nat}
    {x : Nat × String} (hx : x ∈ ((s.setCall c k).calls d).todo) : x ∈ (s.calls d).todo := by
  by_cases hd : d = c
  · subst hd
    rw [setCall_self] at hx
    exact htodo x hx
  · rwa [setCall_of_ne s c k hd] at hx

theorem inTime_setCall {cfg : Config} {now : Nat} (hscan : k.scannedAt = (s.calls c).scannedAt)
    {d : Nat} (h : ((s.setCall c k).calls d).InTime cfg now) : (s.calls d).InTime cfg now := by
  have hlease := h.lease
  have hstale := h.stale
  rw [scannedAt_setCall hscan d] at hlease hstale
  exact ⟨hlease, hstale⟩

end OneRun

/-! ## The steps that win, commit or release -/

section Steps

variable {cfg : Config} {s : World}

/-- A row whose claim is free is held by no run in time. -/
theorem Leased.not_working (h : Leased cfg s) {c a : Nat} {r : Row}
    (hr : s.rows a = some r) (hfree : r.claimFree cfg s.now = true)
    (htime : (s.calls c).InTime cfg s.now) : (s.calls c).phase.working ≠ some a := by
  intro hwork
  obtain ⟨r', t, hheld⟩ := h.held c a hwork htime
  rw [hheld.row] at hr
  cases hr
  rw [not_free_of_since hheld.claim hheld.since htime] at hfree
  cases hfree

/-- **A scan.** It finds a row whose claim is free, so no run in time holds it. -/
theorem Leased.scanned (h : Leased cfg s) {c : Nat} {found : List (Nat × String)}
    (hfound : ∀ x ∈ found, ∃ r, s.rows x.1 = some r ∧ r.stuck cfg .watchdog s.now = true) :
    Leased cfg (s.setCall c ⟨.watchdog, s.now, found, .next⟩) where
  requests := h.requests
  watchdog := fun d => by
    by_cases hd : d = c
    · subst hd
      rw [setCall_self]
    · rw [setCall_of_ne s c _ hd]
      exact h.watchdog d
  past := fun d => by
    by_cases hd : d = c
    · subst hd
      rw [setCall_self]
      exact Nat.le_refl _
    · rw [setCall_of_ne s c _ hd]
      exact h.past d
  found := by
    intro d a userSub hmem
    by_cases hd : d = c
    · subst hd
      rw [setCall_self] at hmem
      obtain ⟨r, hr, hstuck⟩ := hfound _ hmem
      refine ⟨r, hr, fun _ => .inl ?_⟩
      exact (version_of_stuck hstuck).resolve_left Bool.false_ne_true
    · rw [setCall_of_ne s c _ hd] at hmem ⊢
      exact h.found d a userSub hmem
  held := by
    intro d a hwork htime
    have hd : d ≠ c := by
      rintro rfl
      rw [setCall_self] at hwork
      cases hwork
    rw [setCall_of_ne s c _ hd] at hwork htime
    obtain ⟨r, t, hheld⟩ := h.held d a hwork htime
    refine ⟨r, t, hheld.row, hheld.claim, ?_, hheld.below, ?_, ?_⟩
    · rw [setCall_of_ne s c _ hd]
      exact hheld.since
    · rw [setCall_of_ne s c _ hd]
      exact hheld.loaded
    · intro e userSub hmem he
      by_cases hec : e = c
      · -- the new scan found the row only if its claim was free
        subst hec
        rw [setCall_self] at hmem
        obtain ⟨x, hx, hstuck⟩ := hfound _ hmem
        exact absurd hwork (h.not_working hx (claimFree_of_stuck hstuck) htime)
      · rw [setCall_of_ne s c _ hec] at hmem he ⊢
        exact hheld.others e userSub hmem he
  alone := by
    intro d e a hd he htd hte
    have hdc : d ≠ c := by
      rintro rfl
      rw [setCall_self] at hd
      cases hd
    have hec : e ≠ c := by
      rintro rfl
      rw [setCall_self] at he
      cases he
    rw [setCall_of_ne s c _ hdc] at hd htd
    rw [setCall_of_ne s c _ hec] at he hte
    exact h.alone d e a hd he htd hte

/-- **The rule for a step of one run on one row.** No other run in time holds the row; those
that found it are told apart from it by what the row becomes; and the run holds it afterwards
only under a claim of now. -/
theorem Leased.change (h : Leased cfg s) {c a : Nat} {r r' : Row} {k : Call}
    (hr : s.rows a = some r) (hcaller : k.caller = (s.calls c).caller)
    (hscan : k.scannedAt = (s.calls c).scannedAt) (htodo : ∀ x ∈ k.todo, x ∈ (s.calls c).todo)
    (hothers : ∀ d, d ≠ c → (s.calls d).InTime cfg s.now → (s.calls d).phase.working ≠ some a)
    (hwork : ∀ b, k.phase.working = some b → b = a ∧ r'.pipelineClaimAt = some s.now ∧
      r'.reprocessVersion < cfg.maxAutoRetries ∧ ∀ path l, k.phase ≠ .loaded b path l)
    (hfound : ∀ d userSub, (a, userSub) ∈ (s.calls d).todo → (s.calls d).InTime cfg s.now →
      r.reprocessVersion < cfg.maxAutoRetries ∨ r.Since (s.calls d).scannedAt →
      r'.reprocessVersion < cfg.maxAutoRetries ∨ r'.Since (s.calls d).scannedAt) :
    Leased cfg ((s.setRow a r').setCall c k) := by
  have hself : ((s.setRow a r').setCall c k).calls c = k := setCall_self ..
  have hother : ∀ d, d ≠ c → ((s.setRow a r').setCall c k).calls d = s.calls d :=
    fun d hd => setCall_of_ne _ c k hd
  have hscan' : ∀ d, (((s.setRow a r').setCall c k).calls d).scannedAt = (s.calls d).scannedAt :=
    scannedAt_setCall (s := s.setRow a r') hscan
  have htodo' : ∀ d x, x ∈ (((s.setRow a r').setCall c k).calls d).todo →
      x ∈ (s.calls d).todo := fun d x => todo_setCall (s := s.setRow a r') htodo
  have htime : ∀ d, (((s.setRow a r').setCall c k).calls d).InTime cfg s.now →
      (s.calls d).InTime cfg s.now := fun d => inTime_setCall (s := s.setRow a r') hscan
  refine ⟨h.requests, fun d => ?_, fun d => ?_, ?_, ?_, ?_⟩
  · by_cases hd : d = c
    · subst hd
      rw [hself, hcaller]
      exact h.watchdog d
    · rw [hother d hd]
      exact h.watchdog d
  · rw [hscan' d]
    exact h.past d
  · intro d b userSub hmem
    rw [hscan' d]
    obtain ⟨x, hx, hold⟩ := h.found d b userSub (htodo' d _ hmem)
    by_cases hb : b = a
    · subst hb
      rw [hr] at hx
      cases hx
      refine ⟨r', setRow_self .., fun ht => ?_⟩
      exact hfound d userSub (htodo' d _ hmem) (htime d ht) (hold (htime d ht))
    · exact ⟨x, (setRow_of_ne s a r' hb).trans hx, fun ht => hold (htime d ht)⟩
  · intro d b hd ht
    by_cases hdc : d = c
    · subst hdc
      rw [hself] at hd
      obtain ⟨rfl, hclaim, hbelow, hload⟩ := hwork b hd
      refine ⟨r', s.now, setRow_self .., hclaim, ?_, hbelow, ?_, ?_⟩
      · rw [hscan' d]
        exact h.past d
      · intro path l hl
        rw [hself] at hl
        exact absurd hl (hload path l)
      · intro e userSub hmem he
        rw [hscan' e]
        exact h.past e
    · rw [hother d hdc] at hd
      have hb : b ≠ a := by
        rintro rfl
        exact hothers d hdc (htime d ht) hd
      obtain ⟨x, t, hheld⟩ := h.held d b hd (htime d ht)
      refine ⟨x, t, (setRow_of_ne s a r' hb).trans hheld.row, hheld.claim, ?_, hheld.below, ?_, ?_⟩
      · rw [hscan' d]
        exact hheld.since
      · rw [hother d hdc]
        exact hheld.loaded
      · intro e userSub hmem he
        rw [hscan' e]
        exact hheld.others e userSub (htodo' e _ hmem) (htime e he)
  · intro d e b hd he htd hte
    -- a run other than `c` in time, beside `c` at the row it has just claimed
    have hlone : ∀ f, f ≠ c → (((s.setRow a r').setCall c k).calls f).phase.working = some b →
        k.phase.working = some b → (s.calls f).InTime cfg s.now → False := by
      intro f hfc hf hk ht
      rw [hother f hfc, (hwork b hk).1] at hf
      exact hothers f hfc ht hf
    by_cases hdc : d = c
    · by_cases hec : e = c
      · rw [hdc, hec]
      · rw [hdc, hself] at hd
        exact (hlone e hec he hd (htime e hte)).elim
    · by_cases hec : e = c
      · rw [hec, hself] at he
        exact (hlone d hdc hd he (htime d htd)).elim
      · rw [hother d hdc] at hd
        rw [hother e hec] at he
        exact h.alone d e b hd he (htime d htd) (htime e hte)

/-- **A claim.** Whoever claimed the row after this run found it has a lease that runs; so
nobody did, and the version is what the scan saw. -/
theorem Leased.claimed (h : Leased cfg s) {c a : Nat} {userSub : String}
    {rest : List (Nat × String)} {r : Row} (htodo : (s.calls c).todo = (a, userSub) :: rest)
    (hr : s.rows a = some r) (hfree : r.claimFree cfg s.now = true)
    (htime : (s.calls c).InTime cfg s.now) :
    Leased cfg ((s.setRow a (r.claimed s.now)).setCall c
      { s.calls c with todo := rest, phase := .claimed a userSub }) := by
  have hmem : ∀ x ∈ (a, userSub) :: rest, x ∈ (s.calls c).todo := fun x hx => by rwa [htodo]
  have hbelow : r.reprocessVersion < cfg.maxAutoRetries := by
    obtain ⟨r₀, hr₀, hfound⟩ := h.found c a userSub (hmem _ List.mem_cons_self)
    rw [hr] at hr₀
    cases hr₀
    rcases hfound htime with hlt | hsince
    · exact hlt
    · obtain ⟨u, hu, hle⟩ := hsince.claim
      rw [not_free_of_since hu hle htime] at hfree
      cases hfree
  refine h.change hr rfl rfl (fun x hx => hmem x (List.mem_cons_of_mem _ hx))
    (fun d _ hd => h.not_working hr hfree hd) ?_ ?_
  · intro b hb
    cases hb
    exact ⟨rfl, rfl, hbelow, fun _ _ h => by cases h⟩
  · intro d sub hd ht _
    exact .inl hbelow

/-- Nobody but the run that holds a row holds it in time. -/
theorem Leased.alone_of_ne (h : Leased cfg s) {c a : Nat}
    (hwork : (s.calls c).phase.working = some a) (htime : (s.calls c).InTime cfg s.now) :
    ∀ d, d ≠ c → (s.calls d).InTime cfg s.now → (s.calls d).phase.working ≠ some a :=
  fun d hd ht hw => hd (h.alone d c a hw hwork ht htime)

/-- **A reset.** The runs that found the row did so before the claim it was made under, and
that claim stays. -/
theorem Leased.reset (h : Leased cfg s) {c a : Nat} {path : Path} {loaded r : Row}
    (hphase : (s.calls c).phase = .loaded a path loaded) (hr : s.rows a = some r)
    (htime : (s.calls c).InTime cfg s.now) :
    Leased cfg ((s.setRow a (r.resetTo loaded s.now path.status)).setCall c
      { s.calls c with phase := .committed a path }) := by
  have hwork : (s.calls c).phase.working = some a := by
    rw [hphase]
    rfl
  obtain ⟨r₀, t, hheld⟩ := h.held c a hwork htime
  have hrow := hheld.row
  rw [hr] at hrow
  cases hrow
  refine h.change hr rfl rfl (fun _ hx => hx) (h.alone_of_ne hwork htime)
    (fun b hb => by cases hb) ?_
  intro d sub hd ht _
  exact .inr ⟨⟨t, hheld.claim, hheld.others d sub hd ht⟩, ⟨s.now, rfl, h.past d⟩⟩

/-- **A row that cannot be resumed.** Its claim goes, but its version is below the cap. -/
theorem Leased.terminal (h : Leased cfg s) {c a : Nat} {path : Path} {loaded r : Row}
    {kind : ErrorKind} (hphase : (s.calls c).phase = .loaded a path loaded)
    (hr : s.rows a = some r) (htime : (s.calls c).InTime cfg s.now) :
    Leased cfg ((s.setRow a (r.persistTerminalError loaded s.now kind)).setCall c
      { s.calls c with phase := .next }) := by
  have hwork : (s.calls c).phase.working = some a := by
    rw [hphase]
    rfl
  obtain ⟨r₀, t, hheld⟩ := h.held c a hwork htime
  have hrow := hheld.row
  rw [hr] at hrow
  cases hrow
  refine h.change hr rfl rfl (fun _ hx => hx) (h.alone_of_ne hwork htime)
    (fun b hb => by cases hb) ?_
  intro d sub hd ht _
  exact .inl hheld.below

/-- **The cap.** A capped row is stale and has no version left, so no run in time has found it. -/
theorem Leased.capped (h : Leased cfg s) :
    Leased cfg { s with rows := markCappedAsFailed cfg s.rows s.now } := by
  have hkeep : ∀ a r, s.rows a = some r → r.overCap cfg s.now = false →
      markCappedAsFailed cfg s.rows s.now a = some r := fun a r hr hover => by
    simp [markCappedAsFailed, hr, hover]
  have hactive : ∀ d (r : Row), (s.calls d).InTime cfg s.now → r.Since (s.calls d).scannedAt →
      r.overCap cfg s.now = false := fun d r ht hsince => by
    obtain ⟨u, hu, hle⟩ := hsince.activity
    have hstale : r.stale cfg s.now = false := before_some hu (by have := ht.stale; omega)
    simp [Row.overCap, hstale]
  refine ⟨h.requests, h.watchdog, h.past, ?_, ?_, h.alone⟩
  · intro d a userSub hmem
    obtain ⟨r, hr, hfound⟩ := h.found d a userSub hmem
    cases hover : r.overCap cfg s.now with
    | false => exact ⟨r, hkeep a r hr hover, hfound⟩
    | true =>
        refine ⟨r.markCapped s.now, by simp [markCappedAsFailed, hr, hover], fun ht => ?_⟩
        rcases hfound ht with hlt | hsince
        · rw [not_overCap_of_lt hlt] at hover
          cases hover
        · rw [hactive d r ht hsince] at hover
          cases hover
  · intro d a hwork ht
    obtain ⟨r, t, hheld⟩ := h.held d a hwork ht
    exact ⟨r, t, hkeep a r hheld.row (not_overCap_of_lt hheld.below), hheld.claim, hheld.since, hheld.below,
      hheld.loaded, hheld.others⟩

end Steps

/-- **A prompt step keeps the leases.** -/
theorem leased_step {cfg : Config} {s s' : World} {act : Act} (h : Leased cfg s)
    (hact : Prompt cfg s act) (heff : Effect cfg s act s') : Leased cfg s' := by
  have hrows : ∀ a r, s.rows a = some r → ∃ r', s.rows a = some r' ∧ r.Touched r' s.now :=
    fun a r hr => ⟨r, hr, touched_refl r s.now⟩
  have hcalls : ∀ c, Follows s (s.calls c) (s.calls c) := fun c => follows_refl s _
  cases heff with
  | waited d => exact h.frame (Nat.le_add_right ..) h.requests hrows hcalls
  | created a src userSub p pipes hnone hpipes =>
      refine h.frame (Nat.le_refl _) h.requests (fun b r hr => ?_) hcalls
      have hb : b ≠ a := by
        rintro rfl
        rw [hnone] at hr
        cases hr
      exact ⟨r, (setRow_of_ne s a _ hb).trans hr, touched_refl r s.now⟩
  | scanned c caller found hphase htodo hfound =>
      have hcaller : caller = .watchdog := of_decide_eq_true hact.automatic
      subst hcaller
      exact h.scanned hfound
  | claimed c a userSub rest r hphase htodo hr hfree => exact h.claimed htodo hr hfree hact.onTime
  | moved act c a phase hquiet hold hnew huncommitted hload =>
      refine h.frame (Nat.le_refl _) h.requests hrows (follows_update rfl
        ⟨rfl, rfl, fun _ hx => hx, fun b hb => ?_, fun b path l hl => .inr (hload b path l hl)⟩)
      -- both phases hold the row `a`, and neither has committed
      have hb' : phase.audio = some b := by
        cases phase <;> first | exact hb | cases hb
      rw [hnew] at hb'
      cases hb'
      cases hp : (s.calls c).phase with
      | committed b path => exact absurd hp (huncommitted b path).1
      | _ =>
          rw [hp] at hold
          exact hold
  | freed act c todo hquiet htodo =>
      exact h.frame (Nat.le_refl _) h.requests hrows (follows_update rfl (follows_next s _ htodo))
  | reset c probe a path loaded r hphase hr hresets => exact h.reset hphase hr hact.onTime
  | terminal c probe a path loaded r kind hquiet hphase hr =>
      exact h.terminal hphase hr hact.onTime
  | submitted c p a path pipes hphase hpipes =>
      exact h.frame (Nat.le_refl _) h.requests hrows
        (follows_update rfl (follows_next s _ fun _ hx => hx))
  | capped => exact h.capped
  | asked q action a userSub r hq hr => exact absurd hact.automatic Bool.false_ne_true
  | answered q action a loaded r hq hr =>
      rw [h.requests q] at hq
      cases hq
  | launched q p action a loaded hq hp =>
      rw [h.requests q] at hq
      cases hq
  | dropped act q hquiet =>
      refine h.frame (Nat.le_refl _) (fun q' => ?_) hrows hcalls
      by_cases hq : q' = q
      · subst hq
        exact Function.update_self ..
      · exact (Function.update_of_ne hq ..).trans (h.requests q')
  | touched act a r r' pipes hquiet hr hr' hpipes =>
      exact h.frame (Nat.le_refl _) h.requests (touched_update rfl hr hr') hcalls
  | unpiped act pipes hquiet hpipes => exact h.frame (Nat.le_refl _) h.requests hrows hcalls

/-! ## The version counts the resumptions -/

theorem countOf_none (s : World) (byPod : Bool) (a : Nat) : s.countOf none byPod a = 0 := rfl

theorem countOf_self {s : World} {c : Nat} (h : (s.calls c).caller = .watchdog) (a b : Nat) :
    s.countOf (some (c, a)) true b = if a = b then 1 else 0 := by
  simp [World.countOf, h]

/-- **The version goes up by what is counted**, and only from below the cap. -/
theorem version_of_effect {cfg : Config} {s s' : World} {act : Act} (h : Leased cfg s)
    (hact : Prompt cfg s act) (heff : Effect cfg s act s') {a : Nat} {r : Row}
    (hr : s.rows a = some r) :
    ∃ r', s'.rows a = some r' ∧
      r'.reprocessVersion = r.reprocessVersion + s.countOf (s.resets act) true a ∧
      (s.countOf (s.resets act) true a = 0 ∨ r.reprocessVersion < cfg.maxAutoRetries) := by
  have hsame : ∀ rows : Table, (∃ r', rows a = some r' ∧ r'.reprocessVersion = r.reprocessVersion) →
      s.resets act = none → ∃ r', rows a = some r' ∧
        r'.reprocessVersion = r.reprocessVersion + s.countOf (s.resets act) true a ∧
        (s.countOf (s.resets act) true a = 0 ∨ r.reprocessVersion < cfg.maxAutoRetries) := by
    rintro rows ⟨r', hr', hv⟩ hnone
    refine ⟨r', hr', ?_, .inl ?_⟩
    · rw [hnone, countOf_none, hv]
      simp
    · rw [hnone, countOf_none]
  -- one row changes, and keeps its version
  have hset : ∀ b x x', s.rows b = some x → x'.reprocessVersion = x.reprocessVersion →
      ∃ r', (s.setRow b x').rows a = some r' ∧ r'.reprocessVersion = r.reprocessVersion := by
    intro b x x' hx hv
    by_cases hb : a = b
    · subst hb
      rw [hr] at hx
      cases hx
      exact ⟨x', setRow_self .., hv⟩
    · exact ⟨r, (setRow_of_ne s b x' hb).trans hr, rfl⟩
  cases heff with
  | waited d => exact hsame _ ⟨r, hr, rfl⟩ rfl
  | created b src userSub p pipes hnone hpipes =>
      have hb : a ≠ b := by
        rintro rfl
        rw [hnone] at hr
        cases hr
      exact hsame _ ⟨r, (setRow_of_ne s b _ hb).trans hr, rfl⟩ rfl
  | scanned c caller found hphase htodo hfound => exact hsame _ ⟨r, hr, rfl⟩ rfl
  | claimed c b userSub rest x hphase htodo hx hfree => exact hsame _ (hset b x _ hx rfl) rfl
  | moved act c b phase hquiet hold hnew huncommitted hload =>
      exact hsame _ ⟨r, hr, rfl⟩ hquiet.resets
  | freed act c todo hquiet htodo => exact hsame _ ⟨r, hr, rfl⟩ hquiet.resets
  | reset c probe b path loaded x hphase hx hresets =>
      rw [hresets, countOf_self (h.watchdog c)]
      by_cases hb : b = a
      · subst hb
        rw [hr] at hx
        cases hx
        -- what was loaded is what the row still has: nobody else in time holds it
        obtain ⟨x, t, hheld⟩ := h.held c b (by rw [hphase]; rfl) hact.onTime
        have hrow := hheld.row
        rw [hr] at hrow
        cases hrow
        have hloaded := hheld.loaded path loaded hphase
        refine ⟨_, setRow_self .., ?_, .inr hheld.below⟩
        simp only [Row.resetTo, if_true]
        rw [hloaded]
        rfl
      · refine ⟨r, (setRow_of_ne s b _ (Ne.symm hb)).trans hr, ?_, .inl (if_neg hb)⟩
        rw [if_neg hb]
        simp
  | terminal c probe b path loaded x kind hquiet hphase hx =>
      exact hsame _ (hset b x _ hx rfl) hquiet.resets
  | submitted c p b path pipes hphase hpipes => exact hsame _ ⟨r, hr, rfl⟩ rfl
  | capped =>
      refine hsame _ ?_ rfl
      refine ⟨if r.overCap cfg s.now then r.markCapped s.now else r, ?_, ?_⟩
      · simp [markCappedAsFailed, hr]
      · split <;> rfl
  | asked q action b userSub x hq hx => exact absurd hact.automatic Bool.false_ne_true
  | answered q action b loaded x hq hx =>
      rw [h.requests q] at hq
      cases hq
  | launched q p action b loaded hq hp =>
      rw [h.requests q] at hq
      cases hq
  | dropped act q hquiet => exact hsame _ ⟨r, hr, rfl⟩ hquiet.resets
  | touched act b x x' pipes hquiet hx hx' hpipes =>
      exact hsame _ (hset b x x' hx hx'.version) hquiet.resets
  | unpiped act pipes hquiet hpipes => exact hsame _ ⟨r, hr, rfl⟩ hquiet.resets

end MesReunions.Watchdog
