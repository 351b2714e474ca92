import Mathlib.Data.Finset.Card
import MesReunions.Watchdog.Lease

/-!
# Automatic resumption is bounded

`MAX_AUTO_RETRIES` against the loops of the pods. The scan compares the version with it, a
claim does not, and the new version is computed from a row that was loaded before.

* **`bounded_of_prompt`** — where every run claims and commits within the lease of its scan,
  the bound holds: no manual action, any number of pods, any deaths.
* **`late_not_bounded`** — a pod that comes back to its list after the lease of another one
  resumes a row a sixth time.
-/

namespace MesReunions.Watchdog

open TSys

/-- A step within the bound: no row is resumed more than `MAX_AUTO_RETRIES` times in all,
each resumption commits a larger version, nothing is started that was not committed, and
no version goes down. -/
structure Bounded (cfg : Config) (t : Traced) (_act : Act) (t' : Traced) : Prop where
  atMost : ∀ a, t'.automatic a ≤ cfg.maxAutoRetries
  larger : ∀ a, t.automatic a < t'.automatic a → ∃ r r', t.world.rows a = some r ∧
    t'.world.rows a = some r' ∧ r.reprocessVersion < r'.reprocessVersion
  committed : ∀ a, t'.started a ≤ t'.automatic a
  kept : ∀ a r, t.world.rows a = some r →
    ∃ r', t'.world.rows a = some r' ∧ r.reprocessVersion ≤ r'.reprocessVersion

/-! ## What was committed and not yet started -/

/-- `owing a` holds the runs that are about to start row `a`. -/
structure Owing (t : Traced) (owing : Nat → Finset Nat) : Prop where
  mem : ∀ c a path, (t.world.calls c).phase = .committed a path → c ∈ owing a
  count : ∀ a, t.started a + (owing a).card ≤ t.automatic a

theorem automatic_of_traced {cfg : Config} {t t' : Traced} {act : Act}
    (h : traced cfg t act = some t') (a : Nat) :
    t'.automatic a = t.automatic a + t.world.countOf (t.world.resets act) true a := by
  obtain ⟨w, -, rfl⟩ := Option.map_eq_some_iff.1 h
  rfl

theorem started_of_traced {cfg : Config} {t t' : Traced} {act : Act}
    (h : traced cfg t act = some t') (a : Nat) :
    t'.started a = t.started a + t.world.countOf (t.world.starts act) true a := by
  obtain ⟨w, -, rfl⟩ := Option.map_eq_some_iff.1 h
  rfl

/-- The runs that are about to start something, after a step. -/
inductive Owed (s s' : World) (act : Act) : Prop where
  /-- None is added. -/
  | same (hresets : s.resets act = none) (hstarts : s.starts act = none)
      (hphase : ∀ c a path, (s'.calls c).phase = .committed a path →
        (s.calls c).phase = .committed a path)
  | committed (c a : Nat) (hresets : s.resets act = some (c, a)) (hstarts : s.starts act = none)
      (hphase : ∀ d b path, (s'.calls d).phase = .committed b path →
        d = c ∧ b = a ∨ (s.calls d).phase = .committed b path)
  | started (c a : Nat) (path : Path) (hresets : s.resets act = none)
      (hstarts : s.starts act = some (c, a)) (hold : (s.calls c).phase = .committed a path)
      (hphase : ∀ d b path, (s'.calls d).phase = .committed b path →
        d ≠ c ∧ (s.calls d).phase = .committed b path)

theorem owed_of_effect {cfg : Config} {s s' : World} {act : Act} (heff : Effect cfg s act s') :
    Owed s s' act := by
  have hupdate : ∀ (c : Nat) (k : Call), (∀ a path, k.phase ≠ .committed a path) →
      ∀ d b path, (Function.update s.calls c k d).phase = .committed b path →
        d ≠ c ∧ (s.calls d).phase = .committed b path := by
    intro c k hk d b path hd
    by_cases hdc : d = c
    · subst hdc
      rw [Function.update_self] at hd
      exact absurd hd (hk b path)
    · rw [Function.update_of_ne hdc] at hd
      exact ⟨hdc, hd⟩
  cases heff with
  | waited d => exact .same rfl rfl fun _ _ _ h => h
  | created a src userSub p pipes hnone hpipes => exact .same rfl rfl fun _ _ _ h => h
  | scanned c caller found hphase htodo hfound =>
      exact .same rfl rfl fun d b path hd => (hupdate c _ (by intro _ _ h; cases h) d b path hd).2
  | claimed c a userSub rest r hphase htodo hr hfree =>
      exact .same rfl rfl fun d b path hd => (hupdate c _ (by intro _ _ h; cases h) d b path hd).2
  | moved act c a phase hquiet hold hnew huncommitted hload =>
      exact .same hquiet.resets hquiet.starts fun d b path hd =>
        (hupdate c _ (fun b path => (huncommitted b path).2) d b path hd).2
  | freed act c todo hquiet htodo =>
      exact .same hquiet.resets hquiet.starts fun d b path hd =>
        (hupdate c _ (by intro _ _ h; cases h) d b path hd).2
  | reset c probe a path loaded r hphase hr hresets =>
      refine .committed c a hresets rfl fun d b path' hd => ?_
      by_cases hdc : d = c
      · subst hdc
        rw [setCall_self] at hd
        cases hd
        exact .inl ⟨rfl, rfl⟩
      · rw [setCall_of_ne _ c _ hdc] at hd
        exact .inr hd
  | terminal c probe a path loaded r kind hquiet hphase hr =>
      exact .same hquiet.resets hquiet.starts fun d b path hd =>
        (hupdate c _ (by intro _ _ h; cases h) d b path hd).2
  | submitted c p a path pipes hphase hpipes =>
      exact .started c a path rfl (by simp [World.starts, hphase]) hphase
        fun d b path' hd => hupdate c _ (by intro _ _ h; cases h) d b path' hd
  | capped => exact .same rfl rfl fun _ _ _ h => h
  | asked q action a userSub r hq hr => exact .same rfl rfl fun _ _ _ h => h
  | answered q action a loaded r hq hr => exact .same rfl rfl fun _ _ _ h => h
  | launched q p action a loaded hq hp => exact .same rfl rfl fun _ _ _ h => h
  | dropped act q hquiet => exact .same hquiet.resets hquiet.starts fun _ _ _ h => h
  | touched act a r r' pipes hquiet hr hr' hpipes =>
      exact .same hquiet.resets hquiet.starts fun _ _ _ h => h
  | unpiped act pipes hquiet hpipes => exact .same hquiet.resets hquiet.starts fun _ _ _ h => h

/-- Where every run is by a pod, what is owed stays within what was committed. -/
theorem owing_step {cfg : Config} {t t' : Traced} {act : Act} {owing : Nat → Finset Nat}
    (h : Owing t owing) (hwatchdog : ∀ c, (t.world.calls c).caller = .watchdog)
    (hstep : traced cfg t act = some t') : ∃ owing', Owing t' owing' := by
  have hauto := automatic_of_traced hstep
  have hstart := started_of_traced hstep
  cases owed_of_effect (effect_of_traced hstep) with
  | same hresets hstarts hphase =>
      refine ⟨owing, fun c a path hc => h.mem c a path (hphase c a path hc), fun a => ?_⟩
      rw [hauto, hstart, hresets, hstarts, countOf_none]
      exact h.count a
  | committed c a hresets hstarts hphase =>
      refine ⟨Function.update owing a (insert c (owing a)), fun d b path hd => ?_, fun b => ?_⟩
      · by_cases hb : b = a
        · subst hb
          rw [Function.update_self]
          rcases hphase d b path hd with ⟨rfl, -⟩ | hold
          · exact Finset.mem_insert_self ..
          · exact Finset.mem_insert_of_mem (h.mem d b path hold)
        · rw [Function.update_of_ne hb]
          rcases hphase d b path hd with ⟨-, hba⟩ | hold
          · exact absurd hba hb
          · exact h.mem d b path hold
      · rw [hauto, hstart, hresets, hstarts, countOf_none, countOf_self (hwatchdog c)]
        have hcount := h.count b
        by_cases hb : b = a
        · subst hb
          rw [Function.update_self, if_pos rfl]
          have hcard := Finset.card_insert_le c (owing b)
          omega
        · rw [Function.update_of_ne hb]
          omega
  | started c a path hresets hstarts hold hphase =>
      refine ⟨Function.update owing a ((owing a).erase c), fun d b path' hd => ?_, fun b => ?_⟩
      · obtain ⟨hdc, hd⟩ := hphase d b path' hd
        by_cases hb : b = a
        · subst hb
          rw [Function.update_self]
          exact Finset.mem_erase_of_ne_of_mem hdc (h.mem d b path' hd)
        · rw [Function.update_of_ne hb]
          exact h.mem d b path' hd
      · rw [hauto, hstart, hresets, hstarts, countOf_none, countOf_self (hwatchdog c)]
        have hcount := h.count b
        by_cases hb : a = b
        · subst hb
          rw [Function.update_self, if_pos rfl]
          have hcard := Finset.card_erase_add_one (h.mem c a path hold)
          omega
        · rw [Function.update_of_ne (Ne.symm hb), if_neg hb]
          omega

/-! ## The bound -/

structure Inv (cfg : Config) (t : Traced) : Prop where
  leased : Leased cfg t.world
  version : ∀ a r, t.world.rows a = some r →
    (t.automatic a : Int) ≤ r.reprocessVersion ∧ r.reprocessVersion ≤ cfg.maxAutoRetries
  absent : ∀ a, t.world.rows a = none → t.automatic a = 0
  owing : ∃ owing, Owing t owing

theorem inv_start {cfg : Config} : Inv cfg Traced.start where
  leased := leased_start
  version := fun a r h => by cases h
  absent := fun _ _ => rfl
  owing := ⟨fun _ => ∅, ⟨nofun, fun _ => Nat.le_refl _⟩⟩

/-- A reset is of a row that is there, and a row that was not there starts at version `0`. -/
theorem absent_of_effect {cfg : Config} {s s' : World} {act : Act} (heff : Effect cfg s act s')
    {a : Nat} (ha : s.rows a = none) :
    s.countOf (s.resets act) true a = 0 ∧
      ∀ r, s'.rows a = some r → r.reprocessVersion = 0 := by
  have hnone : ∀ rows : Table, rows a = none → s.resets act = none →
      s.countOf (s.resets act) true a = 0 ∧ ∀ r, rows a = some r → r.reprocessVersion = 0 := by
    intro rows hrows hresets
    refine ⟨by rw [hresets, countOf_none], fun r hr => ?_⟩
    rw [hrows] at hr
    cases hr
  have hset : ∀ b x x', s.rows b = some x → (s.setRow b x').rows a = none := by
    intro b x x' hx
    have hb : a ≠ b := by
      rintro rfl
      rw [ha] at hx
      cases hx
    rw [setRow_of_ne s b x' hb, ha]
  cases heff with
  | waited d => exact hnone _ ha rfl
  | created b src userSub p pipes hfresh hpipes =>
      refine ⟨rfl, fun r hr => ?_⟩
      rcases row_of_setRow hr with ⟨-, rfl⟩ | ⟨-, hr⟩
      · rfl
      · rw [ha] at hr
        cases hr
  | scanned c caller found hphase htodo hfound => exact hnone _ ha rfl
  | claimed c b userSub rest r hphase htodo hr hfree => exact hnone _ (hset b r _ hr) rfl
  | moved act c b phase hquiet hold hnew huncommitted hload => exact hnone _ ha hquiet.resets
  | freed act c todo hquiet htodo => exact hnone _ ha hquiet.resets
  | reset c probe b path loaded r hphase hr hresets =>
      have hrow := hset b r (r.resetTo loaded s.now path.status) hr
      have hb : b ≠ a := by
        rintro rfl
        rw [ha] at hr
        cases hr
      refine ⟨by simp [World.countOf, hresets, hb], fun x hx => ?_⟩
      rw [setCall_rows, hrow] at hx
      cases hx
  | terminal c probe b path loaded r kind hquiet hphase hr =>
      exact hnone _ (hset b r _ hr) hquiet.resets
  | submitted c p b path pipes hphase hpipes => exact hnone _ ha rfl
  | capped => exact hnone _ (by simp [markCappedAsFailed, ha]) rfl
  | asked q action b userSub r hq hr => exact hnone _ ha rfl
  | answered q action b loaded r hq hr => exact hnone _ (hset b r _ hr) rfl
  | launched q p action b loaded hq hp => exact hnone _ ha rfl
  | dropped act q hquiet => exact hnone _ ha hquiet.resets
  | touched act b r r' pipes hquiet hr hr' hpipes => exact hnone _ (hset b r r' hr) hquiet.resets
  | unpiped act pipes hquiet hpipes => exact hnone _ ha hquiet.resets

/-- **A prompt step is within the bound**, and keeps the books. -/
theorem bounded_step {cfg : Config} {t t' : Traced} {act : Act} (h : Inv cfg t)
    (hact : Prompt cfg t.world act) (hstep : traced cfg t act = some t') :
    Bounded cfg t act t' ∧ Inv cfg t' := by
  have heff := effect_of_traced hstep
  have hauto := automatic_of_traced hstep
  have hrow : ∀ {a r}, t.world.rows a = some r → _ := fun hr =>
    version_of_effect h.leased hact heff hr
  have hversion : ∀ a r', t'.world.rows a = some r' →
      (t'.automatic a : Int) ≤ r'.reprocessVersion ∧
        r'.reprocessVersion ≤ cfg.maxAutoRetries := by
    intro a r' hr'
    rw [hauto]
    cases hr : t.world.rows a with
    | none =>
        obtain ⟨hcount, hzero⟩ := absent_of_effect heff hr
        rw [hcount, h.absent a hr, hzero r' hr']
        exact ⟨Int.le_refl _, Int.natCast_nonneg _⟩
    | some r =>
        obtain ⟨x, hx, hv, hbelow⟩ := hrow hr
        rw [hr'] at hx
        cases hx
        obtain ⟨hge, hle⟩ := h.version a r hr
        have hone : t.world.countOf (t.world.resets act) true a ≤ 1 := by
          unfold World.countOf
          split
          · split <;> omega
          · omega
        push_cast
        omega
  have habsent : ∀ a, t'.world.rows a = none → t'.automatic a = 0 := by
    intro a ha
    cases hr : t.world.rows a with
    | none => rw [hauto, (absent_of_effect heff hr).1, h.absent a hr]
    | some r =>
        obtain ⟨x, hx, -, -⟩ := hrow hr
        rw [ha] at hx
        cases hx
  obtain ⟨owing, howing⟩ := h.owing
  obtain ⟨owing', howing'⟩ := owing_step howing h.leased.watchdog hstep
  refine ⟨⟨fun a => ?_, fun a hlt => ?_, fun a => ?_, fun a r hr => ?_⟩,
    leased_step h.leased hact heff, hversion, habsent, owing', howing'⟩
  · cases hr : t'.world.rows a with
    | none =>
        rw [habsent a hr]
        exact Nat.zero_le _
    | some r =>
        obtain ⟨hge, hle⟩ := hversion a r hr
        omega
  · rw [hauto] at hlt
    cases hr : t.world.rows a with
    | none =>
        have hcount := (absent_of_effect heff hr).1
        omega
    | some r =>
        obtain ⟨x, hx, hv, -⟩ := hrow hr
        exact ⟨r, x, rfl, hx, by omega⟩
  · have hcount := howing'.count a
    omega
  · obtain ⟨x, hx, hv, -⟩ := hrow hr
    exact ⟨x, hx, by omega⟩

/-- **Automatic resumption is bounded** where each run claims and commits within the lease of
its scan. -/
theorem bounded_of_prompt (cfg : Config) (acts : List Act)
    (h : Guarded (traced cfg) (fun t act => Prompt cfg t.world act) Traced.start acts) :
    Along (traced cfg) (Bounded cfg) Traced.start acts :=
  along_of_guarded (traced cfg) (Inv cfg) (fun _ _ _ => bounded_step) inv_start h

/-- Run `c` finds row `0`, and nothing else. -/
def scanOf (c : Nat) : List Act := [.scan c .watchdog [(0, "sub")]]

/-- Run `c` resumes the row it found first, as pipeline `p`. -/
def resumeOf (c p : Nat) : List Act :=
  [.tryClaim c true, .inspect c true, .load c, .commit c .found true, .submit c p]

/-- An upload whose pipeline says nothing more, resumed by run `0` every five minutes. -/
def quietly (k : Nat) : List Act :=
  uploaded ++ (List.range k).flatMap fun i => [.wait 301] ++ scanOf 0 ++ resumeOf 0 (i + 1)

/-- Five resumptions by one pod, which is never late. -/
theorem bounded_quietly : Along (traced .standard) (Bounded .standard) Traced.start (quietly 5) :=
  bounded_of_prompt .standard (quietly 5) (by decide)

/-! ## A late pod -/

/-- Two runs find the row at its fourth resumption; one is done with it at once, the other
comes to it 91 seconds later. -/
def latePod : List Act :=
  quietly 4 ++ [.wait 301] ++ scanOf 0 ++ scanOf 1 ++ resumeOf 1 5 ++ [.wait 91] ++
    [.tryClaim 0 true, .inspect 0 true, .load 0]

/-- **A late pod resumes a row a sixth time**: the bound is five. -/
theorem late_not_bounded : ¬ ∀ acts : List Act, (∀ act ∈ acts, act.automatic = true) →
    Along (traced .standard) (Bounded .standard) Traced.start acts := by
  intro h
  have hbound := along_last (traced .standard)
    (h (latePod ++ [.commit 0 .found true]) (by decide)) rfl rfl
  exact absurd (hbound.atMost 0) (by decide)

end MesReunions.Watchdog
