import MesReunions.Watchdog.System

/-!
# Which rows a round of the watchdog leaves

`_watchdog_loop` caps, then scans. Both look at non-terminal rows that are stale; the cap
takes those with no version left, and the scan those below the cap that are young and whose
`last_error_kind` is not one of three.

* **`covered_or_aged`** — of the rows without such a kind, those below the cap and older than
  `MAX_AGE_HOURS` are left, and no other.
* **`aged_and_leftover_not_covered`** — a row that grew old, and a row sent back to the
  importer with the kind of its last failure, are in neither.
-/

namespace MesReunions.Watchdog

open TSys

/-- A row the watchdog is for: not terminal, stale, its claim free. -/
structure Row.Orphan (cfg : Config) (r : Row) (now : Nat) : Prop where
  nonTerminal : r.transcriptionStatus ∈ nonTerminalStatuses
  stale : r.stale cfg now = true
  free : r.claimFree cfg now = true

instance (cfg : Config) (r : Row) (now : Nat) : Decidable (r.Orphan cfg now) :=
  decidable_of_iff (r.transcriptionStatus ∈ nonTerminalStatuses ∧ r.stale cfg now = true ∧
      r.claimFree cfg now = true)
    ⟨fun h => ⟨h.1, h.2.1, h.2.2⟩, fun h => ⟨h.nonTerminal, h.stale, h.free⟩⟩

/-- A round of the loop that caps now and scans `d` later: the row is moved to `kevent_failed`,
or it is among the candidates. -/
def World.covered (cfg : Config) (s : World) (a d : Nat) : Bool :=
  (markCappedAsFailed cfg s.rows s.now a).any fun r =>
    r.transcriptionStatus == .keventFailed || r.stuck cfg .watchdog (s.now + d)

section Predicates

variable {cfg : Config} {r : Row} {now d : Nat}

theorem before_mono {t : Option Nat} {span : Nat} (h : before t span now = true) :
    before t span (now + d) = true := by
  cases t with
  | none => rfl
  | some t =>
      have hlt := before_of_lt h
      exact decide_eq_true (by omega)

/-- With no version left, an orphan is capped. -/
theorem overCap_of_orphan (h : r.Orphan cfg now)
    (hv : (cfg.maxAutoRetries : Int) ≤ r.reprocessVersion) : r.overCap cfg now = true := by
  simp only [Row.overCap, Bool.and_eq_true, decide_eq_true_eq, List.contains_iff_mem]
  exact ⟨⟨h.nonTerminal, hv⟩, h.stale⟩

/-- Below the cap, young, and with no kind that stands against it, an orphan is found. -/
theorem stuck_of_orphan (h : r.Orphan cfg now) (hv : r.reprocessVersion < cfg.maxAutoRetries)
    (hage : now + d < r.createdAt + cfg.maxAge) (hkind : r.retryable = true) :
    r.stuck cfg .watchdog (now + d) = true := by
  have hstale : r.stale cfg (now + d) = true := before_mono h.stale
  have hfree : r.claimFree cfg (now + d) = true := before_mono h.free
  simp only [Row.stuck, Bool.and_eq_true, Bool.or_eq_true, decide_eq_true_eq,
    List.contains_iff_mem]
  exact ⟨⟨⟨⟨⟨⟨.inl h.nonTerminal, .inr hstale⟩, hage⟩, hfree⟩, hkind⟩, .inr hv⟩, rfl⟩

end Predicates

/-- **What a round leaves.** An orphan without one of the three kinds is capped or found, or
it is below the cap and older than `MAX_AGE_HOURS`. -/
theorem covered_or_aged {cfg : Config} {s : World} {a : Nat} {r : Row} (d : Nat)
    (hr : s.rows a = some r) (h : r.Orphan cfg s.now) (hkind : r.retryable = true) :
    s.covered cfg a d = true ∨
      r.reprocessVersion < cfg.maxAutoRetries ∧ r.createdAt + cfg.maxAge ≤ s.now + d := by
  unfold World.covered markCappedAsFailed
  rw [hr]
  by_cases hv : (cfg.maxAutoRetries : Int) ≤ r.reprocessVersion
  · left
    simp [overCap_of_orphan h hv, Row.markCapped]
  · have hlt : r.reprocessVersion < cfg.maxAutoRetries := by omega
    have hcap : r.overCap cfg s.now = false := not_overCap_of_lt hlt
    by_cases hage : s.now + d < r.createdAt + cfg.maxAge
    · left
      simp [hcap, stuck_of_orphan h hlt hage hkind]
    · exact .inr ⟨hlt, by omega⟩

/-- An upload that nobody took up, five minutes on. -/
theorem covered_upload : ∃ s r, run (step .standard) World.start
      [.create 0 (.upload "audio.mp4") "sub" 0, .wait 301] = some s ∧ s.rows 0 = some r ∧
    (s.covered .standard 0 1 = true ∨ r.reprocessVersion < (Config.standard.maxAutoRetries : Int) ∧
      r.createdAt + Config.standard.maxAge ≤ s.now + 1) :=
  ⟨_, _, rfl, rfl, covered_or_aged 1 rfl (by decide) (by decide)⟩

/-- An upload that nobody took up, a week and an hour on. -/
def aged : List Act := [.create 0 (.upload "audio.mp4") "sub" 0, .wait (169 * 3600)]

/-- A meeting that is not to be had, asked for again; the importer dies on the way. -/
def leftover : List Act :=
  [.create 0 .mcrImport "sub" 0, .mcr 0 (.setFailed .mcrUnavailableOnSource), .mcr 0 .requeue,
    .wait 301]

/-- **A row out of both**: one that grew old, and one with the kind of an earlier failure. -/
theorem aged_and_leftover_not_covered :
    (¬ ∀ acts s a r, run (step .standard) World.start acts = some s → s.rows a = some r →
      r.Orphan .standard s.now → r.retryable = true → s.covered .standard a 0 = true) ∧
    ¬ ∀ acts s a r, run (step .standard) World.start acts = some s → s.rows a = some r →
      r.Orphan .standard s.now → s.now < r.createdAt + Config.standard.maxAge →
        s.covered .standard a 0 = true := by
  refine ⟨fun h => ?_, fun h => ?_⟩
  · exact absurd (h aged _ 0 _ rfl rfl (by decide) (by decide)) (by decide)
  · exact absurd (h leftover _ 0 _ rfl rfl (by decide) (by decide)) (by decide)

end MesReunions.Watchdog
