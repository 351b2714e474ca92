import MesReunions.Watchdog.Effect

/-!
# What one step leaves alone

* `rows_step` — a step writes the row it is at; only the sweep of capped rows writes others.
* `inHand_step` — a run of `scan_and_resume` has what its scan has found.
* `pipe_step`, `request_step` — where a pipeline or a request comes from.
-/

namespace MesReunions.Watchdog

variable {cfg : Config} {s s' : World} {act : Act} {a c p q : Nat}

/-! ## Rows -/

/-- The row that an action is at. -/
def World.target (s : World) : Act → Option Nat
  | .create a _ _ _ => some a
  | .tryClaim c _ => (s.calls c).todo.head?.map (·.1)
  | .commit c _ _ => (s.calls c).phase.audio
  | .answer q => (s.requests q).map (·.audio)
  | .progress p _ => (s.pipes p).map (·.audio)
  | .poll p => (s.pipes p).map (·.audio)
  | .finish p _ => (s.pipes p).map (·.audio)
  | .chain a _ => some a
  | .mcr a _ => some a
  | .edit a => some a
  | _ => none

theorem modify_of_ne {b : Nat} {f : Row → Row} (h : b ≠ a) : (s.modify a f).rows b = s.rows b := by
  unfold World.modify
  split
  · rfl
  · exact setRow_of_ne s a _ h

theorem rows_step (hs : step cfg s act = some s') (htarget : s.target act ≠ some a)
    (hcap : act ≠ .markCapped) : s'.rows a = s.rows a := by
  cases act with
  | create b src userSub p =>
      have hne : a ≠ b := fun h => htarget (by rw [h]; rfl)
      simp only [step] at hs
      split at hs
      · cases hs
        split <;> exact setRow_of_ne s b _ hne
      · cases hs
  | tryClaim d ok =>
      simp only [step] at hs
      split at hs
      · rename_i b userSub rest hphase htodo
        have hne : a ≠ b := fun h => htarget (by simp [World.target, htodo, h])
        split at hs
        · split at hs
          · cases hs
            exact setRow_of_ne s b _ hne
          · cases hs
            rfl
        · cases hs
          rfl
      · cases hs
  | commit d probe ok =>
      simp only [step] at hs
      split at hs
      · rename_i b path loaded hphase
        have hne : a ≠ b := fun h => htarget (by simp [World.target, hphase, Phase.audio, h])
        split at hs
        · split at hs
          · split at hs
            · cases hs
              exact setRow_of_ne s b _ hne
            · cases hs
              rfl
          · cases hs
            exact modify_of_ne hne
          · cases hs
            rfl
        · cases hs
          rfl
      · cases hs
  | answer r =>
      simp only [step] at hs
      split at hs
      · rename_i action b loaded hq
        have hne : a ≠ b := fun h => htarget (by simp [World.target, hq, h])
        split at hs
        · cases hs
          exact setRow_of_ne s b _ hne
        · cases hs
          rfl
      · cases hs
  | progress r g =>
      simp only [step] at hs
      split at hs
      · rename_i pipe hp
        cases hs
        exact modify_of_ne fun h => htarget (by simp [World.target, hp, h])
      · cases hs
  | poll r =>
      simp only [step] at hs
      split at hs
      · rename_i pipe hp
        cases hs
        exact modify_of_ne fun h => htarget (by simp [World.target, hp, h])
      · cases hs
  | finish r e =>
      simp only [step] at hs
      split at hs
      · rename_i pipe hp
        cases hs
        exact modify_of_ne fun h => htarget (by simp [World.target, hp, h])
      · cases hs
  | chain b e =>
      cases hs
      exact modify_of_ne fun h => htarget (by rw [h]; rfl)
  | mcr b work =>
      simp only [step] at hs
      split at hs
      · cases hs
        exact modify_of_ne fun h => htarget (by rw [h]; rfl)
      · cases hs
  | edit b =>
      cases hs
      exact modify_of_ne fun h => htarget (by rw [h]; rfl)
  | markCapped => exact absurd rfl hcap
  | wait d =>
      cases hs
      rfl
  | scan d caller found =>
      simp only [step] at hs
      split at hs
      · cases hs
        rfl
      · cases hs
  | inspect d ok =>
      simp only [step] at hs
      split at hs
      · cases hs
        rfl
      · cases hs
  | load d =>
      simp only [step] at hs
      split at hs
      · split at hs <;> cases hs <;> rfl
      · cases hs
  | submit d r =>
      simp only [step] at hs
      split at hs
      · split at hs
        · cases hs
          rfl
        · cases hs
      · cases hs
        rfl
      · cases hs
  | leave d =>
      cases hs
      rfl
  | ask r action b userSub =>
      simp only [step] at hs
      split at hs
      · split at hs
        · cases hs
        · cases hs
          rfl
      · cases hs
  | launch r t =>
      simp only [step] at hs
      split at hs
      · split at hs
        · cases hs
          rfl
        · cases hs
      · cases hs
  | abandon r =>
      cases hs
      rfl

theorem setRow_some {b : Nat} {r : Row} (h : s.rows a ≠ none) : (s.setRow b r).rows a ≠ none := by
  by_cases hab : a = b
  · rw [hab, setRow_self]
    exact nofun
  · rw [setRow_of_ne s b r hab]
    exact h

/-- No row is deleted. -/
theorem rows_some (hs : step cfg s act = some s') (h : s.rows a ≠ none) : s'.rows a ≠ none := by
  cases effect_of_step hs with
  | created => exact setRow_some h
  | claimed => exact setRow_some h
  | reset => exact setRow_some h
  | terminal => exact setRow_some h
  | answered => exact setRow_some h
  | touched => exact setRow_some h
  | capped =>
      intro hnone
      simp only [markCappedAsFailed, Option.map_eq_none_iff] at hnone
      exact h hnone
  | _ => exact h

/-- A row is created once. -/
theorem row_of_create {src : Source} {userSub : String}
    (hs : step cfg s (.create a src userSub p) = some s') : s.rows a = none := by
  simp only [step] at hs
  split at hs
  · rename_i hcond
    exact hcond.1
  · cases hs

/-! ## Runs of `scan_and_resume` -/

/-- What a scan finds matches its `WHERE`. -/
theorem scan_step {caller : Caller} {found : List (Nat × String)}
    (hs : step cfg s (.scan c caller found) = some s') :
    (∀ x ∈ found, ∃ r, s.rows x.1 = some r ∧ r.stuck cfg caller s.now = true) ∧
      s' = s.setCall c ⟨caller, s.now, found, .next⟩ := by
  simp only [step] at hs
  split at hs
  · rename_i hcond
    cases hs
    exact ⟨stuck_of_mayFind hcond.2.2, rfl⟩
  · cases hs

/-- Run `c` is at row `a`, or will be. -/
def World.InHand (s : World) (c a : Nat) : Prop :=
  (s.calls c).phase.audio = some a ∨ a ∈ (s.calls c).todo.map (·.1)

/-- A run has what its scan has found. -/
theorem inHand_step (hs : step cfg s act = some s') (h : s'.InHand c a) :
    s.InHand c a ∧ (s'.calls c).caller = (s.calls c).caller ∨
      ∃ caller found, act = .scan c caller found ∧ a ∈ found.map (·.1) ∧
        (s'.calls c).caller = caller := by
  -- A run other than the one that moves keeps what it has.
  have hother : ∀ {d : Nat} {k : Call} {t : World}, t.calls = s.calls → s' = t.setCall d k →
      c ≠ d → s.InHand c a ∧ (s'.calls c).caller = (s.calls c).caller := by
    intro d k t ht hs' hne
    subst hs'
    simp only [World.InHand, setCall_of_ne t d k hne, ht] at h ⊢
    exact ⟨h, trivial⟩
  -- One that moves keeps its caller, and no row comes to it.
  have hmoved : ∀ {d : Nat} {todo : List (Nat × String)} {phase : Phase} {t : World},
      t.calls = s.calls → s' = t.setCall d { s.calls d with todo := todo, phase := phase } →
      (∀ b, phase.audio = some b ∨ b ∈ todo.map (·.1) → s.InHand d b) →
      s.InHand c a ∧ (s'.calls c).caller = (s.calls c).caller := by
    intro d todo phase t ht hs' hkeeps
    by_cases hcd : c = d
    · subst hcd
      subst hs'
      simp only [World.InHand, setCall_self] at h ⊢
      exact ⟨hkeeps a h, trivial⟩
    · exact hother ht hs' hcd
  cases effect_of_step hs with
  | waited d => exact .inl ⟨h, rfl⟩
  | created => exact .inl ⟨h, rfl⟩
  | scanned d caller found hphase htodo hfound =>
      by_cases hcd : c = d
      · subst hcd
        simp only [World.InHand, setCall_self, Phase.audio] at h
        rcases h with h | h
        · cases h
        · exact .inr ⟨caller, found, rfl, h, by rw [setCall_self]⟩
      · exact .inl (hother rfl rfl hcd)
  | claimed d b userSub rest r hphase htodo hr hfree =>
      refine .inl (hmoved (t := s.setRow b (r.claimed s.now)) rfl rfl fun b' hb' => ?_)
      rw [World.InHand, htodo]
      rcases hb' with hb' | hb'
      · cases hb'
        exact .inr (by simp)
      · exact .inr (by simp only [List.map_cons]; exact List.mem_cons_of_mem _ hb')
  | moved _ d b phase hact hold hnew =>
      refine .inl (hmoved rfl rfl fun b' hb' => ?_)
      rcases hb' with hb' | hb'
      · exact .inl (hold.trans (hnew.symm.trans hb'))
      · exact .inr hb'
  | freed _ d todo hact htodo =>
      refine .inl (hmoved rfl rfl fun b' hb' => ?_)
      rcases hb' with hb' | hb'
      · cases hb'
      · obtain ⟨x, hx, rfl⟩ := List.mem_map.mp hb'
        exact .inr (List.mem_map_of_mem (htodo x hx))
  | reset d probe b path loaded r hphase hr hresets =>
      refine .inl (hmoved (t := s.setRow b _) rfl rfl fun b' hb' => ?_)
      rcases hb' with hb' | hb'
      · rw [World.InHand, hphase]
        exact .inl hb'
      · exact .inr hb'
  | terminal d probe b path loaded r kind hact hphase hr =>
      refine .inl (hmoved (t := s.setRow b _) rfl rfl fun b' hb' => ?_)
      rcases hb' with hb' | hb'
      · cases hb'
      · exact .inr hb'
  | submitted d t b path pipes hphase hpipes =>
      refine .inl (hmoved (t := { s with pipes := pipes }) rfl rfl fun b' hb' => ?_)
      rcases hb' with hb' | hb'
      · cases hb'
      · exact .inr hb'
  | capped => exact .inl ⟨h, rfl⟩
  | asked => exact .inl ⟨h, rfl⟩
  | answered => exact .inl ⟨h, rfl⟩
  | launched => exact .inl ⟨h, rfl⟩
  | dropped => exact .inl ⟨h, rfl⟩
  | touched => exact .inl ⟨h, rfl⟩
  | unpiped => exact .inl ⟨h, rfl⟩

/-- What a run has loaded is the row as it was then. -/
theorem loaded_step {path : Path} {r : Row} (hs : step cfg s act = some s')
    (h : (s'.calls c).phase = .loaded a path r) :
    (s.calls c).phase = .loaded a path r ∨ s.rows a = some r := by
  -- The run that moves is at the phase it moves to.
  have hupdated : ∀ {d : Nat} {k : Call} {t : World}, t.calls = s.calls → s' = t.setCall d k →
      (s.calls c).phase = .loaded a path r ∨ k.phase = .loaded a path r := by
    intro d k t ht hs'
    subst hs'
    by_cases hcd : c = d
    · subst hcd
      rw [setCall_self] at h
      exact .inr h
    · rw [setCall_of_ne t d k hcd, ht] at h
      exact .inl h
  cases effect_of_step hs with
  | scanned d caller found =>
      rcases hupdated (t := s) rfl rfl with hold | hnew
      · exact .inl hold
      · cases hnew
  | claimed d b userSub rest row =>
      rcases hupdated (t := s.setRow b (row.claimed s.now)) rfl rfl with hold | hnew
      · exact .inl hold
      · cases hnew
  | moved _ d b phase hact hold hnew huncommitted hload =>
      rcases hupdated (t := s) rfl rfl with hsame | hmoved
      · exact .inl hsame
      · exact .inr (hload a path r hmoved)
  | freed _ d todo =>
      rcases hupdated (t := s) rfl rfl with hold | hnew
      · exact .inl hold
      · cases hnew
  | reset d probe b path' loaded row =>
      rcases hupdated (t := s.setRow b _) rfl rfl with hold | hnew
      · exact .inl hold
      · cases hnew
  | terminal d probe b path' loaded row kind =>
      rcases hupdated (t := s.setRow b _) rfl rfl with hold | hnew
      · exact .inl hold
      · cases hnew
  | submitted d t b path' pipes =>
      rcases hupdated (t := { s with pipes := pipes }) rfl rfl with hold | hnew
      · exact .inl hold
      · cases hnew
  | _ => exact .inl h

/-! ## Pipelines and requests -/

/-- The action starts this pipeline; only that of an upload answers to a queue. -/
def World.Launches (s : World) (act : Act) (pipe : Pipe) : Prop :=
  match act with
  | .create a src _ _ => src.transcribes = true ∧ pipe = ⟨a, src.isUpload⟩
  | .submit c _ => (s.calls c).phase = .committed pipe.audio .kevent ∧ pipe.upload = false
  | .launch q _ => (∃ r ∈ s.requests q, r.audio = pipe.audio ∧ r.committed = true) ∧
      pipe.upload = false
  | _ => False

theorem pipe_step {pipe : Pipe} (hs : step cfg s act = some s') (hp : s'.pipes p = some pipe) :
    s.pipes p = some pipe ∨ s.Launches act pipe := by
  -- A pipeline is what it was, or the one that is started.
  have hnew : ∀ {t : Nat} {fresh : Pipe} {pipes : Nat → Option Pipe},
      pipes = Function.update s.pipes t (some fresh) → pipes p = some pipe →
      s.pipes p = some pipe ∨ pipe = fresh := by
    intro t fresh pipes hpipes h
    subst hpipes
    by_cases hpt : p = t
    · subst hpt
      rw [Function.update_self] at h
      exact .inr (Option.some.inj h).symm
    · rw [Function.update_of_ne hpt] at h
      exact .inl h
  cases act with
  | create b src userSub t =>
      simp only [step] at hs
      split at hs
      · cases hs
        split at hp
        · rename_i hsrc
          rcases hnew rfl hp with h | rfl
          · exact .inl h
          · exact .inr ⟨hsrc, rfl⟩
        · exact .inl hp
      · cases hs
  | submit d t =>
      simp only [step] at hs
      split at hs
      · rename_i b hphase
        split at hs
        · cases hs
          rcases hnew rfl hp with h | rfl
          · exact .inl h
          · exact .inr ⟨hphase, rfl⟩
        · cases hs
      · cases hs
        exact .inl hp
      · cases hs
  | launch r t =>
      simp only [step] at hs
      split at hs
      · rename_i action b loaded hq
        split at hs
        · cases hs
          rcases hnew rfl hp with h | rfl
          · exact .inl h
          · exact .inr ⟨⟨_, hq, rfl, rfl⟩, rfl⟩
        · cases hs
      · cases hs
  | _ =>
      refine .inl ?_
      cases effect_of_step hs with
      | touched _ b r r' pipes hact hr hr' hpipes =>
          rcases hpipes p with h | h
          · rw [← h]
            exact hp
          · rw [show pipes p = some pipe from hp] at h
            cases h
      | unpiped _ pipes hact hpipes =>
          rcases hpipes p with h | h
          · rw [← h]
            exact hp
          · rw [show pipes p = some pipe from hp] at h
            cases h
      | _ => exact hp

/-- A request is what it was, or the one that is written. -/
theorem request_update {r : Request} {fresh : Option Request} {t : Nat}
    (h : Function.update s.requests t fresh q = some r) :
    s.requests q = some r ∨ q = t ∧ fresh = some r := by
  by_cases hqt : q = t
  · subst hqt
    rw [Function.update_self] at h
    exact .inr ⟨rfl, h⟩
  · rw [Function.update_of_ne hqt] at h
    exact .inl h

/-- A request is asked for first; only a full reprocess is committed before it ends. -/
theorem request_step {r : Request} (hs : step cfg s act = some s') (hq : s'.requests q = some r) :
    (∃ r₀, s.requests q = some r₀ ∧ r₀.action = r.action ∧ r₀.audio = r.audio ∧
        (r.committed = true → r₀.committed = true ∨ r.action = .fullReprocess)) ∨
      r.committed = false ∧ ∃ userSub, act = .ask q r.action r.audio userSub := by
  cases effect_of_step hs with
  | asked t action b userSub row hnone hr =>
      rcases request_update hq with h | ⟨rfl, h⟩
      · exact .inl ⟨r, h, rfl, rfl, .inl⟩
      · cases h
        exact .inr ⟨rfl, userSub, rfl⟩
  | answered t action b loaded row hold hr =>
      rcases request_update hq with h | ⟨rfl, h⟩
      · exact .inl ⟨r, h, rfl, rfl, .inl⟩
      · split at h
        · rename_i hfull
          cases h
          exact .inl ⟨_, hold, rfl, rfl, fun _ => .inr hfull⟩
        · cases h
  | launched t p action b loaded hold hp =>
      rcases request_update hq with h | ⟨rfl, h⟩
      · exact .inl ⟨r, h, rfl, rfl, .inl⟩
      · cases h
  | dropped _ t hact =>
      rcases request_update hq with h | ⟨rfl, h⟩
      · exact .inl ⟨r, h, rfl, rfl, .inl⟩
      · cases h
  | _ => exact .inl ⟨r, hq, rfl, rfl, .inl⟩

end MesReunions.Watchdog
