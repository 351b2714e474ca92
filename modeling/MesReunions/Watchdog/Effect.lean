import MesReunions.Watchdog.System

/-!
# What one step can do

The steps of the watchdog system, by what they do to the table, the runs of
`scan_and_resume`, the requests and the pipelines. Steps that neither claim a row nor touch
its version are put together.

* `World.resets`, `World.starts`, `World.rises` — the steps that resubmit a row, start its
  pipeline, or raise its version by hand.
* **`effect_of_step`** — every step is one of the `Effect`s.
-/

namespace MesReunions.Watchdog

/-- The run and the row of a reset that an action commits. -/
def World.resets (s : World) : Act → Option (Nat × Nat)
  | .commit c probe true =>
      match (s.calls c).phase with
      | .loaded a path loaded =>
          if resolve path loaded probe = .reset ∧ s.rows a ≠ none then some (c, a) else none
      | _ => none
  | _ => none

/-- The run and the row of a pipeline or a message that an action starts. -/
def World.starts (s : World) : Act → Option (Nat × Nat)
  | .submit c _ =>
      match (s.calls c).phase with
      | .committed a _ => some (c, a)
      | _ => none
  | _ => none

/-- By how much a manual action is counted: one, or what an explicit version adds. -/
def Manual.rise (m : Manual) (current : Row) : Nat :=
  match m with
  | .markReprocessed version =>
      if version = 0 then 1 else (version - current.reprocessVersion).toNat
  | _ => 1

/-- The row and the count of a manual action that is committed. -/
def World.rises (s : World) : Act → Option (Nat × Nat)
  | .answer q =>
      match s.requests q with
      | some ⟨action, a, _, false⟩ => (s.rows a).map fun r => (a, action.rise r)
      | _ => none
  | _ => none

/-- An action that none of the three counts. -/
structure World.Quiet (s : World) (act : Act) : Prop where
  resets : s.resets act = none
  starts : s.starts act = none
  rises : s.rises act = none

/-- A row whose claim and version did not change, and whose activity is that of before or
of now. -/
structure Row.Touched (r r' : Row) (now : Nat) : Prop where
  claim : r'.pipelineClaimAt = r.pipelineClaimAt
  version : r'.reprocessVersion = r.reprocessVersion
  activity : r'.lastActivityAt = r.lastActivityAt ∨ r'.lastActivityAt = some now

/-- What the step `act` makes of `s`. -/
inductive Effect (cfg : Config) (s : World) : Act → World → Prop where
  | waited (d : Nat) : Effect cfg s (.wait d) { s with now := s.now + d }
  | created (a : Nat) (src : Source) (userSub : String) (p : Nat) (pipes : Nat → Option Pipe)
      (hnone : s.rows a = none)
      (hpipes : pipes = s.pipes ∨ s.pipes p = none ∧
        pipes = Function.update s.pipes p (some ⟨a, src.isUpload⟩)) :
      Effect cfg s (.create a src userSub p)
        { s.setRow a (src.row userSub s.now) with pipes := pipes }
  | scanned (c : Nat) (caller : Caller) (found : List (Nat × String))
      (hphase : (s.calls c).phase = .next) (htodo : (s.calls c).todo = [])
      (hfound : ∀ x ∈ found, ∃ r, s.rows x.1 = some r ∧ r.stuck cfg caller s.now = true) :
      Effect cfg s (.scan c caller found) (s.setCall c ⟨caller, s.now, found, .next⟩)
  | claimed (c a : Nat) (userSub : String) (rest : List (Nat × String)) (r : Row)
      (hphase : (s.calls c).phase = .next) (htodo : (s.calls c).todo = (a, userSub) :: rest)
      (hr : s.rows a = some r) (hfree : r.claimFree cfg s.now = true) :
      Effect cfg s (.tryClaim c true) ((s.setRow a (r.claimed s.now)).setCall c
        { s.calls c with todo := rest, phase := .claimed a userSub })
  | moved (act : Act) (c a : Nat) (phase : Phase) (hact : s.Quiet act)
      (hold : (s.calls c).phase.audio = some a) (hnew : phase.audio = some a)
      (huncommitted : ∀ b path, (s.calls c).phase ≠ .committed b path ∧ phase ≠ .committed b path)
      (hload : ∀ b path loaded, phase = .loaded b path loaded → s.rows b = some loaded) :
      Effect cfg s act (s.setCall c { s.calls c with phase := phase })
  | freed (act : Act) (c : Nat) (todo : List (Nat × String)) (hact : s.Quiet act)
      (htodo : ∀ x ∈ todo, x ∈ (s.calls c).todo) :
      Effect cfg s act (s.setCall c { s.calls c with todo := todo, phase := .next })
  | reset (c : Nat) (probe : Probe) (a : Nat) (path : Path) (loaded r : Row)
      (hphase : (s.calls c).phase = .loaded a path loaded) (hr : s.rows a = some r)
      (hresets : s.resets (.commit c probe true) = some (c, a)) :
      Effect cfg s (.commit c probe true) ((s.setRow a (r.resetTo loaded s.now path.status)).setCall c
        { s.calls c with phase := .committed a path })
  | terminal (c : Nat) (probe : Probe) (a : Nat) (path : Path) (loaded r : Row) (kind : ErrorKind)
      (hact : s.Quiet (.commit c probe true))
      (hphase : (s.calls c).phase = .loaded a path loaded) (hr : s.rows a = some r) :
      Effect cfg s (.commit c probe true)
        ((s.setRow a (r.persistTerminalError loaded s.now kind)).setCall c
          { s.calls c with phase := .next })
  | submitted (c p a : Nat) (path : Path) (pipes : Nat → Option Pipe)
      (hphase : (s.calls c).phase = .committed a path)
      (hpipes : pipes = s.pipes ∨ s.pipes p = none ∧
        pipes = Function.update s.pipes p (some ⟨a, false⟩)) :
      Effect cfg s (.submit c p) ({ s with pipes := pipes }.setCall c
        { s.calls c with phase := .next })
  | capped : Effect cfg s .markCapped { s with rows := markCappedAsFailed cfg s.rows s.now }
  | asked (q : Nat) (action : Manual) (a : Nat) (userSub : String) (r : Row)
      (hq : s.requests q = none) (hr : s.rows a = some r) :
      Effect cfg s (.ask q action a userSub) { s with
        requests := Function.update s.requests q (some ⟨action, a, r, false⟩) }
  | answered (q : Nat) (action : Manual) (a : Nat) (loaded r : Row)
      (hq : s.requests q = some ⟨action, a, loaded, false⟩) (hr : s.rows a = some r) :
      Effect cfg s (.answer q) { s.setRow a (r.manual loaded s.now action) with
        requests := Function.update s.requests q
          (if action = .fullReprocess then some ⟨action, a, loaded, true⟩ else none) }
  | launched (q p : Nat) (action : Manual) (a : Nat) (loaded : Row)
      (hq : s.requests q = some ⟨action, a, loaded, true⟩) (hp : s.pipes p = none) :
      Effect cfg s (.launch q p) { s with
        pipes := Function.update s.pipes p (some ⟨a, false⟩)
        requests := Function.update s.requests q none }
  | dropped (act : Act) (q : Nat) (hact : s.Quiet act) :
      Effect cfg s act { s with requests := Function.update s.requests q none }
  | touched (act : Act) (a : Nat) (r r' : Row) (pipes : Nat → Option Pipe) (hact : s.Quiet act)
      (hr : s.rows a = some r) (hr' : r.Touched r' s.now)
      (hpipes : ∀ p, pipes p = s.pipes p ∨ pipes p = none) :
      Effect cfg s act { s.setRow a r' with pipes := pipes }
  | unpiped (act : Act) (pipes : Nat → Option Pipe) (hact : s.Quiet act)
      (hpipes : ∀ p, pipes p = s.pipes p ∨ pipes p = none) :
      Effect cfg s act { s with pipes := pipes }

/-! ## Fields -/

section Fields

variable (s : World) (c a : Nat) (k : Call) (r : Row)

@[simp] theorem setCall_now : (s.setCall c k).now = s.now := rfl
@[simp] theorem setCall_rows : (s.setCall c k).rows = s.rows := rfl
@[simp] theorem setCall_requests : (s.setCall c k).requests = s.requests := rfl
@[simp] theorem setCall_pipes : (s.setCall c k).pipes = s.pipes := rfl
@[simp] theorem setCall_self : (s.setCall c k).calls c = k := Function.update_self ..
theorem setCall_of_ne {d : Nat} (h : d ≠ c) : (s.setCall c k).calls d = s.calls d :=
  Function.update_of_ne h ..

@[simp] theorem setRow_now : (s.setRow a r).now = s.now := rfl
@[simp] theorem setRow_calls : (s.setRow a r).calls = s.calls := rfl
@[simp] theorem setRow_requests : (s.setRow a r).requests = s.requests := rfl
@[simp] theorem setRow_pipes : (s.setRow a r).pipes = s.pipes := rfl
@[simp] theorem setRow_self : (s.setRow a r).rows a = some r := Function.update_self ..
theorem setRow_of_ne {b : Nat} (h : b ≠ a) : (s.setRow a r).rows b = s.rows b :=
  Function.update_of_ne h ..

end Fields

/-! ## The writers of a pipeline, the importer and an edit -/

theorem touched_refl (r : Row) (now : Nat) : r.Touched r now := ⟨rfl, rfl, .inl rfl⟩

theorem touched_setUserAudioStatus (r : Row) (now : Nat) (status : Status)
    (kind : Option (Option ErrorKind)) :
    r.Touched (r.setUserAudioStatus now status kind) now := ⟨rfl, rfl, .inr rfl⟩

theorem touched_touchLastActivity (r : Row) (now : Nat) :
    r.Touched (r.touchLastActivity now) now := ⟨rfl, rfl, .inr rfl⟩

theorem touched_ended (r : Row) (now : Nat) (upload : Bool) (e : End) :
    r.Touched (r.ended now upload e) now := by
  unfold Row.ended
  split
  · exact touched_refl r now
  · exact touched_setUserAudioStatus ..

theorem touched_mcrWork (r : Row) (now : Nat) (work : McrWork) :
    r.Touched (r.mcrWork now work) now := by
  cases work with
  | requeue =>
      simp only [Row.mcrWork]
      split
      · exact touched_refl r now
      · exact ⟨rfl, rfl, .inr rfl⟩
  | setFailed kind => exact ⟨rfl, rfl, .inr rfl⟩
  | audio name => exact ⟨rfl, rfl, .inr rfl⟩
  | transcript => exact ⟨rfl, rfl, .inr rfl⟩

/-- An `UPDATE` by a toucher, with or without the end of a pipeline. -/
theorem effect_modify {cfg : Config} {s : World} {act : Act} {a : Nat} {f : Row → Row}
    {pipes : Nat → Option Pipe} (hact : s.Quiet act) (hf : ∀ r : Row, r.Touched (f r) s.now)
    (hpipes : ∀ p, pipes p = s.pipes p ∨ pipes p = none) :
    Effect cfg s act { s.modify a f with pipes := pipes } := by
  unfold World.modify
  split
  · exact .unpiped act pipes hact hpipes
  · rename_i r hr
    exact .touched act a r (f r) pipes hact hr (hf r) hpipes

@[simp] theorem modify_pipes (s : World) (a : Nat) (f : Row → Row) :
    (s.modify a f).pipes = s.pipes := by
  unfold World.modify
  split <;> rfl

/-- The same where no pipeline ends. -/
theorem effect_update {cfg : Config} {s : World} {act : Act} {a : Nat} {f : Row → Row}
    (hact : s.Quiet act) (hf : ∀ r : Row, r.Touched (f r) s.now) :
    Effect cfg s act (s.modify a f) := by
  have hpipes : ∀ p, (s.modify a f).pipes p = s.pipes p ∨ (s.modify a f).pipes p = none :=
    fun p => .inl (congrFun (modify_pipes s a f) p)
  exact effect_modify hact hf hpipes

/-! ## Every step is one of them -/

theorem find_some {t : Table} {a : Nat} {userSub : String} {r : Row}
    (h : t.find a userSub = some r) : t a = some r ∧ r.userSub = userSub := by
  unfold Table.find at h
  obtain ⟨hr, hsub⟩ := Option.filter_eq_some_iff.1 h
  exact ⟨hr, by simpa using hsub⟩

theorem stuck_of_mayFind {cfg : Config} {s : World} {caller : Caller}
    {found : List (Nat × String)} (h : s.mayFind cfg caller found = true) :
    ∀ x ∈ found, ∃ r, s.rows x.1 = some r ∧ r.stuck cfg caller s.now = true := by
  intro x hx
  simp only [World.mayFind, Bool.and_eq_true, List.all_eq_true, Option.any_eq_true] at h
  obtain ⟨r, hr, hstuck⟩ := h.2 x hx
  exact ⟨r, (find_some hr).1, hstuck⟩

/-- A commit that does not reset is not counted. -/
theorem quiet_of_not_reset {s : World} {c a : Nat} {probe : Probe} {path : Path} {loaded : Row}
    (hphase : (s.calls c).phase = .loaded a path loaded)
    (h : resolve path loaded probe ≠ .reset ∨ s.rows a = none) :
    s.Quiet (.commit c probe true) := by
  refine ⟨?_, rfl, rfl⟩
  simp only [World.resets, hphase]
  exact if_neg fun hreset => h.elim (fun h => h hreset.1) hreset.2

/-- The commit of a run that has loaded its row. -/
theorem effect_of_commit {cfg : Config} {s s' : World} {c a : Nat} {probe : Probe} {path : Path}
    {loaded : Row} (hphase : (s.calls c).phase = .loaded a path loaded)
    (hs : step cfg s (.commit c probe true) = some s') :
    Effect cfg s (.commit c probe true) s' := by
  simp only [step, hphase, if_true] at hs
  cases hres : resolve path loaded probe with
  | reset =>
      simp only [hres] at hs
      cases hr : s.rows a with
      | some r =>
          simp only [hr] at hs
          cases hs
          refine .reset c probe a path loaded r hphase hr ?_
          simp [World.resets, hphase, hres, hr]
      | none =>
          simp only [hr] at hs
          cases hs
          exact .freed _ c _ (quiet_of_not_reset hphase (.inr hr)) fun _ h => h
  | terminal kind =>
      have hact : s.Quiet (.commit c probe true) :=
        quiet_of_not_reset hphase (.inl (by rw [hres]; simp))
      simp only [hres] at hs
      cases hs
      unfold World.modify
      cases hr : s.rows a with
      | some r => exact .terminal c probe a path loaded r kind hact hphase hr
      | none => exact .freed _ c _ hact fun _ h => h
  | later =>
      simp only [hres] at hs
      cases hs
      exact .freed _ c _ (quiet_of_not_reset hphase (.inl (by rw [hres]; simp))) fun _ h => h

/-- **Every step is an effect.** -/
theorem effect_of_step {cfg : Config} {s s' : World} {act : Act}
    (hs : step cfg s act = some s') : Effect cfg s act s' := by
  cases act with
  | wait d =>
      cases hs
      exact .waited d
  | create a src userSub p =>
      simp only [step] at hs
      split at hs
      · rename_i h
        cases hs
        split
        · exact .created a src userSub p _ h.1 (.inr ⟨h.2, rfl⟩)
        · exact .created a src userSub p s.pipes h.1 (.inl rfl)
      · cases hs
  | scan c caller found =>
      simp only [step] at hs
      split at hs
      · rename_i h
        cases hs
        exact .scanned c caller found h.1 h.2.1 (stuck_of_mayFind h.2.2)
      · cases hs
  | tryClaim c ok =>
      simp only [step] at hs
      split at hs
      · rename_i a userSub rest hphase htodo
        have hrest : ∀ x ∈ rest, x ∈ (s.calls c).todo := fun x hx => by
          rw [htodo]
          exact List.mem_cons_of_mem _ hx
        -- a candidate whose claim is not won leaves only the list of them
        have hskip : Effect cfg s (.tryClaim c ok)
            (s.setCall c { s.calls c with todo := rest, phase := .next }) :=
          .freed _ c rest ⟨rfl, rfl, rfl⟩ hrest
        rw [← hphase] at hskip
        split at hs
        · rename_i r hr
          split at hs
          · rename_i h
            cases hs
            obtain ⟨rfl, hfree⟩ := h
            exact .claimed c a userSub rest r hphase htodo hr hfree
          · cases hs
            exact hskip
        · cases hs
          exact hskip
      · cases hs
  | inspect c ok =>
      simp only [step] at hs
      split at hs
      · rename_i a userSub hphase
        cases hs
        refine .moved _ c a _ ⟨rfl, rfl, rfl⟩ (by rw [hphase]; rfl) rfl ?_ ?_
        · intro b path
          rw [hphase]
          exact ⟨nofun, nofun⟩
        · intro b path loaded h
          cases h
      · cases hs
  | load c =>
      simp only [step] at hs
      split at hs
      · rename_i a userSub path hphase
        split at hs
        · rename_i r hfind
          cases hs
          have hr : s.rows a = some r := by
            cases path with
            | kevent => exact (find_some hfind).1
            | mcr => exact hfind
          refine .moved _ c a _ ⟨rfl, rfl, rfl⟩ (by rw [hphase]; rfl) rfl ?_ ?_
          · intro b path'
            rw [hphase]
            exact ⟨nofun, nofun⟩
          · intro b path' loaded h
            cases h
            exact hr
        · cases hs
          exact .freed _ c _ ⟨rfl, rfl, rfl⟩ fun _ h => h
      · cases hs
  | commit c probe ok =>
      cases hphase : (s.calls c).phase with
      | loaded a path loaded =>
          cases ok with
          | true => exact effect_of_commit hphase hs
          | false =>
              simp only [step, hphase, Bool.false_eq_true, if_false] at hs
              cases hs
              exact .freed _ c _ ⟨rfl, rfl, rfl⟩ fun _ h => h
      | _ => simp [step, hphase] at hs
  | submit c p =>
      simp only [step] at hs
      split at hs
      · rename_i a hphase
        split at hs
        · rename_i hp
          cases hs
          exact .submitted c p a .kevent _ hphase (.inr ⟨hp, rfl⟩)
        · cases hs
      · rename_i a hphase
        cases hs
        exact .submitted c p a .mcr s.pipes hphase (.inl rfl)
      · cases hs
  | leave c =>
      cases hs
      exact .freed _ c [] ⟨rfl, rfl, rfl⟩ fun _ h => absurd h List.not_mem_nil
  | markCapped =>
      cases hs
      exact .capped
  | ask q action a userSub =>
      simp only [step] at hs
      split at hs
      · rename_i r hq hfind
        split at hs
        · cases hs
        · cases hs
          exact .asked q action a userSub r hq (find_some hfind).1
      · cases hs
  | answer q =>
      simp only [step] at hs
      split at hs
      · rename_i action a loaded hq
        split at hs
        · rename_i r hr
          cases hs
          exact .answered q action a loaded r hq hr
        · rename_i hr
          cases hs
          exact .dropped _ q ⟨rfl, rfl, by simp [World.rises, hq, hr]⟩
      · cases hs
  | launch q p =>
      simp only [step] at hs
      split at hs
      · rename_i action a loaded hq
        split at hs
        · rename_i hp
          cases hs
          exact .launched q p action a loaded hq hp
        · cases hs
      · cases hs
  | abandon q =>
      cases hs
      exact .dropped _ q ⟨rfl, rfl, rfl⟩
  | progress p g =>
      simp only [step] at hs
      split at hs
      · cases hs
        exact effect_update ⟨rfl, rfl, rfl⟩ fun r => touched_setUserAudioStatus ..
      · cases hs
  | poll p =>
      simp only [step] at hs
      split at hs
      · cases hs
        exact effect_update ⟨rfl, rfl, rfl⟩ fun r => touched_touchLastActivity ..
      · cases hs
  | finish p e =>
      simp only [step] at hs
      split at hs
      · rename_i pipe hp
        cases hs
        refine effect_modify ⟨rfl, rfl, rfl⟩ (fun r => touched_ended ..) fun k => ?_
        by_cases hk : k = p
        · subst hk
          exact .inr (Function.update_self ..)
        · rw [Function.update_of_ne hk]
          exact .inl (by rw [modify_pipes])
      · cases hs
  | chain a e =>
      cases hs
      exact effect_update ⟨rfl, rfl, rfl⟩ fun r => touched_setUserAudioStatus ..
  | mcr a work =>
      simp only [step] at hs
      split at hs
      · cases hs
        exact effect_update ⟨rfl, rfl, rfl⟩ fun r => touched_mcrWork ..
      · cases hs
  | edit a =>
      cases hs
      exact effect_update ⟨rfl, rfl, rfl⟩ fun r => touched_touchLastActivity ..

end MesReunions.Watchdog
