import Mathlib.Order.Basic

/-!
# Runs of a transition system

A system is a partial step function: `step s a` is the state after action `a`, or
`none` when `a` is not possible in `s`. A run is a list of actions.

* **`Guarded`** — every action of a run is taken where a guard allows it.
* **`Along`** — every step of a run has a property.
* **`along_of_guarded`** — the rule: an invariant that guarded steps preserve, and
  under which each of them has the property, carries the property along every
  guarded run.
* `along_iff_guarded` — where the guard is exact for a step, it is exact for a run.
-/

namespace MesReunions.TSys

universe u v

variable {σ : Type u} {α : Type v} (step : σ → α → Option σ)

/-- The state after a list of actions. -/
def run : σ → List α → Option σ
  | s, [] => some s
  | s, a :: as =>
      match step s a with
      | none => none
      | some s' => run s' as

/-- A run in two parts. -/
theorem run_append : ∀ (as bs : List α) (s : σ),
    run step s (as ++ bs) = (run step s as).bind fun s' => run step s' bs
  | [], _, _ => rfl
  | a :: as, bs, s => by
      cases ha : step s a with
      | none => simp only [List.cons_append, run, ha, Option.bind_none]
      | some s' => simp only [List.cons_append, run, ha, run_append as bs s']

/-- Each action is taken in a state where `guard` allows it. -/
def Guarded (guard : σ → α → Prop) : σ → List α → Prop
  | _, [] => True
  | s, a :: as => guard s a ∧ ∀ s', step s a = some s' → Guarded guard s' as

/-- Each step of the run is a `P`. -/
def Along (P : σ → α → σ → Prop) : σ → List α → Prop
  | _, [] => True
  | s, a :: as => ∀ s', step s a = some s' → P s a s' ∧ Along P s' as

/-- A run can be followed to see that it is guarded. -/
instance Guarded.decidable {guard : σ → α → Prop} [∀ s a, Decidable (guard s a)] :
    ∀ (s : σ) (as : List α), Decidable (Guarded step guard s as)
  | _, [] => isTrue trivial
  | s, a :: as =>
      match h : step s a with
      | none => decidable_of_iff (guard s a)
          ⟨fun hg => ⟨hg, fun s' hs' => by rw [h] at hs'; cases hs'⟩, fun hg => hg.1⟩
      | some s1 =>
          have := @Guarded.decidable guard _ s1 as
          decidable_of_iff (guard s a ∧ Guarded step guard s1 as)
            ⟨fun hg => ⟨hg.1, fun s' hs' => by rw [h] at hs'; cases hs'; exact hg.2⟩,
              fun hg => ⟨hg.1, hg.2 s1 h⟩⟩

theorem guarded_cons {guard : σ → α → Prop} {a : α} {as : List α} {s s' : σ} (hguard : guard s a)
    (hs : step s a = some s') (h : Guarded step guard s' as) : Guarded step guard s (a :: as) := by
  refine ⟨hguard, fun s'' hs'' => ?_⟩
  rw [hs] at hs''
  cases hs''
  exact h

/-- A guard that always allows. -/
theorem guarded_of_forall {guard : σ → α → Prop} (h : ∀ s a, guard s a) :
    ∀ {as : List α} {s : σ}, Guarded step guard s as
  | [], _ => trivial
  | _ :: _, _ => ⟨h .., fun _ _ => guarded_of_forall h⟩

theorem guarded_mono {guard guard' : σ → α → Prop} (hmono : ∀ s a, guard s a → guard' s a) :
    ∀ {as : List α} {s : σ}, Guarded step guard s as → Guarded step guard' s as
  | [], _, _ => trivial
  | _ :: _, _, h => ⟨hmono _ _ h.1, fun s' hs' => guarded_mono hmono (h.2 s' hs')⟩

theorem guarded_and {guard guard' : σ → α → Prop} :
    ∀ {as : List α} {s : σ}, Guarded step guard s as → Guarded step guard' s as →
      Guarded step (fun s a => guard s a ∧ guard' s a) s as
  | [], _, _, _ => trivial
  | _ :: _, _, h, h' => ⟨⟨h.1, h'.1⟩, fun s' hs' => guarded_and (h.2 s' hs') (h'.2 s' hs')⟩

/-- A guard that holds under an invariant, along actions that preserve it. -/
theorem guarded_of_inv {guard : σ → α → Prop} (inv : σ → Prop) (ok : α → Prop)
    (hguard : ∀ s a, inv s → ok a → guard s a)
    (hstep : ∀ s a s', inv s → ok a → step s a = some s' → inv s') :
    ∀ {as : List α} {s : σ}, inv s → (∀ a ∈ as, ok a) → Guarded step guard s as
  | [], _, _, _ => trivial
  | a :: as, s, hinv, hok => by
      have ha := hok a List.mem_cons_self
      exact ⟨hguard s a hinv ha, fun s' hs' => guarded_of_inv inv ok hguard hstep
        (hstep s a s' hinv ha hs') fun b hb => hok b (List.mem_cons_of_mem a hb)⟩

/-- A guard on the actions alone. -/
theorem guarded_of_actions {ok : α → Prop} {as : List α} (s : σ) (h : ∀ a ∈ as, ok a) :
    Guarded step (fun _ a => ok a) s as :=
  guarded_of_inv step (fun _ => True) ok (fun _ _ _ ha => ha) (fun _ _ _ _ _ _ => trivial)
    trivial h

/-- **The run rule.** -/
theorem along_of_guarded {guard : σ → α → Prop} {P : σ → α → σ → Prop} (inv : σ → Prop)
    (hstep : ∀ s a s', inv s → guard s a → step s a = some s' → P s a s' ∧ inv s') :
    ∀ {as : List α} {s : σ}, inv s → Guarded step guard s as → Along step P s as
  | [], _, _, _ => trivial
  | a :: as, s, hinv, hguard => by
      intro s' hs'
      obtain ⟨hP, hinv'⟩ := hstep s a s' hinv hguard.1 hs'
      exact ⟨hP, along_of_guarded inv hstep hinv' (hguard.2 s' hs')⟩

/-- A property along a run is one of its last step. -/
theorem along_last {P : σ → α → σ → Prop} :
    ∀ {as : List α} {a : α} {s t t' : σ}, Along step P s (as ++ [a]) → run step s as = some t →
      step t a = some t' → P t a t'
  | [], a, s, t, t', h, hrun, hstep => by
      injection hrun with hrun
      subst hrun
      exact (h t' hstep).1
  | b :: as, a, s, t, t', h, hrun, hstep => by
      cases hb : step s b with
      | none => simp [run, hb] at hrun
      | some s1 =>
          simp only [run, hb] at hrun
          exact along_last (h s1 hb).2 hrun hstep

/-- An invariant of guarded steps holds at the end of a guarded run. -/
theorem inv_of_guarded {guard : σ → α → Prop} (inv : σ → Prop)
    (hstep : ∀ s a s', inv s → guard s a → step s a = some s' → inv s') :
    ∀ {as : List α} {s s' : σ}, inv s → Guarded step guard s as →
      run step s as = some s' → inv s'
  | [], s, s', hinv, _, hrun => by
      injection hrun with hrun
      rw [← hrun]
      exact hinv
  | a :: as, s, s', hinv, hguard, hrun => by
      cases ha : step s a with
      | none => simp [run, ha] at hrun
      | some s1 =>
          simp only [run, ha] at hrun
          exact inv_of_guarded inv hstep (hstep s a s1 hinv hguard.1 ha) (hguard.2 s1 ha) hrun

/-- **The exact rule.** Where an invariant makes the guard say exactly which steps are a `P`, it
says so of every run. -/
theorem along_iff_guarded {guard : σ → α → Prop} {P : σ → α → σ → Prop} (inv : σ → Prop)
    (hexact : ∀ s a s', inv s → step s a = some s' → (P s a s' ↔ guard s a))
    (hstep : ∀ s a s', inv s → guard s a → step s a = some s' → inv s') :
    ∀ {as : List α} {s t : σ}, inv s → run step s as = some t →
      (Along step P s as ↔ Guarded step guard s as)
  | [], _, _, _, _ => Iff.rfl
  | a :: as, s, t, hinv, hrun => by
      cases hs : step s a with
      | none => simp [run, hs] at hrun
      | some s1 =>
          simp only [run, hs] at hrun
          constructor
          · intro h
            obtain ⟨hP, hrest⟩ := h s1 hs
            have ha : guard s a := (hexact s a s1 hinv hs).mp hP
            have hinv' : inv s1 := hstep s a s1 hinv ha hs
            exact guarded_cons step ha hs
              ((along_iff_guarded inv hexact hstep hinv' hrun).mp hrest)
          · intro h s' hs'
            rw [hs] at hs'
            cases hs'
            have hinv' : inv s1 := hstep s a s1 hinv h.1 hs
            exact ⟨(hexact s a s1 hinv hs).mpr h.1,
              (along_iff_guarded inv hexact hstep hinv' hrun).mpr (h.2 s1 hs)⟩

end MesReunions.TSys
