import Mathlib.Data.List.Basic

/-!
# Unwinding

A system answers requests. One user's view of it is another system, on the part of the state that is
theirs.

* `serve` — the state after a list of requests, with the requests and their answers.
* `Unwinds` — a request that concerns the user is served alike in both; any other leaves the view as
  it is.
* **`serve_view`** — what the user is answered in a run, and what they are left with, is what the
  requests that concern them give in the view alone.
-/

namespace MesReunions.Unwinding

universe u v w x

variable {σ : Type u} {τ : Type v} {α : Type w} {ρ : Type x}

/-- The state after a list of requests, and each request with its answer. -/
def serve (step : σ → α → Option (σ × ρ)) : σ → List α → Option (σ × List (α × ρ))
  | s, [] => some (s, [])
  | s, a :: as =>
      match step s a with
      | none => none
      | some (s', r) => (serve step s' as).map fun t => (t.1, (a, r) :: t.2)

theorem serve_cons {step : σ → α → Option (σ × ρ)} {s s' t : σ} {a : α} {as : List α} {r : ρ}
    {log : List (α × ρ)} (hstep : step s a = some (s', r)) (h : serve step s' as = some (t, log)) :
    serve step s (a :: as) = some (t, (a, r) :: log) := by
  rw [serve, hstep]
  dsimp only
  rw [h]
  rfl

/-- The view is a system of its own, that requests of others do not change. -/
structure Unwinds (step : σ → α → Option (σ × ρ)) (step' : τ → α → Option (τ × ρ))
    (view : σ → τ) (concerns : α → Bool) : Prop where
  own : ∀ {s a s' r}, concerns a = true → step s a = some (s', r) →
    step' (view s) a = some (view s', r)
  other : ∀ {s a s' r}, concerns a = false → step s a = some (s', r) → view s' = view s

/-- **The view of a run.** -/
theorem serve_view {step : σ → α → Option (σ × ρ)} {step' : τ → α → Option (τ × ρ)} {view : σ → τ}
    {concerns : α → Bool} (h : Unwinds step step' view concerns) :
    ∀ {as : List α} {s t : σ} {log : List (α × ρ)}, serve step s as = some (t, log) →
      serve step' (view s) (as.filter concerns) =
        some (view t, log.filter fun entry => concerns entry.1) := by
  intro as
  induction as with
  | nil =>
      intro s t log hrun
      rw [serve] at hrun
      cases hrun
      rfl
  | cons a as ih =>
      intro s t log hrun
      rw [serve] at hrun
      split at hrun
      · cases hrun
      · rename_i s' r hstep
        obtain ⟨⟨t', log'⟩, hrest, heq⟩ := Option.map_eq_some_iff.mp hrun
        cases heq
        have hview := ih hrest
        cases hconcerns : concerns a with
        | true =>
            have hlog : ((a, r) :: log').filter (fun entry => concerns entry.1) =
                (a, r) :: log'.filter fun entry => concerns entry.1 :=
              List.filter_cons_of_pos hconcerns
            rw [List.filter_cons_of_pos hconcerns, hlog]
            exact serve_cons (h.own hconcerns hstep) hview
        | false =>
            have hnot : ¬ concerns a = true := ne_true_of_eq_false hconcerns
            have hlog : ((a, r) :: log').filter (fun entry => concerns entry.1) =
                log'.filter fun entry => concerns entry.1 :=
              List.filter_cons_of_neg hnot
            rw [List.filter_cons_of_neg hnot, hlog, ← h.other hconcerns hstep]
            exact hview

end MesReunions.Unwinding
