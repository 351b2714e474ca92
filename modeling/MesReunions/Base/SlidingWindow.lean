import Mathlib

/-!
# Sliding windows

Events in the order of their times, of which a queue keeps those that are still recent. An
expiry says when an event is too old; a queue that is pruned from its front only is compared with
the whole history.

* `Expiry` — an older event expires first, and for good.
* `accept` — the queue of a limiter.
* `Kept` — from a time on, the queue stands for the history.
* **`Kept.accept_spec`** — an event is admitted when less than `max` of the history are recent.
* **`Bounded.concat`** — no interval without an expired event holds more than `max`.
-/

namespace MesReunions

variable {τ : Type*} [LinearOrder τ]

/-- When an event is too old: `stale now e`. -/
structure Expiry (τ : Type*) [LinearOrder τ] where
  stale : τ → τ → Bool
  older : ∀ {now a b}, a ≤ b → stale now b = true → stale now a = true
  later : ∀ {now now' e}, now ≤ now' → stale now e = true → stale now' e = true

namespace Expiry

variable (x : Expiry τ)

/-- The events of the history that are recent. -/
def recent (now : τ) (history : List τ) : List τ := history.filter fun e => !x.stale now e

/-- The queue after it is pruned. -/
def prune (now : τ) (queue : List τ) : List τ := queue.dropWhile (x.stale now)

/-- An event at `now`: whether it is admitted, and the queue afterwards. -/
def accept (max : Nat) (queue : List τ) (now : τ) : Bool × List τ :=
  let queue := x.prune now queue
  if max ≤ queue.length then (false, queue) else (true, queue ++ [now])

/-- In order, what is expired comes first. -/
theorem prune_of_sorted (now : τ) {queue : List τ} (h : queue.Pairwise (· ≤ ·)) :
    x.prune now queue = x.recent now queue := by
  induction queue with
  | nil => rfl
  | cons e queue ih =>
      rw [List.pairwise_cons] at h
      by_cases hstale : x.stale now e = true
      · have htail := ih h.2
        rw [prune, List.dropWhile_cons_of_pos hstale, recent,
          List.filter_cons_of_neg (by simpa using hstale)]
        exact htail
      · -- Nothing after it is older.
        have hall : ∀ e' ∈ queue, x.stale now e' = false := fun e' he' => by
          rw [← Bool.not_eq_true]
          exact fun hs => hstale (x.older (h.1 e' he') hs)
        have hself : x.recent now (e :: queue) = e :: queue := by
          refine List.filter_eq_self.mpr fun e' he' => ?_
          rcases List.mem_cons.mp he' with rfl | he'
          · simpa using hstale
          · simpa using hall e' he'
        rw [hself, prune, List.dropWhile_cons_of_neg hstale]

theorem recent_recent {now now' : τ} (h : now ≤ now') (history : List τ) :
    x.recent now' (x.recent now history) = x.recent now' history := by
  rw [recent, recent, recent, List.filter_filter]
  refine List.filter_congr fun e _ => ?_
  cases hnow : x.stale now e with
  | true => simp [x.later h hnow]
  | false => simp

/-- From `now` on, the queue stands for the history. -/
structure Kept (now : τ) (history queue : List τ) : Prop where
  sorted : history.Pairwise (· ≤ ·)
  past : ∀ e ∈ history, e ≤ now
  prune : ∀ now', now ≤ now' → x.prune now' queue = x.recent now' history

theorem kept_nil (now : τ) : x.Kept now [] [] := ⟨.nil, nofun, fun _ _ => rfl⟩

variable {x} in
theorem Kept.mono {now now' : τ} {history queue : List τ} (h : x.Kept now history queue)
    (hnow : now ≤ now') : x.Kept now' history queue :=
  ⟨h.sorted, fun e he => (h.past e he).trans hnow, fun _ hle => h.prune _ (hnow.trans hle)⟩

/-- The history after an event at `now`. -/
def record (admitted : Bool) (history : List τ) (now : τ) : List τ :=
  if admitted then history ++ [now] else history

variable {x} in
/-- **One event.** It is admitted when less than `max` events are recent, and the queue goes on
to stand for the history. -/
theorem Kept.accept_spec {now : τ} {history queue : List τ} (h : x.Kept now history queue) (max : Nat) :
    ((x.accept max queue now).1 = true ↔ (x.recent now history).length < max) ∧
      x.Kept now (record (x.accept max queue now).1 history now) (x.accept max queue now).2 := by
  have hprune := h.prune now le_rfl
  have hsorted : (x.recent now history).Pairwise (· ≤ ·) := h.sorted.filter _
  rw [accept, hprune]
  by_cases hfull : max ≤ (x.recent now history).length
  · rw [if_pos hfull]
    refine ⟨by simpa using hfull, h.sorted, h.past, fun now' hle => ?_⟩
    show x.prune now' (x.recent now history) = x.recent now' history
    rw [x.prune_of_sorted now' hsorted, x.recent_recent hle]
  · rw [if_neg hfull]
    have hconcat : ∀ past : List τ, past.Pairwise (· ≤ ·) → (∀ e ∈ past, e ≤ now) →
        (past ++ [now]).Pairwise (· ≤ ·) := fun past hpast hle =>
      List.pairwise_append.mpr ⟨hpast, List.pairwise_singleton _ _, fun e he e' he' => by
        rw [List.mem_singleton.mp he']
        exact hle e he⟩
    refine ⟨by simpa using hfull, hconcat _ h.sorted h.past, ?_, fun now' hle => ?_⟩
    · intro e he
      rcases List.mem_append.mp he with he | he
      · exact h.past e he
      · exact (List.mem_singleton.mp he).le
    · show x.prune now' (x.recent now history ++ [now]) = x.recent now' (history ++ [now])
      rw [x.prune_of_sorted now' (hconcat _ hsorted fun e he => h.past e (List.mem_filter.mp he).1),
        recent, List.filter_append]
      show x.recent now' (x.recent now history) ++ _ = _
      rw [x.recent_recent hle, recent, recent, List.filter_append]

/-- No event of the interval is expired at another one. -/
def Narrow (inside : τ → Bool) : Prop :=
  ∀ a b, inside a = true → inside b = true → a ≤ b → x.stale b a = false

/-- A narrow interval holds at most `max` events of the history. -/
def Bounded (max : Nat) (history : List τ) : Prop :=
  ∀ inside, x.Narrow inside → (history.filter inside).length ≤ max

variable {x} in
/-- **An admitted event.** -/
theorem Bounded.concat {max : Nat} {history : List τ} (h : x.Bounded max history) {now : τ}
    (hpast : ∀ e ∈ history, e ≤ now) (hroom : (x.recent now history).length < max) :
    x.Bounded max (history ++ [now]) := by
  intro inside hnarrow
  rw [List.filter_append]
  by_cases hnow : inside now = true
  · -- What is with it in the interval is recent.
    have hle : (history.filter inside).length ≤ (x.recent now history).length := by
      rw [recent, ← List.countP_eq_length_filter, ← List.countP_eq_length_filter]
      refine List.countP_mono_left fun e he hin => ?_
      simp [hnarrow e now hin hnow (hpast e he)]
    rw [List.filter_cons_of_pos hnow, List.length_append]
    simp only [List.filter_nil, List.length_cons, List.length_nil]
    omega
  · rw [List.filter_cons_of_neg hnow, List.filter_nil, List.append_nil]
    exact h inside hnarrow

variable {x} in
/-- What is recent is itself narrow. -/
theorem Bounded.recent {max : Nat} {history : List τ} (h : x.Bounded max history) {now : τ}
    (hpast : ∀ e ∈ history, e ≤ now) : (x.recent now history).length ≤ max := by
  have hnarrow : x.Narrow fun e => decide (e ≤ now) && !x.stale now e := by
    intro a b ha hb _
    simp only [Bool.and_eq_true, decide_eq_true_eq, Bool.not_eq_true'] at ha hb
    rw [← Bool.not_eq_true]
    intro hstale
    have hnow := x.later hb.1 hstale
    rw [ha.2] at hnow
    cases hnow
  have hsame : history.filter (fun e => decide (e ≤ now) && !x.stale now e) =
      x.recent now history := by
    refine List.filter_congr fun e he => ?_
    rw [decide_eq_true (hpast e he), Bool.true_and]
  rw [← hsame]
  exact h _ hnarrow

end Expiry

end MesReunions
