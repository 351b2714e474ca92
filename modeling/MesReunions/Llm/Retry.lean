import MesReunions.Base.Str

/-!
# Asking a model, several times

`_llm_step_with_retry` of `puller.py`, around a step that asks a language model (`llm_client.py`)
once for each of its sections.

* **`llmStepWithRetry`** — another attempt follows an exception, and nothing else.
* `Step` — a step whose own `except LLMError` leaves a hole for a section that failed.
* **`Step.retried_and_honest_iff`** — such a step is retried, and says `empty` for an answer only,
  as long as one call of the attempt that decides it is answered.
-/

namespace MesReunions.Llm

open Str

/-! ## The client -/

/-- The subclasses of `LLMError`. -/
inductive LLMError where
  | auth
  | transient
  | applicative
  deriving DecidableEq

/-- What a call of `chat` or `chat_json` comes to: an answer, an `LLMError`, or an exception of
another class. -/
inductive Reply (β : Type) where
  | answer (b : β)
  | error (e : LLMError)
  | raised (name : Str)
  deriving DecidableEq

/-- The calls that a step makes, one after the other. -/
abbrev Calls (β : Type) := Nat → Reply β

/-- An attempt, from the number of calls made before it: what it returns, `None` included, or the
class of its exception; and the number of calls made after it. -/
abbrev Attempt (α : Type) := Nat → Except Str (Option α) × Nat

/-! ## The wrapper -/

/-- `_LLM_STEP_MAX_ATTEMPTS` and `_LLM_STEP_BUDGET_SECONDS` -/
structure RetryConfig where
  maxAttempts : Nat
  budget : Nat

/-- `status_str` -/
inductive StepStatus where
  | ok
  | empty
  | budgetExceeded (attempts : Nat)
  | failed (attempts : Nat) (name : Option Str)
  deriving DecidableEq

/-- The result and the status of a step. -/
structure Ran (α : Type) where
  result : Option α
  status : StepStatus
  deriving DecidableEq

section Wrapper

variable {α : Type} (cfg : RetryConfig) (elapsed : Nat → Nat) (blank : α → Bool) (f : Attempt α)

/-- The loop, from an attempt on. `elapsed k` is what the clock shows before attempt `k`. -/
def retryFrom : (left attempt calls : Nat) → Option Str → Ran α
  | 0, _, _, last => ⟨none, .failed cfg.maxAttempts last⟩
  | left + 1, attempt, calls, _ =>
      if cfg.budget ≤ elapsed attempt then ⟨none, .budgetExceeded (attempt - 1)⟩
      else match f calls with
        | (.ok none, _) => ⟨none, .empty⟩
        | (.ok (some result), _) =>
            if blank result then ⟨none, .empty⟩ else ⟨some result, .ok⟩
        | (.error name, calls) => retryFrom left (attempt + 1) calls (some name)

/-- `_llm_step_with_retry(step_name, callable_fn)` -/
def llmStepWithRetry : Ran α := retryFrom cfg elapsed blank f cfg.maxAttempts 1 0 none

/-- The number of calls before the attempt that decides: the first that no exception ends. -/
def decidingFrom : (left attempt calls : Nat) → Option Nat
  | 0, _, _ => none
  | left + 1, attempt, calls =>
      if cfg.budget ≤ elapsed attempt then none
      else match f calls with
        | (.ok _, _) => some calls
        | (.error _, calls) => decidingFrom left (attempt + 1) calls

def deciding : Option Nat := decidingFrom cfg elapsed f cfg.maxAttempts 1 0

/-- What the wrapper makes of a value that is returned. -/
def judge : Option α → Ran α
  | none => ⟨none, .empty⟩
  | some result => if blank result then ⟨none, .empty⟩ else ⟨some result, .ok⟩

end Wrapper

section Wrapper

variable {α : Type} {cfg : RetryConfig} {elapsed : Nat → Nat} {blank : α → Bool} {f : Attempt α}

theorem retryFrom_cases (left : Nat) : ∀ (attempt calls : Nat) (last : Option Str),
    (∃ i r, decidingFrom cfg elapsed f left attempt calls = some i ∧ (f i).1 = .ok r ∧
        retryFrom cfg elapsed blank f left attempt calls last = judge blank r) ∨
      decidingFrom cfg elapsed f left attempt calls = none ∧
        (retryFrom cfg elapsed blank f left attempt calls last).status ≠ .ok ∧
        (retryFrom cfg elapsed blank f left attempt calls last).status ≠ .empty := by
  induction left with
  | zero => exact fun _ _ _ => .inr ⟨rfl, fun h => (by cases h), fun h => (by cases h)⟩
  | succ left ih =>
      intro attempt calls last
      rw [retryFrom, decidingFrom]
      split
      · exact .inr ⟨rfl, fun h => (by cases h), fun h => (by cases h)⟩
      · cases hf : f calls with
        | mk returned after =>
            cases returned with
            | error name => exact ih (attempt + 1) after (some name)
            | ok r =>
                refine .inl ⟨calls, r, rfl, by rw [hf], ?_⟩
                cases r <;> rfl

/-- **The attempt that decides.** -/
theorem llmStepWithRetry_cases :
    (∃ i r, deciding cfg elapsed f = some i ∧ (f i).1 = .ok r ∧
        llmStepWithRetry cfg elapsed blank f = judge blank r) ∨
      deciding cfg elapsed f = none ∧ (llmStepWithRetry cfg elapsed blank f).status ≠ .ok ∧
        (llmStepWithRetry cfg elapsed blank f).status ≠ .empty :=
  retryFrom_cases cfg.maxAttempts 1 0 none

/-- What the wrapper returns is said to be `ok`. -/
theorem retryFrom_ok_of_result (left : Nat) : ∀ (attempt calls : Nat) (last : Option Str),
    (retryFrom cfg elapsed blank f left attempt calls last).result ≠ none →
      (retryFrom cfg elapsed blank f left attempt calls last).status = .ok := by
  induction left with
  | zero => exact fun _ _ _ h => absurd rfl h
  | succ left ih =>
      intro attempt calls last h
      rw [retryFrom] at h ⊢
      split at h
      · exact absurd rfl h
      · rename_i hbudget
        rw [if_neg hbudget]
        cases hf : f calls with
        | mk returned after =>
            rw [hf] at h
            cases returned with
            | error name => exact ih (attempt + 1) after (some name) h
            | ok r =>
                cases r with
                | none => exact absurd rfl h
                | some a =>
                    by_cases hblank : blank a = true
                    · simp only [if_pos hblank] at h
                      exact absurd rfl h
                    · simp only [if_neg hblank]

/-- The first attempt decides, if it is made and returns. -/
theorem deciding_of_first {r : Option α} (hmax : 0 < cfg.maxAttempts)
    (hbudget : elapsed 1 < cfg.budget) (hf : (f 0).1 = .ok r) : deciding cfg elapsed f = some 0 := by
  obtain ⟨left, hleft⟩ := Nat.exists_eq_succ_of_ne_zero (Nat.ne_of_gt hmax)
  rw [deciding, hleft, decidingFrom, if_neg (Nat.not_le.mpr hbudget)]
  cases h : f 0 with
  | mk returned after =>
      rw [h] at hf
      cases hf
      rfl

/-- No attempt decides when the clock is over the budget from the start. -/
theorem deciding_of_late (hbudget : cfg.budget ≤ elapsed 1) : deciding cfg elapsed f = none := by
  rw [deciding]
  cases cfg.maxAttempts with
  | zero => rfl
  | succ left => rw [decidingFrom, if_pos hbudget]

end Wrapper

theorem judge_ok_iff {α : Type} {blank : α → Bool} {r : Option α} :
    (judge blank r).status = .ok ↔ ∃ a, r = some a ∧ blank a = false := by
  cases r with
  | none => exact ⟨fun h => (by cases h), fun ⟨_, h, _⟩ => (by cases h)⟩
  | some a => cases h : blank a <;> simp [judge, h]

theorem judge_not_ok {α : Type} {blank : α → Bool} {r : Option α}
    (h : (judge blank r).status ≠ .ok) : (judge blank r).status = .empty := by
  cases r with
  | none => rfl
  | some a => cases hblank : blank a <;> simp [judge, hblank] at h ⊢

/-! ## Steps -/

/-- `except LLMError` leaves a hole; another exception goes on. -/
def Reply.caught {β : Type} : Reply β → Except Str (Option β)
  | .answer b => .ok (some b)
  | .error _ => .ok none
  | .raised name => .error name

/-- One call for each section, until one raises an exception that is not caught. -/
def ask {β : Type} (calls : Calls β) : (sections made : Nat) → Except Str (List (Option β)) × Nat
  | 0, made => (.ok [], made)
  | sections + 1, made =>
      match (calls made).caught with
      | .error name => (.error name, made + 1)
      | .ok r =>
          let rest := ask calls sections (made + 1)
          (rest.1.map (r :: ·), rest.2)

/-- A step that asks about its sections, and what it makes of the answers. -/
structure Step (β α : Type) where
  sections : Nat
  make : List (Option β) → Except Str (Option α)
  /-- `isinstance(result, str) and not result.strip()` -/
  blank : α → Bool
  /-- A usable answer. -/
  usable : β → Bool
  make_usable : ∀ rs : List (Option β), rs.length = sections →
    (∀ b, some b ∈ rs → usable b = true) → (∃ b, some b ∈ rs) →
      ∃ a, make rs = .ok (some a) ∧ blank a = false
  make_errors : ∀ rs : List (Option β), rs.length = sections → (∀ r ∈ rs, r = none) →
    make rs = .ok none

section Step

variable {β α : Type}

def Step.attempt (s : Step β α) (calls : Calls β) : Attempt α := fun made =>
  let asked := ask calls s.sections made
  (asked.1.bind s.make, asked.2)

def Step.run (s : Step β α) (cfg : RetryConfig) (elapsed : Nat → Nat) (calls : Calls β) : Ran α :=
  llmStepWithRetry cfg elapsed s.blank (s.attempt calls)

/-- The calls fail `k` times in a row, each time with an error that may pass, and are then
answered. -/
def Step.Recovers (s : Step β α) (calls : Calls β) (k : Nat) : Prop :=
  0 < s.sections ∧ (∀ i < k, calls i = .error .transient) ∧
    ∀ i, k ≤ i → i < k + s.sections → ∃ b, calls i = .answer b ∧ s.usable b = true

/-- The step is really retried. -/
def Step.Retried (s : Step β α) (cfg : RetryConfig) (elapsed : Nat → Nat) (calls : Calls β) :
    Prop :=
  ∀ k < cfg.maxAttempts, s.Recovers calls k → (s.run cfg elapsed calls).status = .ok

/-- `empty` is said of an answer: the last attempt asked, and was answered each time. -/
def Step.Honest (s : Step β α) (cfg : RetryConfig) (elapsed : Nat → Nat) (calls : Calls β) : Prop :=
  (s.run cfg elapsed calls).status = .empty →
    0 < s.sections ∧ ∃ made, deciding cfg elapsed (s.attempt calls) = some made ∧
      ∀ i, made ≤ i → i < made + s.sections → ∃ b, calls i = .answer b

/-- What the answers of an attempt leave is not blank. -/
def Step.Speaks (s : Step β α) (rs : List (Option β)) : Prop :=
  ∃ a, s.make rs = .ok (some a) ∧ s.blank a = false

/-- The attempt that decides asks, and is answered at least once; and if another call of it
fails, what is left is not blank. And the clock lets a step start that would recover. -/
structure Step.Answered (s : Step β α) (cfg : RetryConfig) (elapsed : Nat → Nat)
    (calls : Calls β) : Prop where
  answered : ∀ made rs, deciding cfg elapsed (s.attempt calls) = some made →
    (ask calls s.sections made).1 = .ok rs → (∃ b, some b ∈ rs) ∧ (none ∈ rs → s.Speaks rs)
  started : ∀ k < cfg.maxAttempts, s.Recovers calls k → elapsed 1 < cfg.budget

/-! ## What is asked -/

theorem ask_succ {calls : Calls β} {sections made : Nat} {r : Option β}
    (h : (calls made).caught = .ok r) :
    (ask calls (sections + 1) made).1 = (ask calls sections (made + 1)).1.map (r :: ·) := by
  rw [ask, h]

theorem ask_ok {calls : Calls β} : ∀ {sections made : Nat} {rs : List (Option β)},
    (ask calls sections made).1 = .ok rs → rs.length = sections ∧
      ∀ i (hi : i < rs.length), (calls (made + i)).caught = .ok rs[i] := by
  intro sections
  induction sections with
  | zero =>
      intro made rs h
      cases h
      exact ⟨rfl, fun i hi => absurd hi (Nat.not_lt_zero i)⟩
  | succ sections ih =>
      intro made rs h
      cases hcall : (calls made).caught with
      | error name =>
          rw [ask, hcall] at h
          cases h
      | ok r =>
          rw [ask_succ hcall] at h
          cases hrest : (ask calls sections (made + 1)).1 with
          | error name => rw [hrest] at h; cases h
          | ok rs' =>
              rw [hrest] at h
              cases h
              obtain ⟨hlength, hget⟩ := ih hrest
              refine ⟨congrArg (· + 1) hlength, fun i hi => ?_⟩
              cases i with
              | zero => exact hcall
              | succ i =>
                  have hnext := hget i (Nat.lt_of_succ_lt_succ hi)
                  rw [Nat.add_right_comm] at hnext
                  exact hnext

/-- Calls whose exceptions are caught are all made. -/
theorem ask_of_caught {calls : Calls β} : ∀ {sections made : Nat},
    (∀ i, made ≤ i → i < made + sections → ∃ r, (calls i).caught = .ok r) →
      ∃ rs, (ask calls sections made).1 = .ok rs := by
  intro sections
  induction sections with
  | zero => exact fun _ => ⟨[], rfl⟩
  | succ sections ih =>
      intro made h
      obtain ⟨rs, hrs⟩ := @ih (made + 1) fun i hi hlt => h i (by omega) (by omega)
      obtain ⟨r, hr⟩ := h made (Nat.le_refl _) (by omega)
      exact ⟨r :: rs, by rw [ask_succ hr, hrs]; rfl⟩

theorem caught_some {r : Reply β} {b : β} (h : r.caught = .ok (some b)) : r = .answer b := by
  cases r <;> cases h
  rfl

theorem attempt_eq {s : Step β α} {calls : Calls β} {made : Nat} {r : Option α}
    (h : (s.attempt calls made).1 = .ok r) :
    ∃ rs, (ask calls s.sections made).1 = .ok rs ∧ s.make rs = .ok r := by
  rw [Step.attempt] at h
  cases hasked : (ask calls s.sections made).1 with
  | error name => rw [hasked] at h; cases h
  | ok rs => exact ⟨rs, rfl, by rw [hasked] at h; exact h⟩

/-- The result of a step that ends `ok`. -/
theorem Step.run_ok {s : Step β α} {cfg : RetryConfig} {elapsed : Nat → Nat} {calls : Calls β}
    (h : (s.run cfg elapsed calls).status = .ok) :
    ∃ rs a, s.make rs = .ok (some a) ∧ s.blank a = false ∧
      (s.run cfg elapsed calls).result = some a := by
  rcases @llmStepWithRetry_cases α cfg elapsed s.blank (s.attempt calls) with
    ⟨made, r, -, hattempt, hrun⟩ | ⟨-, hnot, -⟩
  · obtain ⟨rs, -, hmake⟩ := attempt_eq hattempt
    obtain ⟨a, rfl, hblank⟩ := judge_ok_iff.mp ((congrArg Ran.status hrun).symm.trans h)
    refine ⟨rs, a, hmake, hblank, (congrArg Ran.result hrun).trans ?_⟩
    rw [judge, if_neg (by simp [hblank])]
  · exact absurd h hnot

/-- A step that recovers is answered in its first attempt or not at all. -/
theorem attempt_of_recovers {s : Step β α} {calls : Calls β} {k : Nat} (h : s.Recovers calls k) :
    ∃ rs r, (ask calls s.sections 0).1 = .ok rs ∧ (s.attempt calls 0).1 = .ok r ∧
      ((∃ b, some b ∈ rs) → ∃ a, r = some a ∧ s.blank a = false) := by
  obtain ⟨-, herrors, hanswers⟩ := h
  have hcall : ∀ i, i < s.sections → (calls i).caught = .ok none ∨
      ∃ b, calls i = .answer b ∧ s.usable b = true := fun i hi => by
    by_cases hk : i < k
    · exact .inl (by rw [herrors i hk]; rfl)
    · exact .inr (hanswers i (Nat.le_of_not_lt hk) (by omega))
  obtain ⟨rs, hrs⟩ := @ask_of_caught β calls s.sections 0 fun i _ hi => by
    rcases hcall i (by omega) with hcall | ⟨b, hcall, -⟩
    · exact ⟨none, hcall⟩
    · exact ⟨some b, by rw [hcall]; rfl⟩
  obtain ⟨hlength, hget⟩ := ask_ok hrs
  have husable : ∀ b, some b ∈ rs → s.usable b = true := by
    intro b hb
    obtain ⟨i, hi, hib⟩ := List.getElem_of_mem hb
    have hget := hget i hi
    rw [Nat.zero_add, hib] at hget
    rcases hcall i (hlength ▸ hi) with hcall | ⟨b', hcall, hb'⟩
    · rw [hget] at hcall
      cases hcall
    · rw [caught_some hget] at hcall
      cases hcall
      exact hb'
  have hattempt : (s.attempt calls 0).1 = s.make rs := by rw [Step.attempt, hrs]; rfl
  by_cases hsome : ∃ b, some b ∈ rs
  · obtain ⟨a, hmake, hblank⟩ := s.make_usable rs hlength husable hsome
    exact ⟨rs, some a, hrs, hattempt.trans hmake, fun _ => ⟨a, rfl, hblank⟩⟩
  · have hnone : ∀ r ∈ rs, r = none := fun r hr => by
      cases r with
      | none => rfl
      | some b => exact absurd ⟨b, hr⟩ hsome
    exact ⟨rs, none, hrs, hattempt.trans (s.make_errors rs hlength hnone),
      fun h => absurd h hsome⟩

/-- **Steps are retried, and honest**, exactly when the attempt that decides is answered. -/
theorem Step.retried_and_honest_iff (s : Step β α) (cfg : RetryConfig) (elapsed : Nat → Nat)
    (calls : Calls β) : s.Retried cfg elapsed calls ∧ s.Honest cfg elapsed calls ↔
      s.Answered cfg elapsed calls := by
  have hcases := @llmStepWithRetry_cases α cfg elapsed s.blank (s.attempt calls)
  constructor
  · rintro ⟨hretried, hhonest⟩
    refine ⟨fun made rs hmade hrs => ?_, fun k hk hrecovers => ?_⟩
    · rcases hcases with ⟨i, r, hi, hattempt, hrun⟩ | ⟨hnone, -⟩
      · rw [hmade] at hi
        cases hi
        obtain ⟨rs', hrs', hmake⟩ := attempt_eq hattempt
        rw [hrs] at hrs'
        cases hrs'
        obtain ⟨hlength, hget⟩ := ask_ok hrs
        by_cases hok : (judge s.blank r).status = .ok
        · obtain ⟨a, rfl, hblank⟩ := judge_ok_iff.mp hok
          refine ⟨?_, fun _ => ⟨a, hmake, hblank⟩⟩
          by_contra hall
          have hnone : ∀ r ∈ rs, r = none := fun r hr => by
            cases r with
            | none => rfl
            | some b => exact absurd ⟨b, hr⟩ hall
          rw [s.make_errors rs hlength hnone] at hmake
          cases hmake
        · obtain ⟨hpos, made', hmade', hanswers⟩ :=
            hhonest ((congrArg Ran.status hrun).trans (judge_not_ok hok))
          rw [hmade] at hmade'
          cases hmade'
          have hsome : ∀ j (hj : j < rs.length), ∃ b, rs[j] = some b := fun j hj => by
            obtain ⟨b, hb⟩ := hanswers (made + j) (by omega) (by omega)
            have hget := hget j hj
            rw [hb] at hget
            exact ⟨b, (Except.ok.inj hget).symm⟩
          obtain ⟨b, hb⟩ := hsome 0 (by omega)
          refine ⟨⟨b, hb ▸ List.getElem_mem _⟩, fun hmem => ?_⟩
          obtain ⟨j, hj, hjnone⟩ := List.getElem_of_mem hmem
          obtain ⟨b', hb'⟩ := hsome j hj
          rw [hb'] at hjnone
          cases hjnone
      · rw [hmade] at hnone
        cases hnone
    · have hok := hretried k hk hrecovers
      by_contra hlate
      rcases hcases with ⟨i, r, hi, -⟩ | ⟨-, hnot, -⟩
      · rw [deciding_of_late (Nat.le_of_not_lt hlate)] at hi
        cases hi
      · exact hnot hok
  · rintro ⟨hanswered, hstarted⟩
    refine ⟨fun k hk hrecovers => ?_, fun hempty => ?_⟩
    · -- The first attempt decides.
      obtain ⟨rs, r, hrs, hattempt, hspeaks⟩ := attempt_of_recovers hrecovers
      have hfirst := deciding_of_first (by omega) (hstarted k hk hrecovers) hattempt
      obtain ⟨a, rfl, hblank⟩ := hspeaks (hanswered 0 rs hfirst hrs).1
      rcases hcases with ⟨i, r, hi, hattempt', hrun⟩ | ⟨hnone, -⟩
      · rw [hfirst] at hi
        cases hi
        rw [hattempt] at hattempt'
        cases hattempt'
        exact (congrArg Ran.status hrun).trans (judge_ok_iff.mpr ⟨a, rfl, hblank⟩)
      · rw [hfirst] at hnone
        cases hnone
    · rcases hcases with ⟨made, r, hmade, hattempt, hrun⟩ | ⟨-, -, hnot⟩
      · obtain ⟨rs, hrs, hmake⟩ := attempt_eq hattempt
        obtain ⟨⟨b, hb⟩, hholes⟩ := hanswered made rs hmade hrs
        obtain ⟨hlength, hget⟩ := ask_ok hrs
        refine ⟨hlength ▸ List.length_pos_of_mem hb, made, hmade, fun i hle hlt => ?_⟩
        have hi : i - made < rs.length := by omega
        have hreply := hget (i - made) hi
        rw [Nat.add_sub_cancel' hle] at hreply
        cases hr : rs[i - made] with
        | some b' => exact ⟨b', caught_some (hreply.trans (congrArg Except.ok hr))⟩
        | none =>
            -- A hole, and something is said all the same.
            obtain ⟨a, hmake', hblank⟩ := hholes (hr ▸ List.getElem_mem hi)
            rw [hmake] at hmake'
            cases hmake'
            have hok := (congrArg Ran.status hrun).trans (judge_ok_iff.mpr ⟨a, rfl, hblank⟩)
            rw [show (llmStepWithRetry _ _ _ _).status = .empty from hempty] at hok
            cases hok
      · exact absurd hempty hnot

end Step

end MesReunions.Llm
