import MesReunions.Llm.Chain

/-!
# The verdict of a chain

What `_run_llm_chain_for_audio` reports, beside what its steps did.

* `Chain.Verdict` — `kevent_completed` says that each enabled step gave its output, or had nothing
  to do.
* **`Chain.verdict_iff`** — it does, unless the correction has no relevant term and no other step
  fails.
* **`no_relevant_term`** — a transcript without a term of the glossary is said to be partial.
-/

namespace MesReunions.Llm

open Str

namespace Chain

variable (k : Chain)

/-- The step is asked for. -/
def Enabled (n : StepName) : Prop :=
  k.cfg.enabled n = true ∧ (n = .suggestMetadata → k.includeMetadata = true)

/-- The step gave an output, and the columns hold it. -/
def Produced (n : StepName) : Prop :=
  ∃ out, (k.ran (k.before n) n).result = some out ∧ k.Holds n out k.returned.1

/-- No term of the glossary is relevant. -/
def NoRelevantTerm : Prop :=
  filterRelevant k.cfg.unicode k.glossary k.base k.cfg.maxTermsPerCall = []

/-- `kevent_completed` is said when every enabled step gave its output or had nothing to do. -/
def Verdict : Prop :=
  k.returned.2 = .completed ↔
    ∀ n, k.Enabled n → k.Produced n ∨ n = .glossaryCorrection ∧ k.NoRelevantTerm

/-- The step is run, and comes to nothing. -/
def Fails (n : StepName) : Prop :=
  k.runs n = true ∧ (k.ran (k.before n) n).result = none

variable {k}

/-! ## One step -/

theorem enabled_of_runs {n : StepName} (h : k.runs n = true) : k.Enabled n := by
  cases n with
  | glossaryCorrection => exact ⟨(Bool.and_eq_true_iff.mp h).1, nofun⟩
  | suggestMetadata =>
      obtain ⟨hmeta, henabled⟩ := Bool.and_eq_true_iff.mp h
      exact ⟨henabled, fun _ => hmeta⟩
  | cleaning => exact ⟨h, nofun⟩
  | reformulation => exact ⟨h, nofun⟩
  | meetingAnalysis => exact ⟨h, nofun⟩
  | absenteeSummary => exact ⟨h, nofun⟩

/-- What is asked for is run, but for a correction without a glossary. -/
theorem runs_of_enabled {n : StepName} (h : k.Enabled n) :
    k.runs n = true ∨ n = .glossaryCorrection ∧ k.NoRelevantTerm := by
  obtain ⟨henabled, hmeta⟩ := h
  cases n with
  | glossaryCorrection =>
      by_cases hglossary : k.glossary = []
      · exact .inr ⟨rfl, by rw [NoRelevantTerm, filterRelevant, if_pos (.inl hglossary)]⟩
      · exact .inl (Bool.and_eq_true_iff.mpr ⟨henabled, by simpa using hglossary⟩)
  | suggestMetadata => exact .inl (Bool.and_eq_true_iff.mpr ⟨hmeta rfl, henabled⟩)
  | cleaning => exact .inl henabled
  | reformulation => exact .inl henabled
  | meetingAnalysis => exact .inl henabled
  | absenteeSummary => exact .inl henabled

/-- The wrapper says `ok` of what it returns, and of nothing else. -/
theorem status_ok_iff {c : ChainState} {n : StepName} :
    (k.ran c n).status = .ok ↔ (k.ran c n).result ≠ none := by
  constructor
  · intro hok
    obtain ⟨rs, out, -, -, hresult⟩ := Step.run_ok hok
    have hran : (k.ran c n).result = some out := hresult
    rw [hran]
    exact nofun
  · exact fun hne => retryFrom_ok_of_result _ _ _ _ hne

theorem produced_iff {n : StepName} (hruns : k.runs n = true) :
    k.Produced n ↔ (k.ran (k.before n) n).status = .ok := by
  constructor
  · rintro ⟨out, hresult, -⟩
    exact status_ok_iff.mpr (by rw [hresult]; exact nofun)
  · exact fun hok => holds_final hruns hok

theorem fails_iff {n : StepName} (hruns : k.runs n = true) : k.Fails n ↔ ¬ k.Produced n := by
  rw [produced_iff hruns, status_ok_iff, not_not]
  exact and_iff_right hruns

/-- Without a relevant term, the correction comes to nothing. -/
theorem not_produced_of_noRelevantTerm (h : k.NoRelevantTerm) :
    ¬ k.Produced .glossaryCorrection := by
  rintro ⟨out, hresult, -⟩
  have hstatus : (k.ran (k.before .glossaryCorrection) .glossaryCorrection).status = .ok :=
    status_ok_iff.mpr (by
      rw [hresult]
      intro herror
      cases herror)
  have hsilent : (k.step (k.before .glossaryCorrection) .glossaryCorrection).attempt
      (k.calls .glossaryCorrection) = fun made => (.ok none, made) := by
    have hempty : (filterRelevant k.cfg.unicode k.glossary
        (k.before .glossaryCorrection).base k.cfg.maxTermsPerCall).isEmpty = true :=
      List.isEmpty_iff.mpr h
    rw [step, glossaryStep, if_pos hempty]
    exact Step.once_silent
  rw [ran, Step.run, hsilent] at hstatus
  rcases @llmStepWithRetry_cases _ k.cfg.retry (k.llm.clock .glossaryCorrection)
    (k.step (k.before .glossaryCorrection) .glossaryCorrection).blank
    (fun made => ((.ok none : Except Str (Option Str)), made)) with
    ⟨i, r, -, hattempt, hrun⟩ | ⟨-, hnot, -⟩
  · cases hattempt
    cases (congrArg Ran.status hrun).symm.trans hstatus
  · exact hnot hstatus

/-! ## The chain -/

/-- A status is recorded of the steps that are run. -/
theorem runs_of_mem_final {r : StepName × StepStatus} (h : r ∈ k.final.stepResults) :
    k.runs r.1 = true := by
  have hrun : ∀ (names : List StepName) (c : ChainState),
      (∀ r ∈ c.stepResults, k.runs r.1 = true) →
        ∀ r ∈ (names.foldl k.exec c).stepResults, k.runs r.1 = true := by
    intro names
    induction names with
    | nil => exact fun _ hc => hc
    | cons n names ih =>
        refine fun c hc => ih (k.exec c n) fun r hr => ?_
        cases hruns : k.runs n with
        | false =>
            rw [exec_skip hruns] at hr
            exact hc r hr
        | true =>
            rw [exec_stepResults hruns] at hr
            rcases List.mem_append.mp hr with hr | hr
            · exact hc r hr
            · rw [List.mem_singleton.mp hr]
              exact hruns
  rw [final_eq] at h
  exact hrun order _ (fun r hr => absurd hr List.not_mem_nil) r h

/-- **A chain is complete** when each of its steps gave its output. -/
theorem completed_iff : k.returned.2 = .completed ↔ ∀ n, k.runs n = true → k.Produced n := by
  have hstatus : k.returned.2 = k.final.statusDelta := ChainState.finish_status
  have htold := @told_final k
  rw [hstatus]
  constructor
  · intro hcompleted n hruns
    rw [produced_iff hruns]
    by_contra hne
    have hpart : k.final.statusDelta = .partiallyCompleted :=
      htold.mpr ⟨(n, (k.ran (k.before n) n).status), (mem_final hruns).mpr rfl, hne⟩
    rw [hcompleted] at hpart
    cases hpart
  · intro hall
    cases hdelta : k.final.statusDelta with
    | completed => rfl
    | partiallyCompleted =>
        obtain ⟨⟨n, st⟩, hr, hne⟩ := htold.mp hdelta
        have hruns := runs_of_mem_final hr
        have hok := (produced_iff hruns).mp (hall n hruns)
        rw [(mem_final hruns).mp hr] at hok
        exact absurd hok hne

/-- **The verdict**, and when it is right: unless no term is relevant to a correction that is
asked for, and no other step fails. -/
theorem verdict_iff (k : Chain) : k.Verdict ↔
    (k.runs .glossaryCorrection = true → k.NoRelevantTerm →
      ∃ n, n ≠ .glossaryCorrection ∧ k.Fails n) := by
  rw [Verdict, completed_iff]
  constructor
  · intro h hruns hnone
    by_contra hall
    push Not at hall
    have hclaim : ∀ n, k.Enabled n → k.Produced n ∨ n = .glossaryCorrection ∧ k.NoRelevantTerm := by
      intro n hn
      by_cases hname : n = .glossaryCorrection
      · exact .inr ⟨hname, hnone⟩
      · rcases runs_of_enabled hn with hr | hr
        · exact .inl (not_not.mp fun hnot => hall n hname ((fails_iff hr).mpr hnot))
        · exact .inr hr
    exact not_produced_of_noRelevantTerm hnone (h.mpr hclaim .glossaryCorrection hruns)
  · intro h
    constructor
    · intro hall n hn
      exact (runs_of_enabled hn).imp_left (hall n)
    · intro hall n hruns
      rcases hall n (enabled_of_runs hruns) with hproduced | ⟨rfl, hnone⟩
      · exact hproduced
      · obtain ⟨m, hm, hfails⟩ := h hruns hnone
        rcases hall m (enabled_of_runs hfails.1) with hproduced | ⟨hname, -⟩
        · exact absurd hproduced ((fails_iff hfails.1).mp hfails)
        · exact absurd hname hm

end Chain

/-- A chain that only corrects, with a glossary of one term. -/
def correctionChain : Chain where
  cfg := {
    retry := ⟨3, 90⟩
    chunks := ⟨50000, 25000, 500⟩
    unicode := ⟨id, fun _ => true⟩
    dumps := fun _ => []
    maxTermsPerCall := 200
    enabled := (· = .glossaryCorrection) }
  llm := ⟨fun _ _ => .answer ['O', 'u', 'i'], fun raw => .answer (.str raw), fun _ _ => 0⟩
  base := ['O', 'u', 'i']
  glossary := [['X', 'Q']]
  includeMetadata := true

/-- **A transcript without a term of the glossary** is said to be partially completed. -/
theorem no_relevant_term : ¬ ∀ k : Chain, k.Verdict := by
  intro h
  have hpart : correctionChain.returned.2 = .partiallyCompleted := by decide +kernel
  have hnone : correctionChain.NoRelevantTerm := by
    rw [Chain.NoRelevantTerm]
    decide +kernel
  have hcompleted := (h correctionChain).mpr fun n hn =>
    .inr ⟨of_decide_eq_true hn.1, hnone⟩
  rw [hpart] at hcompleted
  cases hcompleted

end MesReunions.Llm
