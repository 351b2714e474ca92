import MesReunions.Llm.Steps

/-!
# The post-transcription chain

`_run_llm_chain_for_audio` of `puller.py`: six steps in a row, each under the wrapper, whose
outputs become columns of the row.

* `runLlmChainForAudio` — the chain as it is written.
* `Chain.final_eq` — its six blocks run a `Step`, store its output and record its status.
* **`Chain.retried_iff_answered`** — when the steps of a chain are retried, and `empty` said of
  an answer.
* **`one_failure`** — they are not always.
* `runLlmChainForAudio_error` — the error that goes with the status.
-/

namespace MesReunions.Llm

open Str

/-! ## The chain -/

/-- The steps of the chain, in order. -/
inductive StepName where
  | glossaryCorrection
  | suggestMetadata
  | cleaning
  | reformulation
  | meetingAnalysis
  | absenteeSummary
  deriving DecidableEq

/-- The columns the chain writes: `none` for a key that is not in `updates`. -/
structure Updates where
  glossaryCorrectedText : Option Str := none
  suggestedFilename : Option Str := none
  keyPointsSummary : Option Str := none
  cleanedText : Option Str := none
  reformulatedText : Option Str := none
  meetingAnalysisJson : Option Str := none
  absenteeSummary : Option Str := none
  /-- `last_error_kind` and `last_error_message`: `some none` for `None`. -/
  lastError : Option (Option (Str × Str)) := none
  deriving DecidableEq

inductive ChainStatus where
  | completed
  | partiallyCompleted
  deriving DecidableEq

/-- The settings: the flags `KEVENT_…_ENABLED`, and `json.dumps`. -/
structure ChainConfig where
  retry : RetryConfig
  chunks : ChunkConfig
  unicode : Unicode
  dumps : Json → Str
  maxTermsPerCall : Nat
  enabled : StepName → Bool

/-- The model: what it replies to each step, and how long the step takes. -/
structure Model where
  replies : StepName → Calls Str
  loads : Str → Reply Json
  clock : StepName → Nat → Nat

/-- A run of the chain. -/
structure Chain where
  cfg : ChainConfig
  llm : Model
  base : Str
  glossary : List Str
  includeMetadata : Bool

/-- The variables of the chain. -/
structure ChainState where
  base : Str
  updates : Updates := {}
  stepResults : List (StepName × StepStatus) := []
  statusDelta : ChainStatus := .completed
  deriving DecidableEq

/-- `step_results[step_name] = st`, and `status_delta` -/
def ChainState.record (c : ChainState) (n : StepName) (st : StepStatus) : ChainState :=
  { c with
    stepResults := c.stepResults ++ [(n, st)]
    statusDelta := if st = .ok then c.statusDelta else .partiallyCompleted }

/-- `updates.get("cleaned_text") or base_for_llm` -/
def ChainState.source (c : ChainState) : Str :=
  match c.updates.cleanedText with
  | some cleaned => if cleaned = [] then c.base else cleaned
  | none => c.base

namespace Chain

variable (k : Chain)

/-- 3b-bis -/
def glossaryCorrection (c : ChainState) : ChainState :=
  if k.cfg.enabled .glossaryCorrection && !k.glossary.isEmpty then
    let ran := llmStepWithRetry k.cfg.retry (k.llm.clock .glossaryCorrection) isBlank
      (applyGlossaryCorrection k.cfg.unicode k.cfg.chunks c.base k.glossary k.cfg.maxTermsPerCall
        (k.llm.replies .glossaryCorrection))
    let c := match ran.result with
      | some corrected =>
          if corrected = [] then c
          else { c with
            base := corrected
            updates := { c.updates with glossaryCorrectedText := some corrected } }
      | none => c
    c.record .glossaryCorrection ran.status
  else c

/-- 3b-ter -/
def suggestMetadata (c : ChainState) : ChainState :=
  if k.includeMetadata && k.cfg.enabled .suggestMetadata then
    let ran := llmStepWithRetry k.cfg.retry (k.llm.clock .suggestMetadata) (fun _ => false)
      (Llm.suggestMetadata c.base
        fun i => (k.llm.replies .suggestMetadata i).json k.llm.loads)
    let c := match ran.result with
      | some info =>
          let updates := if info.title = [] then c.updates
            else { c.updates with suggestedFilename := some info.title }
          match serializeKeyPoints info.keyPoints with
          | some points => { c with updates := { updates with keyPointsSummary := some points } }
          | none => { c with updates := updates }
      | none => c
    c.record .suggestMetadata ran.status
  else c

/-- 3c -/
def cleaning (c : ChainState) : ChainState :=
  if k.cfg.enabled .cleaning then
    let ran := llmStepWithRetry k.cfg.retry (k.llm.clock .cleaning) isBlank
      (cleanOob k.cfg.chunks c.base (k.llm.replies .cleaning))
    let c := match ran.result with
      | some cleaned =>
          if cleaned = [] then c
          else { c with updates := { c.updates with cleanedText := some cleaned } }
      | none => c
    c.record .cleaning ran.status
  else c

/-- 3d -/
def reformulation (c : ChainState) : ChainState :=
  if k.cfg.enabled .reformulation then
    let ran := llmStepWithRetry k.cfg.retry (k.llm.clock .reformulation) isBlank
      (reformulate k.cfg.chunks c.source (k.llm.replies .reformulation))
    let c := match ran.result with
      | some reformulated =>
          if reformulated = [] then c
          else { c with updates := { c.updates with reformulatedText := some reformulated } }
      | none => c
    c.record .reformulation ran.status
  else c

/-- 3e -/
def meetingAnalysis (c : ChainState) : ChainState :=
  if k.cfg.enabled .meetingAnalysis then
    let ran := llmStepWithRetry k.cfg.retry (k.llm.clock .meetingAnalysis) isBlankJson
      (analyseMeeting c.source
        fun i => (k.llm.replies .meetingAnalysis i).json k.llm.loads)
    let c := match ran.result with
      | some analysis =>
          { c with updates := { c.updates with meetingAnalysisJson := some (k.cfg.dumps analysis) } }
      | none => c
    c.record .meetingAnalysis ran.status
  else c

/-- 3f -/
def absenteeSummary (c : ChainState) : ChainState :=
  if k.cfg.enabled .absenteeSummary then
    let ran := llmStepWithRetry k.cfg.retry (k.llm.clock .absenteeSummary) isBlank
      (summariseForAbsentee c.source (k.llm.replies .absenteeSummary))
    let c := match ran.result with
      | some summary =>
          if summary = [] then c
          else { c with updates := { c.updates with absenteeSummary := some summary } }
      | none => c
    c.record .absenteeSummary ran.status
  else c

/-- The steps of the chain, run. -/
def final : ChainState :=
  let c : ChainState := { base := k.base }
  let c := k.glossaryCorrection c
  let c := k.suggestMetadata c
  let c := k.cleaning c
  let c := k.reformulation c
  let c := k.meetingAnalysis c
  k.absenteeSummary c

end Chain

/-! ## The message -/

/-- `_LLM_STEP_LABELS` -/
def StepName.label : StepName → Str
  | .glossaryCorrection => "correction des sigles".toList
  | .suggestMetadata => "titre et points clés".toList
  | .cleaning => "nettoyage des hésitations".toList
  | .reformulation => "reformulation narrative".toList
  | .meetingAnalysis => "compte-rendu structuré".toList
  | .absenteeSummary => "résumé pour les absents".toList

/-- The short cause. `f"failed_after_{n}_attempts:{last_exc_name}"` names the exception after its
only colon. -/
def StepStatus.reason : StepStatus → Str
  | .ok => "ok".toList
  | .empty => "le moteur n'a rien renvoyé".toList
  | .budgetExceeded _ => "délai dépassé (3 tentatives infructueuses)".toList
  | .failed _ name =>
      "3 tentatives échouées (".toList ++ name.getD "None".toList ++ ")".toList

/-- `_build_chain_error_message(step_results)` -/
def buildChainErrorMessage (stepResults : List (StepName × StepStatus)) : Str :=
  let failed := stepResults.filter fun r => r.2 ≠ .ok
  if failed = [] then []
  else
    let parts := failed.map fun r => r.1.label ++ " (".toList ++ r.2.reason ++ ")".toList
    "Étapes incomplètes : ".toList ++ " · ".toList.intercalate parts ++
      ". Cliquez Re-générer pour relancer la chaîne.".toList

/-- What the chain returns, once its steps have run. -/
def ChainState.finish (c : ChainState) : Updates × ChainStatus :=
  match c.statusDelta with
  | .partiallyCompleted =>
      let msg := buildChainErrorMessage c.stepResults
      if msg = [] then (c.updates, c.statusDelta)
      else ({ c.updates with lastError := some (some ("llm_chain_partial".toList, msg)) },
        c.statusDelta)
  | .completed => ({ c.updates with lastError := some none }, c.statusDelta)

/-- `_run_llm_chain_for_audio(base_for_llm, …)` -/
def runLlmChainForAudio (cfg : ChainConfig) (base : Str) (llm : Option Model)
    (glossary : List Str) (includeMetadata : Bool) : Updates × ChainStatus :=
  match llm with
  | none => ({}, .completed)
  | some llm => (Chain.mk cfg llm base glossary includeMetadata).final.finish

/-! ## Its blocks -/

/-- What a step asks for. -/
def StepName.Answer : StepName → Type
  | .suggestMetadata | .meetingAnalysis => Json
  | _ => Str

/-- What a step returns. -/
def StepName.Output : StepName → Type
  | .suggestMetadata => Metadata
  | .meetingAnalysis => Json
  | _ => Str

namespace Chain

variable (k : Chain)

/-- The step is run. -/
def runs (n : StepName) : Bool :=
  match n with
  | .glossaryCorrection => k.cfg.enabled n && !k.glossary.isEmpty
  | .suggestMetadata => k.includeMetadata && k.cfg.enabled n
  | _ => k.cfg.enabled n

/-- The replies to a step, as it reads them. -/
def calls : (n : StepName) → Calls n.Answer
  | .glossaryCorrection => k.llm.replies .glossaryCorrection
  | .suggestMetadata => fun i => (k.llm.replies .suggestMetadata i).json k.llm.loads
  | .cleaning => k.llm.replies .cleaning
  | .reformulation => k.llm.replies .reformulation
  | .meetingAnalysis => fun i => (k.llm.replies .meetingAnalysis i).json k.llm.loads
  | .absenteeSummary => k.llm.replies .absenteeSummary

/-- The step, on the texts the chain has so far. -/
def step (c : ChainState) : (n : StepName) → Step n.Answer n.Output
  | .glossaryCorrection =>
      glossaryStep k.cfg.unicode k.cfg.chunks c.base k.glossary k.cfg.maxTermsPerCall
  | .suggestMetadata => metadataStep c.base
  | .cleaning => rewriteStep k.cfg.chunks c.base
  | .reformulation => rewriteStep k.cfg.chunks c.source
  | .meetingAnalysis => analysisStep c.source
  | .absenteeSummary => summaryStep c.source

def ran (c : ChainState) (n : StepName) : Ran n.Output :=
  (k.step c n).run k.cfg.retry (k.llm.clock n) (k.calls n)

/-- The columns that take the output of a step. -/
def stored : (n : StepName) → n.Output → ChainState → ChainState
  | .glossaryCorrection, (corrected : Str), c =>
      if corrected = [] then c
      else { c with
        base := corrected
        updates := { c.updates with glossaryCorrectedText := some corrected } }
  | .suggestMetadata, (info : Metadata), c =>
      let updates := if info.title = [] then c.updates
        else { c.updates with suggestedFilename := some info.title }
      match serializeKeyPoints info.keyPoints with
      | some points => { c with updates := { updates with keyPointsSummary := some points } }
      | none => { c with updates := updates }
  | .cleaning, (cleaned : Str), c =>
      if cleaned = [] then c
      else { c with updates := { c.updates with cleanedText := some cleaned } }
  | .reformulation, (reformulated : Str), c =>
      if reformulated = [] then c
      else { c with updates := { c.updates with reformulatedText := some reformulated } }
  | .meetingAnalysis, (analysis : Json), c =>
      { c with updates := { c.updates with meetingAnalysisJson := some (k.cfg.dumps analysis) } }
  | .absenteeSummary, (summary : Str), c =>
      if summary = [] then c
      else { c with updates := { c.updates with absenteeSummary := some summary } }

/-- A block of the chain. -/
def exec (c : ChainState) (n : StepName) : ChainState :=
  if k.runs n then
    let ran := k.ran c n
    let c := match ran.result with
      | some out => k.stored n out c
      | none => c
    c.record n ran.status
  else c

def order : List StepName :=
  [.glossaryCorrection, .suggestMetadata, .cleaning, .reformulation, .meetingAnalysis,
    .absenteeSummary]

theorem glossaryCorrection_eq (c : ChainState) : k.glossaryCorrection c = k.exec c .glossaryCorrection := by
  have hran : k.ran c .glossaryCorrection =
      llmStepWithRetry k.cfg.retry (k.llm.clock .glossaryCorrection) isBlank
        (applyGlossaryCorrection k.cfg.unicode k.cfg.chunks c.base k.glossary k.cfg.maxTermsPerCall
        (k.llm.replies .glossaryCorrection)) := by
    rw [ran, Step.run, step, glossaryStep_blank,
      applyGlossaryCorrection_eq]
    rfl
  rw [glossaryCorrection, exec, hran]
  generalize llmStepWithRetry _ _ _ _ = ran
  rcases ran with ⟨_ | out, status⟩ <;> rfl

theorem suggestMetadata_eq (c : ChainState) : k.suggestMetadata c = k.exec c .suggestMetadata := by
  have hran : k.ran c .suggestMetadata =
      llmStepWithRetry k.cfg.retry (k.llm.clock .suggestMetadata) (fun _ => false)
        (Llm.suggestMetadata c.base
        fun i => (k.llm.replies .suggestMetadata i).json k.llm.loads) := by
    rw [ran, Step.run, step, Llm.suggestMetadata_eq]
    rfl
  rw [suggestMetadata, exec, hran]
  generalize llmStepWithRetry _ _ _ _ = ran
  rcases ran with ⟨_ | out, status⟩ <;> rfl

theorem cleaning_eq (c : ChainState) : k.cleaning c = k.exec c .cleaning := by
  have hran : k.ran c .cleaning =
      llmStepWithRetry k.cfg.retry (k.llm.clock .cleaning) isBlank
        (cleanOob k.cfg.chunks c.base (k.llm.replies .cleaning)) := by
    rw [ran, Step.run, step, rewriteStep_blank, cleanOob, runLlmRewrite_eq]
    rfl
  rw [cleaning, exec, hran]
  generalize llmStepWithRetry _ _ _ _ = ran
  rcases ran with ⟨_ | out, status⟩ <;> rfl

theorem reformulation_eq (c : ChainState) : k.reformulation c = k.exec c .reformulation := by
  have hran : k.ran c .reformulation =
      llmStepWithRetry k.cfg.retry (k.llm.clock .reformulation) isBlank
        (reformulate k.cfg.chunks c.source (k.llm.replies .reformulation)) := by
    rw [ran, Step.run, step, rewriteStep_blank, reformulate,
      runLlmRewrite_eq]
    rfl
  rw [reformulation, exec, hran]
  generalize llmStepWithRetry _ _ _ _ = ran
  rcases ran with ⟨_ | out, status⟩ <;> rfl

theorem meetingAnalysis_eq (c : ChainState) : k.meetingAnalysis c = k.exec c .meetingAnalysis := by
  have hran : k.ran c .meetingAnalysis =
      llmStepWithRetry k.cfg.retry (k.llm.clock .meetingAnalysis) isBlankJson
        (analyseMeeting c.source
        fun i => (k.llm.replies .meetingAnalysis i).json k.llm.loads) := by
    rw [ran, Step.run, step, analyseMeeting_eq]
    rfl
  rw [meetingAnalysis, exec, hran]
  generalize llmStepWithRetry _ _ _ _ = ran
  rcases ran with ⟨_ | out, status⟩ <;> rfl

theorem absenteeSummary_eq (c : ChainState) : k.absenteeSummary c = k.exec c .absenteeSummary := by
  have hran : k.ran c .absenteeSummary =
      llmStepWithRetry k.cfg.retry (k.llm.clock .absenteeSummary) isBlank
        (summariseForAbsentee c.source (k.llm.replies .absenteeSummary)) := by
    rw [ran, Step.run, step, summariseForAbsentee_eq]
    rfl
  rw [absenteeSummary, exec, hran]
  generalize llmStepWithRetry _ _ _ _ = ran
  rcases ran with ⟨_ | out, status⟩ <;> rfl

/-- **The six blocks** of the chain. -/
theorem final_eq : k.final = order.foldl k.exec { base := k.base } := by
  rw [final, glossaryCorrection_eq, suggestMetadata_eq, cleaning_eq, reformulation_eq,
    meetingAnalysis_eq, absenteeSummary_eq]
  rfl

/-! ## One step of a chain -/

/-- The columns hold what a step returned. -/
def Holds : (n : StepName) → n.Output → Updates → Prop
  | .glossaryCorrection, (corrected : Str), u => u.glossaryCorrectedText = some corrected
  | .suggestMetadata, (info : Metadata), u => u.suggestedFilename = some info.title ∧
      ∀ points ∈ serializeKeyPoints info.keyPoints, u.keyPointsSummary = some points
  | .cleaning, (cleaned : Str), u => u.cleanedText = some cleaned
  | .reformulation, (reformulated : Str), u => u.reformulatedText = some reformulated
  | .meetingAnalysis, (analysis : Json), u => u.meetingAnalysisJson = some (k.cfg.dumps analysis)
  | .absenteeSummary, (summary : Str), u => u.absenteeSummary = some summary

/-- The chain when it comes to a step. -/
def before (n : StepName) : ChainState :=
  (order.takeWhile (· ≠ n)).foldl k.exec { base := k.base }

/-- `_run_llm_chain_for_audio`, with a model. -/
def returned : Updates × ChainStatus :=
  runLlmChainForAudio k.cfg k.base (some k.llm) k.glossary k.includeMetadata

/-- A step that recovers ends `ok`, and its output is stored. -/
def Retried (n : StepName) : Prop :=
  ∀ m < k.cfg.retry.maxAttempts, (k.step (k.before n) n).Recovers (k.calls n) m →
    (n, .ok) ∈ k.final.stepResults ∧
      ∃ out, (k.ran (k.before n) n).result = some out ∧ k.Holds n out k.returned.1

/-- `empty` is said of an answer. -/
def Honest (n : StepName) : Prop :=
  (n, .empty) ∈ k.final.stepResults → 0 < (k.step (k.before n) n).sections ∧
    ∃ made, deciding k.cfg.retry (k.llm.clock n) ((k.step (k.before n) n).attempt (k.calls n)) =
        some made ∧
      ∀ i, made ≤ i → i < made + (k.step (k.before n) n).sections → ∃ b, k.calls n i = .answer b

/-- The attempt of the step that decides is answered. -/
def Answered (n : StepName) : Prop :=
  (k.step (k.before n) n).Answered k.cfg.retry (k.llm.clock n) (k.calls n)

variable {k}

theorem exec_skip {n : StepName} {c : ChainState} (h : k.runs n = false) : k.exec c n = c := by
  rw [exec, if_neg (by simp [h])]

theorem exec_none {n : StepName} {c : ChainState} (h : k.runs n = true)
    (hresult : (k.ran c n).result = none) : k.exec c n = c.record n (k.ran c n).status := by
  rw [exec, if_pos h]
  simp only [hresult]

theorem exec_some {n : StepName} {c : ChainState} {out : n.Output} (h : k.runs n = true)
    (hresult : (k.ran c n).result = some out) :
    k.exec c n = (k.stored n out c).record n (k.ran c n).status := by
  rw [exec, if_pos h]
  simp only [hresult]

theorem stored_stepResults {n : StepName} {out : n.Output} {c : ChainState} :
    (k.stored n out c).stepResults = c.stepResults := by
  cases n <;> simp only [stored] <;> first | rfl | (split <;> rfl)

theorem exec_stepResults {n : StepName} {c : ChainState} (h : k.runs n = true) :
    (k.exec c n).stepResults = c.stepResults ++ [(n, (k.ran c n).status)] := by
  cases hresult : (k.ran c n).result with
  | none => rw [exec_none h hresult, ChainState.record]
  | some out => rw [exec_some h hresult, ChainState.record, stored_stepResults]

/-- A step leaves the columns of the others alone. -/
theorem holds_stored {n n' : StepName} (hne : n ≠ n') {out : n.Output} {out' : n'.Output}
    {c : ChainState} : k.Holds n out (k.stored n' out' c).updates ↔ k.Holds n out c.updates := by
  cases n' <;> simp only [stored] <;> (repeat' split) <;> cases n <;>
    first | exact absurd rfl hne | exact Iff.rfl

theorem holds_exec {n n' : StepName} (hne : n ≠ n') {out : n.Output} {c : ChainState} :
    k.Holds n out (k.exec c n').updates ↔ k.Holds n out c.updates := by
  cases hruns : k.runs n' with
  | false => rw [exec_skip hruns]
  | true =>
      cases hresult : (k.ran c n').result with
      | none => rw [exec_none hruns hresult, ChainState.record]
      | some out' =>
          rw [exec_some hruns hresult, ChainState.record]
          exact holds_stored hne

/-- A step that ends `ok` has something to store. -/
theorem holds_self {n : StepName} {c : ChainState} {rs : List (Option n.Answer)} {out : n.Output}
    (hmake : (k.step c n).make rs = .ok (some out)) (hblank : (k.step c n).blank out = false) :
    k.Holds n out (k.stored n out c).updates := by
  have hne : ∀ {text : Str}, isBlank text = false → text ≠ [] := by
    rintro text h rfl
    cases h
  cases n with
  | glossaryCorrection =>
      have htext : isBlank out = false := by
        rw [step, glossaryStep_blank] at hblank
        exact hblank
      simp only [stored, if_neg (hne htext), Holds]
  | suggestMetadata =>
      have htitle := title_of_make hmake
      simp only [stored, if_neg htitle]
      split
      · rename_i points hpoints
        exact ⟨rfl, fun points' h => h.symm.trans hpoints ▸ rfl⟩
      · rename_i hpoints
        exact ⟨rfl, fun points' h => (by rw [hpoints] at h; cases h)⟩
  | cleaning =>
      have htext : isBlank out = false := by
        rw [step, rewriteStep_blank] at hblank
        exact hblank
      simp only [stored, if_neg (hne htext), Holds]
  | reformulation =>
      have htext : isBlank out = false := by
        rw [step, rewriteStep_blank] at hblank
        exact hblank
      simp only [stored, if_neg (hne htext), Holds]
  | meetingAnalysis => rfl
  | absenteeSummary =>
      simp only [stored, if_neg (hne hblank), Holds]

/-- The error fields are no step's. -/
theorem holds_finish {n : StepName} {out : n.Output} {c : ChainState} :
    k.Holds n out c.finish.1 ↔ k.Holds n out c.updates := by
  rw [ChainState.finish]
  cases c.statusDelta with
  | completed => cases n <;> exact Iff.rfl
  | partiallyCompleted =>
      dsimp only
      split <;> cases n <;> exact Iff.rfl

theorem foldl_other {n : StepName} : ∀ {names : List StepName} {c : ChainState}, n ∉ names →
    (∀ st, (n, st) ∈ (names.foldl k.exec c).stepResults ↔ (n, st) ∈ c.stepResults) ∧
      ∀ out, k.Holds n out (names.foldl k.exec c).updates ↔ k.Holds n out c.updates := by
  intro names
  induction names with
  | nil => exact fun {_} _ => ⟨fun _ => Iff.rfl, fun _ => Iff.rfl⟩
  | cons n' names ih =>
      intro c hnot
      obtain ⟨hne, hnot⟩ := not_or.mp (mt List.mem_cons.mpr hnot)
      obtain ⟨hresults, hholds⟩ := @ih (k.exec c n') hnot
      refine ⟨fun st => (hresults st).trans ?_, fun out => (hholds out).trans (holds_exec hne)⟩
      cases hruns : k.runs n' with
      | false => rw [exec_skip hruns]
      | true =>
          rw [exec_stepResults hruns, List.mem_append, List.mem_singleton]
          exact or_iff_left fun h => hne (congrArg Prod.fst h)

/-- The chain, cut at a step. -/
theorem final_split (n : StepName) : ∃ after : List StepName, n ∉ after ∧
    k.final = after.foldl k.exec (k.exec (k.before n) n) ∧
      ∀ st, (n, st) ∉ (k.before n).stepResults := by
  have hsplit : ∃ after : List StepName, n ∉ after ∧ order = order.takeWhile (· ≠ n) ++ n :: after ∧
      n ∉ order.takeWhile (· ≠ n) := by
    cases n <;> exact ⟨_, by decide, rfl, by decide⟩
  obtain ⟨after, hafter, horder, hbefore⟩ := hsplit
  refine ⟨after, hafter, ?_, fun st h => ?_⟩
  · rw [final_eq, horder, List.foldl_append, List.foldl_cons, before]
  · have hmem := ((foldl_other hbefore).1 st).mp h
    cases hmem

/-- What is recorded of a step. -/
theorem mem_final {n : StepName} (hruns : k.runs n = true) {st : StepStatus} :
    (n, st) ∈ k.final.stepResults ↔ (k.ran (k.before n) n).status = st := by
  obtain ⟨after, hafter, hfinal, hbefore⟩ := @final_split k n
  rw [hfinal, (foldl_other hafter).1, exec_stepResults hruns, List.mem_append,
    List.mem_singleton, or_iff_right (hbefore st), Prod.mk.injEq]
  exact ⟨fun h => h.2.symm, fun h => ⟨rfl, h.symm⟩⟩

/-- The output of a step that ends `ok` is stored. -/
theorem holds_final {n : StepName} (hruns : k.runs n = true)
    (hok : (k.ran (k.before n) n).status = .ok) :
    ∃ out, (k.ran (k.before n) n).result = some out ∧ k.Holds n out k.returned.1 := by
  obtain ⟨after, hafter, hfinal, -⟩ := @final_split k n
  obtain ⟨rs, out, hmake, hblank, hresult⟩ := Step.run_ok hok
  refine ⟨out, hresult, holds_finish.mpr ?_⟩
  rw [hfinal, (foldl_other hafter).2, exec_some hruns hresult, ChainState.record]
  exact holds_self hmake hblank

/-- **The law of a step**, and when it holds. -/
theorem retried_iff_answered (k : Chain) (n : StepName) (hruns : k.runs n = true) :
    k.Retried n ∧ k.Honest n ↔ k.Answered n := by
  rw [Answered, ← Step.retried_and_honest_iff]
  refine and_congr ⟨fun h m hm hrecovers => ?_, fun h m hm hrecovers => ?_⟩ ?_
  · exact (mem_final hruns).mp (h m hm hrecovers).1
  · have hok := h m hm hrecovers
    exact ⟨(mem_final hruns).mpr hok, holds_final hruns hok⟩
  · rw [Honest, mem_final hruns]
    exact Iff.rfl

end Chain

/-! ## One failure -/

/-- A chain that only cleans. -/
def cleaningChain (replies : Calls Str) : Chain where
  cfg := {
    retry := ⟨3, 90⟩
    chunks := ⟨50000, 25000, 500⟩
    unicode := ⟨id, fun _ => true⟩
    dumps := fun _ => []
    maxTermsPerCall := 200
    enabled := (· = .cleaning) }
  llm := ⟨fun _ => replies, fun raw => .answer (.str raw), fun _ _ => 0⟩
  base := "Bonjour.".toList
  glossary := []
  includeMetadata := true

theorem cleaning_of_answer : (cleaningChain fun _ => .answer "Bonjour.".toList).Retried .cleaning ∧
    (cleaningChain fun _ => .answer "Bonjour.".toList).Honest .cleaning := by
  refine (Chain.retried_iff_answered _ .cleaning rfl).mpr ⟨fun made rs _ hrs => ?_,
    fun _ _ _ => (by decide)⟩
  have hsections : ((cleaningChain fun _ => .answer "Bonjour.".toList).step
      ((cleaningChain fun _ => .answer "Bonjour.".toList).before .cleaning) .cleaning).sections =
        1 := by decide
  rw [hsections] at hrs
  cases hrs
  exact ⟨⟨_, List.mem_singleton_self _⟩, fun h => (by simp at h)⟩

/-- **One failure** of the model, and the step is over: it is `empty`, and the second call, which
would have been answered, is not made. -/
theorem one_failure :
    ¬ ∀ (k : Chain) (n : StepName), k.runs n = true → k.Retried n ∧ k.Honest n := by
  intro h
  have hempty : (cleaningChain fun i => if i = 0 then .error .transient
      else .answer "Bonjour.".toList).final.stepResults = [(.cleaning, .empty)] := by decide +kernel
  have hretried := (h (cleaningChain fun i => if i = 0 then .error .transient
    else .answer "Bonjour.".toList) .cleaning rfl).1 1 (by decide)
  have hok := (hretried ⟨by decide, fun i hi => if_pos (by omega),
    fun i hi _ => ⟨_, if_neg (by omega), by decide⟩⟩).1
  rw [hempty] at hok
  simp at hok

/-! ## The error of a chain -/

namespace Chain

variable {k : Chain}

/-- The chain is partial when a step is not `ok`. -/
def Told (c : ChainState) : Prop :=
  c.statusDelta = .partiallyCompleted ↔ ∃ r ∈ c.stepResults, r.2 ≠ .ok

theorem stored_statusDelta {n : StepName} {out : n.Output} {c : ChainState} :
    (k.stored n out c).statusDelta = c.statusDelta := by
  cases n <;> simp only [stored] <;> first | rfl | (split <;> rfl)

theorem Told.record {c : ChainState} (h : Told c) (n : StepName) (st : StepStatus) :
    Told (c.record n st) := by
  rw [Told] at h ⊢
  rw [ChainState.record]
  simp only [List.mem_append, List.mem_singleton, or_and_right, exists_or, exists_eq_left]
  split
  · rename_i hst
    rw [h, hst]
    simp
  · rename_i hst
    simp [hst]

theorem Told.exec {c : ChainState} (h : Told c) (n : StepName) : Told (k.exec c n) := by
  cases hruns : k.runs n with
  | false => rwa [exec_skip hruns]
  | true =>
      cases hresult : (k.ran c n).result with
      | none =>
          rw [exec_none hruns hresult]
          exact h.record n _
      | some out =>
          rw [exec_some hruns hresult]
          refine Told.record ?_ n _
          rwa [Told, stored_statusDelta, stored_stepResults]

theorem told_final : Told k.final := by
  rw [final_eq]
  have hrun : ∀ (names : List StepName) (c : ChainState), Told c → Told (names.foldl k.exec c) := by
    intro names
    induction names with
    | nil => exact fun _ h => h
    | cons n names ih => exact fun c h => ih (k.exec c n) (h.exec n)
  exact hrun order _ ⟨fun h => (by cases h), fun ⟨_, h, _⟩ => (by cases h)⟩

end Chain

theorem buildChainErrorMessage_ne_nil {stepResults : List (StepName × StepStatus)}
    (h : ∃ r ∈ stepResults, r.2 ≠ .ok) : buildChainErrorMessage stepResults ≠ [] := by
  obtain ⟨r, hr, hne⟩ := h
  rw [buildChainErrorMessage]
  simp only
  rw [if_neg (List.ne_nil_of_mem (List.mem_filter.mpr ⟨hr, by simpa using hne⟩))]
  exact List.append_ne_nil_of_left_ne_nil (List.append_ne_nil_of_left_ne_nil (by decide) _) _

theorem ChainState.finish_status {c : ChainState} : c.finish.2 = c.statusDelta := by
  rw [ChainState.finish]
  cases hstatus : c.statusDelta with
  | completed => rfl
  | partiallyCompleted =>
      dsimp only
      split <;> rfl

/-- **The error of a chain**: one that is partial says so, one that is complete clears it, and one
without a model leaves it as it is. -/
theorem runLlmChainForAudio_error (cfg : ChainConfig) (base : Str) (llm : Option Model)
    (glossary : List Str) (includeMetadata : Bool) :
    let r := runLlmChainForAudio cfg base llm glossary includeMetadata
    match llm with
    | none => r.2 = .completed ∧ r.1.lastError = none
    | some _ => match r.2 with
      | .completed => r.1.lastError = some none
      | .partiallyCompleted =>
          ∃ msg, msg ≠ [] ∧ r.1.lastError = some (some ("llm_chain_partial".toList, msg)) := by
  cases llm with
  | none => exact ⟨rfl, rfl⟩
  | some llm =>
      have htold := @Chain.told_final (Chain.mk cfg llm base glossary includeMetadata)
      dsimp only [runLlmChainForAudio]
      generalize (Chain.mk cfg llm base glossary includeMetadata).final = c at htold ⊢
      rw [ChainState.finish]
      cases hstatus : c.statusDelta with
      | completed => rfl
      | partiallyCompleted =>
          have hmsg := buildChainErrorMessage_ne_nil (htold.mp hstatus)
          simp only [if_neg hmsg]
          exact ⟨_, hmsg, rfl⟩

end MesReunions.Llm
