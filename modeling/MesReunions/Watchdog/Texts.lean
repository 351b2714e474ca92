import MesReunions.Watchdog.Frame

/-!
# Pipelines and the texts they leave

The system of `Watchdog.System` with the columns that hold a transcript, and the threads that run
the chain of LLM steps on one: those of `reprocess_audio`, of `materialize_external_source` and of
the MCR importer. Their processes may die.

* `Texts.reset` — the reset of a pipeline writes `NULL` over what it has loaded.
* **`keptStep`** — one step of the two together.
* `Kept.Bare` — a row without a transcript, a chain or a pipeline.
-/

namespace MesReunions.Watchdog

/-- The columns of a transcript. -/
structure Texts where
  transcriptionText : Option String
  transcriptionWordsJson : Option String
  diarizationJson : Option String
  speakerTaggedText : Option String
  deriving DecidableEq

namespace Texts

def empty : Texts := ⟨none, none, none, none⟩

/-- `uaf.transcription_text or uaf.speaker_tagged_text` -/
def hasTranscript (t : Texts) : Bool :=
  t.transcriptionText.any (· != "") || t.speakerTaggedText.any (· != "")

/-- `uaf.transcription_text = None`, … : the columns that were loaded with a value. -/
def reset (loaded current : Texts) : Texts where
  transcriptionText := written loaded.transcriptionText none current.transcriptionText
  transcriptionWordsJson :=
    written loaded.transcriptionWordsJson none current.transcriptionWordsJson
  diarizationJson := written loaded.diarizationJson none current.diarizationJson
  speakerTaggedText := written loaded.speakerTaggedText none current.speakerTaggedText

/-- The `updates` of a transcription: without a diarization they leave its two columns alone. -/
def transcribed (given current : Texts) : Texts where
  transcriptionText := given.transcriptionText
  transcriptionWordsJson := given.transcriptionWordsJson
  diarizationJson := given.diarizationJson.or current.diarizationJson
  speakerTaggedText := given.speakerTaggedText.or current.speakerTaggedText

end Texts

/-- The pipeline got a transcript. -/
def End.transcribes : End → Bool
  | .completed | .partially | .chainPartial _ | .unassisted _ => true
  | _ => false

structure Kept where
  world : World
  texts : Nat → Texts
  /-- What each run of `scan_and_resume` has loaded. -/
  loaded : Nat → Texts
  /-- What each request has loaded. -/
  asked : Nat → Texts
  /-- How many chains of LLM steps run on each row, outside of a pipeline. -/
  chains : Nat → Nat

def Kept.start : Kept := ⟨.start, fun _ => .empty, fun _ => .empty, fun _ => .empty, fun _ => 0⟩

inductive Move where
  /-- `given` is the transcript that is received or edited. -/
  | act (act : Act) (given : Texts)
  /-- The process of a chain dies. -/
  | lost (a : Nat)

/-- The row whose texts are reset. -/
def World.clears (s : World) : Act → Option Nat
  | .commit c probe true =>
      match (s.calls c).phase with
      | .loaded a .kevent loaded =>
          if resolve .kevent loaded probe = .reset then some a else none
      | _ => none
  | .answer q =>
      match s.requests q with
      | some ⟨.fullReprocess, a, _, false⟩ => some a
      | _ => none
  | _ => none

/-- The row that gets a transcript, and its texts then. -/
def Kept.stores (s : Kept) (given : Texts) : Act → Option (Nat × Texts)
  | .create a .materialize _ _ => some (a, given)
  | .create a _ _ _ => some (a, .empty)
  | .finish p e =>
      (s.world.pipes p).bind fun pipe =>
        if e.transcribes then some (pipe.audio, given.transcribed (s.texts pipe.audio)) else none
  | .mcr a .transcript =>
      some (a, { s.texts a with transcriptionText := given.transcriptionText })
  | .edit a => some (a, given)
  | _ => none

/-- The row on which a chain of LLM steps is started. -/
def World.chains (s : World) : Act → Option Nat
  | .create a .materialize _ _ => some a
  | .answer q =>
      match s.requests q with
      | some ⟨.reprocess, a, _, false⟩ => some a
      | _ => none
  | .mcr a .transcript => some a
  | _ => none

/-- The texts that a reset starts from. -/
def Kept.before (s : Kept) : Act → Texts
  | .commit c _ _ => s.loaded c
  | .answer q => s.asked q
  | _ => .empty

def Kept.nextTexts (s : Kept) (act : Act) (given : Texts) : Nat → Texts :=
  match s.world.clears act with
  | some a => Function.update s.texts a ((s.before act).reset (s.texts a))
  | none =>
      match s.stores given act with
      | some (a, t) => Function.update s.texts a t
      | none => s.texts

def Kept.nextLoaded (s : Kept) : Act → Nat → Texts
  | .load c =>
      match (s.world.calls c).phase with
      | .routed a _ _ => Function.update s.loaded c (s.texts a)
      | _ => s.loaded
  | _ => s.loaded

def Kept.nextAsked (s : Kept) : Act → Nat → Texts
  | .ask q _ a _ => Function.update s.asked q (s.texts a)
  | _ => s.asked

def Kept.nextChains (s : Kept) (act : Act) : Nat → Nat :=
  match act with
  | .chain a _ => Function.update s.chains a (s.chains a - 1)
  | _ =>
      match s.world.chains act with
      | some a => Function.update s.chains a (s.chains a + 1)
      | none => s.chains

/-- A chain that ends has run, and `reprocess_audio` needs a transcript. -/
def Kept.allows (s : Kept) : Act → Bool
  | .chain a _ => decide (0 < s.chains a)
  | .ask _ .reprocess a _ => (s.texts a).hasTranscript
  | _ => true

def keptStep (cfg : Config) (s : Kept) : Move → Option Kept
  | .lost a =>
      if 0 < s.chains a then
        some { s with chains := Function.update s.chains a (s.chains a - 1) }
      else none
  | .act act given =>
      if s.allows act then
        (step cfg s.world act).map fun w =>
          ⟨w, s.nextTexts act given, s.nextLoaded act, s.nextAsked act, s.nextChains act⟩
      else none

variable {cfg : Config} {s s' : Kept} {act : Act} {given : Texts} {a : Nat}

theorem keptStep_act (hs : keptStep cfg s (.act act given) = some s') :
    step cfg s.world act = some s'.world ∧ s'.texts = s.nextTexts act given ∧
      s'.chains = s.nextChains act := by
  simp only [keptStep] at hs
  split at hs
  · obtain ⟨w, hw, rfl⟩ := Option.map_eq_some_iff.mp hs
    exact ⟨hw, rfl, rfl⟩
  · cases hs

theorem keptStep_lost (hs : keptStep cfg s (.lost a) = some s') :
    0 < s.chains a ∧
      s' = { s with chains := Function.update s.chains a (s.chains a - 1) } := by
  simp only [keptStep] at hs
  split at hs
  · rename_i hpos
    cases hs
    exact ⟨hpos, rfl⟩
  · cases hs

/-! ## Rows with nothing to lose -/

/-- Row `a` has no transcript, no chain runs on it and no pipeline. -/
structure Kept.Bare (s : Kept) (a : Nat) : Prop where
  texts : (s.texts a).hasTranscript = false
  chains : s.chains a = 0
  pipes : ∀ p pipe, s.world.pipes p = some pipe → pipe.audio ≠ a

theorem hasTranscript_empty : Texts.empty.hasTranscript = false := rfl

/-- A reset adds no transcript. -/
theorem hasTranscript_reset {loaded current : Texts} (h : current.hasTranscript = false) :
    (loaded.reset current).hasTranscript = false := by
  simp only [Texts.hasTranscript, Bool.or_eq_false_iff] at h ⊢
  constructor
  · rcases written_eq loaded.transcriptionText none current.transcriptionText with hw | hw
    · simp only [Texts.reset, hw]
      rfl
    · simp only [Texts.reset, hw]
      exact h.1
  · rcases written_eq loaded.speakerTaggedText none current.speakerTaggedText with hw | hw
    · simp only [Texts.reset, hw]
      rfl
    · simp only [Texts.reset, hw]
      exact h.2

theorem nextTexts_of_ne (hclears : s.world.clears act ≠ some a)
    (hstores : ∀ t, s.stores given act ≠ some (a, t)) : s.nextTexts act given a = s.texts a := by
  unfold Kept.nextTexts
  cases hc : s.world.clears act with
  | some b =>
      have hne : a ≠ b := fun h => hclears (by rw [hc, h])
      exact Function.update_of_ne hne ..
  | none =>
      cases hst : s.stores given act with
      | some stored =>
          obtain ⟨b, t⟩ := stored
          have hne : a ≠ b := fun h => hstores t (by rw [hst, h])
          exact Function.update_of_ne hne ..
      | none => rfl

end MesReunions.Watchdog
