import MesReunions.Base.Float
import MesReunions.Base.Json
import MesReunions.Base.Ranking
import MesReunions.Base.TSys

/-!
# Preparations linked to audio files

`auto_link_audio_to_preparation` of `services/dmz-to-internal-bridge/app/puller.py`, and the part
of `_perform_pull` that writes its answer on the meeting of a pulled audio file.

* `scoreBriefForAudio` — five signals, each with a weight.
* `autoLinkAudioToPreparation` — the best of the candidates, where it is above the threshold and
  far from the next.
* `Linkable` — what the docstring promises of the answer.
* **`links_iff`** — it holds, and no preparation is linked twice, in the runs where no preparation
  that has a meeting already stands out by the other four signals.
* **`linked_twice`** — having a meeting costs a tenth of the score, and no more.
-/

namespace MesReunions.AutoLink

open TSys

universe u

/-! ## Rows -/

/-- A row of `preparations`. Times are in microseconds. -/
structure Preparation (υ : Type u) where
  id : Nat
  userSub : υ
  title : Option Str
  subject : Option Str
  content : Json
  driveFolderId : Option Str
  lastViewedAt : Option Int
  createdAt : Int
  trashed : Bool

/-- The table `preparations`. -/
structure Preparations (υ : Type u) where
  rows : List (Preparation υ)
  /-- `PRIMARY KEY (id)` -/
  nodup : (rows.map Preparation.id).Nodup

/-- A row of `meetings`. -/
structure Meeting (υ : Type u) where
  userSub : υ
  preparationId : Option Nat
  trashed : Bool
  deriving DecidableEq

structure World (υ : Type u) where
  preparations : Preparations υ
  meetings : List (Meeting υ)
  now : Int
  /-- The links that pulls have made, with their users; for the statements only. -/
  linked : List (υ × Nat)

variable {υ : Type u}

/-! ## `_score_brief_for_audio` -/

/-- `[a-z0-9éèêàâïôûç]` -/
def isTokenChar (c : Char) : Bool :=
  ('a' ≤ c && c ≤ 'z') || ('0' ≤ c && c ≤ '9') ||
    ['é', 'è', 'ê', 'à', 'â', 'ï', 'ô', 'û', 'ç'].contains c

/-- `_tokenize_fr(s)`: the runs of at least three such characters, as a set. -/
def tokenizeFr (lower : Str → Str) (s : Str) : List Str :=
  if s = [] then []
  else (((lower s).splitOnP fun c => !isTokenChar c).filter fun t => 3 ≤ t.length).dedup

/-- `len(a & b) / len(a | b)` -/
def similarity (a b : List Str) : PyFloat :=
  let union := (a ++ b).dedup
  if union = [] then .fin 0 else .ratio (a.filter fun t => b.contains t).length union.length

/-- `timedelta.total_seconds()` -/
def totalSeconds (delta : Int) : PyFloat := .ofRat ((delta : ℚ) / 10 ^ 6)

def proximity (createdAt audioUploadAt : Int) : PyFloat :=
  let deltaHours := (totalSeconds (audioUploadAt - createdAt)).abs.divRat 3600
  if deltaHours.le (.fin 24) then .fin 1
  else if PyFloat.le (.fin (24 * 14)) deltaHours then .fin 0
  else .sub (.fin 1) ((deltaHours.sub (.fin 24)).divRat (24 * 14 - 24))

/-- How many characters two texts have in common at their start. -/
def common : Str → Str → Nat
  | a :: s, b :: t => if a = b then common s t + 1 else 0
  | _, _ => 0

def driveColocation (lower : Str → Str) (driveFolderId : Option Str) (audioFilename : Str) :
    PyFloat :=
  let folder := driveFolderId.getD []
  if folder ≠ [] ∧ audioFilename ≠ [] ∧ 4 ≤ common (lower audioFilename) (lower folder) then
    .fin 1
  else .fin 0

def recentlyViewed (now : Int) : Option Int → PyFloat
  | some lv => if (totalSeconds (now - lv)).le (.fin (24 * 3600)) then .fin 1 else .fin 0
  | none => .fin 0

structure Breakdown where
  similarity : PyFloat
  temporal : PyFloat
  driveColocation : PyFloat
  engagement : PyFloat
  antiRebound : PyFloat

namespace Breakdown

/-- `0.30 * sim + 0.40 * prox + 0.10 * drive_loc + 0.10 * engagement` -/
def others (b : Breakdown) : PyFloat :=
  .add (.add (.add (.mul (.ofRat (30 / 100)) b.similarity) (.mul (.ofRat (40 / 100)) b.temporal))
    (.mul (.ofRat (10 / 100)) b.driveColocation)) (.mul (.ofRat (10 / 100)) b.engagement)

/-- `… + 0.10 * anti_rebound` -/
def score (b : Breakdown) : PyFloat := .add b.others (.mul (.ofRat (10 / 100)) b.antiRebound)

/-- Each signal, as `round(signal, 3)`. -/
def round (b : Breakdown) : Breakdown :=
  ⟨b.similarity.round3, b.temporal.round3, b.driveColocation.round3, b.engagement.round3,
    b.antiRebound.round3⟩

end Breakdown

/-- `a or b or ""` -/
def orEmpty (a b : Option Str) : Str :=
  match a.filter (· ≠ []) with
  | some s => s
  | none => b.getD []

/-- The text a preparation is compared by: `bsubj`. -/
def Preparation.text (b : Preparation υ) : Except PyError Str :=
  let bsubj := orEmpty b.subject b.title ++ [' ']
  match b.content with
  | .obj fields =>
      match Json.get? fields "objective_reformulated".toList with
      | some (.str s) => .ok (bsubj ++ s)
      | some v => if v.truthy then .error .typeError else .ok bsubj
      | none => .ok bsubj
  | _ => .ok bsubj

/-- What a pull compares the candidates with. -/
structure Audio where
  filename : Str
  uploadAt : Int

/-- The signals of a preparation with the text `bsubj`. -/
def Preparation.signals (lower : Str → Str) (now : Int) (audio : Audio) (alreadyLinked : List Nat)
    (b : Preparation υ) (bsubj : Str) : Breakdown where
  similarity := AutoLink.similarity (tokenizeFr lower audio.filename) (tokenizeFr lower bsubj)
  temporal := proximity b.createdAt audio.uploadAt
  driveColocation := AutoLink.driveColocation lower b.driveFolderId audio.filename
  engagement := recentlyViewed now b.lastViewedAt
  antiRebound := if alreadyLinked.contains b.id then .fin 0 else .fin 1

def scoreBriefForAudio (lower : Str → Str) (now : Int) (audio : Audio) (alreadyLinked : List Nat)
    (b : Preparation υ) : Except PyError (PyFloat × Breakdown) := do
  let bsubj ← b.text
  let signals := b.signals lower now audio alreadyLinked bsubj
  return (signals.score, signals.round)

/-! ## `auto_link_audio_to_preparation` -/

/-- An entry of `scored`. -/
structure Scored where
  preparationId : Nat
  score : PyFloat
  breakdown : Breakdown

/-- 30 days. -/
def candidateWindow : Int := 30 * 24 * 3600 * 10 ^ 6

variable [DecidableEq υ]

/-- The live preparations of a user that were created in the last 30 days. -/
def World.candidates (w : World υ) (userSub : υ) : List (Preparation υ) :=
  w.preparations.rows.filter fun b =>
    b.userSub = userSub && !b.trashed && decide (w.now - candidateWindow < b.createdAt)

/-- The preparations that the live meetings of a user refer to. -/
def World.linkedPrepIds (w : World υ) (userSub : υ) : List Nat :=
  (w.meetings.filter fun m => m.userSub = userSub && !m.trashed).filterMap Meeting.preparationId

def scoreThreshold : PyFloat := .ofRat (55 / 100)

def top2Gap : PyFloat := .ofRat (15 / 100)

/-- The choice among the sorted entries. -/
def chosen : List Scored → Option Nat
  | [] => none
  | top1 :: rest =>
      if top1.score.le scoreThreshold then none
      else
        match rest with
        | [] => some top1.preparationId
        | second :: _ =>
            if (top1.score.sub second.score).lt top2Gap then none else some top1.preparationId

def autoLinkAudioToPreparation (lower : Str → Str) (w : World υ) (userSub : υ) (audio : Audio) :
    Except PyError (Option Nat × List Scored) := do
  let scored ← (w.candidates userSub).mapM fun b => do
    let (score, breakdown) ← scoreBriefForAudio lower w.now audio (w.linkedPrepIds userSub) b
    return (⟨b.id, score, breakdown⟩ : Scored)
  let scored := scored.mergeSort fun x y => y.score.le x.score
  return (chosen scored, scored)

/-! ## Pulls -/

inductive Act (υ : Type u)
  /-- `_perform_pull` of an audio file of a user. -/
  | pull (userSub : υ) (audio : Audio)
  | wait (d : Nat)
  /-- The preparations are created, viewed, edited, trashed, restored and deleted. -/
  | prepare (table : Preparations υ)

/-- The preparation that a pull sets; an exception is logged, and sets none. -/
def World.autoLink (lower : Str → Str) (w : World υ) (userSub : υ) (audio : Audio) : Option Nat :=
  match autoLinkAudioToPreparation lower w userSub audio with
  | .ok (prepId, _) => prepId
  | .error _ => none

def step (lower : Str → Str) (w : World υ) : Act υ → Option (World υ)
  | .pull userSub audio =>
      let prepId := w.autoLink lower userSub audio
      some { w with
        meetings := ⟨userSub, prepId, false⟩ :: w.meetings
        linked := (prepId.map fun p => (userSub, p)).toList ++ w.linked }
  | .wait d => some { w with now := w.now + d }
  | .prepare table => some { w with preparations := table }

/-! ## Signals -/

/-- Every signal is a number from `0` to `1`. -/
structure Breakdown.Bounded (b : Breakdown) : Prop where
  similarity : b.similarity.Upto 1
  temporal : b.temporal.Upto 1
  driveColocation : b.driveColocation.Upto 1
  engagement : b.engagement.Upto 1
  antiRebound : b.antiRebound.Upto 1

theorem upto_zero : PyFloat.Upto 1 (.fin 0) := by
  simpa using PyFloat.upto_natCast (m := 0) (n := 1) (by norm_num) (by norm_num)

theorem upto_one : PyFloat.Upto 1 (.fin 1) := by
  simpa using PyFloat.upto_natCast (m := 1) (n := 1) (by norm_num) (by norm_num)

theorem upto_ite {c : Prop} [Decidable c] {x y : PyFloat} (hx : x.Upto 1) (hy : y.Upto 1) :
    (if c then x else y).Upto 1 := by
  split
  · exact hx
  · exact hy

theorem nodup_tokenizeFr (lower : Str → Str) (s : Str) : (tokenizeFr lower s).Nodup := by
  unfold tokenizeFr
  split
  · exact List.nodup_nil
  · exact List.nodup_dedup _

theorem upto_similarity {a b : List Str} (ha : a.Nodup) : (similarity a b).Upto 1 := by
  refine upto_ite upto_zero (PyFloat.upto_ratio ?_)
  have hsub : a ⊆ (a ++ b).dedup := fun t ht => List.mem_dedup.mpr (List.mem_append_left b ht)
  calc (a.filter fun t => b.contains t).length ≤ a.length := List.length_filter_le _ _
    _ ≤ (a ++ b).dedup.length := (List.subperm_of_subset ha hsub).length_le

/-- Between a day and two weeks, the proximity falls from `1` to `0`. -/
theorem upto_proximity (createdAt audioUploadAt : Int) :
    (proximity createdAt audioUploadAt).Upto 1 := by
  unfold proximity
  simp only
  generalize hdelta : (totalSeconds (audioUploadAt - createdAt)).abs.divRat 3600 = deltaHours
  split
  · exact upto_one
  · split
    · exact upto_zero
    · rename_i hday hweeks
      have hnumber : ∃ h : ℚ, deltaHours = .fin h := by
        cases deltaHours with
        | fin h => exact ⟨h, rfl⟩
        | inf n =>
            cases n with
            | true => exact absurd rfl hday
            | false => exact absurd rfl hweeks
        | nan =>
            -- Neither a quotient nor an absolute value of a number is a `nan`.
            exfalso
            unfold totalSeconds at hdelta
            cases hq : PyFloat.ofRat (((audioUploadAt - createdAt : Int) : ℚ) / 10 ^ 6) with
            | fin q =>
                rw [hq] at hdelta
                exact PyFloat.ofRat_ne_nan _ hdelta
            | inf n =>
                rw [hq] at hdelta
                cases hdelta
            | nan => exact PyFloat.ofRat_ne_nan _ hq
      obtain ⟨h, rfl⟩ := hnumber
      have hlow : (24 : ℚ) < h := not_le.mp fun hle => hday (decide_eq_true hle)
      have hhigh : h < 24 * 14 := not_le.mp fun hle => hweeks (decide_eq_true hle)
      obtain ⟨d, hd, -, hd0, hd1⟩ : PyFloat.Upto 312 ((PyFloat.fin h).sub (.fin 24)) :=
        PyFloat.upto_ofRat (by norm_num) (by linarith) (by push_cast; linarith)
      rw [hd]
      obtain ⟨e, he, -, he0, he1⟩ : PyFloat.Upto 1 ((PyFloat.fin d).divRat (24 * 14 - 24)) := by
        refine PyFloat.upto_ofRat (by norm_num) (div_nonneg hd0 (by norm_num)) ?_
        rw [div_le_iff₀ (by norm_num)]
        norm_num at hd1 ⊢
        exact hd1
      rw [he]
      rw [Nat.cast_one] at he1
      exact PyFloat.upto_ofRat (by norm_num) (by linarith) (by push_cast; linarith)

omit [DecidableEq υ] in
theorem bounded_signals (lower : Str → Str) (now : Int) (audio : Audio) (alreadyLinked : List Nat)
    (b : Preparation υ) (bsubj : Str) :
    (b.signals lower now audio alreadyLinked bsubj).Bounded where
  similarity := upto_similarity (nodup_tokenizeFr lower _)
  temporal := upto_proximity _ _
  driveColocation := upto_ite upto_one upto_zero
  engagement := by
    show (recentlyViewed now b.lastViewedAt).Upto 1
    cases b.lastViewedAt with
    | none => exact upto_zero
    | some lv => exact upto_ite upto_one upto_zero
  antiRebound := upto_ite upto_zero upto_one

theorem upto_hundredths {m : Nat} (h : m ≤ 100) : PyFloat.Upto 1 (.ofRat ((m : ℚ) / 100)) := by
  simpa [PyFloat.ratio] using PyFloat.upto_ratio h

theorem upto_tenth : PyFloat.Upto 1 (.ofRat (10 / 100)) := upto_hundredths (m := 10) (by norm_num)

theorem Breakdown.Bounded.others {b : Breakdown} (h : b.Bounded) : b.others.Upto 4 := by
  have h30 : PyFloat.Upto 1 (.ofRat (30 / 100)) := upto_hundredths (m := 30) (by norm_num)
  have h40 : PyFloat.Upto 1 (.ofRat (40 / 100)) := upto_hundredths (m := 40) (by norm_num)
  exact PyFloat.upto_add (by norm_num)
    (PyFloat.upto_add (by norm_num)
      (PyFloat.upto_add (by norm_num) (PyFloat.upto_mul h30 h.similarity)
        (PyFloat.upto_mul h40 h.temporal))
      (PyFloat.upto_mul upto_tenth h.driveColocation))
    (PyFloat.upto_mul upto_tenth h.engagement)

theorem Breakdown.Bounded.score {b : Breakdown} (h : b.Bounded) : b.score.Upto 5 :=
  PyFloat.upto_add (by norm_num) h.others (PyFloat.upto_mul upto_tenth h.antiRebound)

/-- Without the last signal, the score is that of the other four. -/
theorem Breakdown.Bounded.score_eq {b : Breakdown} (h : b.Bounded)
    (hanti : b.antiRebound = .fin 0) : b.score = b.others := by
  have hzero : PyFloat.mul (.ofRat (10 / 100)) (.fin 0) = .fin 0 := by
    obtain ⟨q, hq, -, -, -⟩ := upto_tenth
    rw [hq]
    show PyFloat.ofRat (q * 0) = .fin 0
    rw [mul_zero, PyFloat.ofRat_zero]
  rw [Breakdown.score, hanti, hzero]
  exact PyFloat.add_zero_of_upto (by norm_num) h.others

/-! ## Statements -/

/-- Nothing but a text is added to the text of the preparation. -/
def Preparation.Scorable (b : Preparation υ) : Prop := ∃ bsubj, b.text = .ok bsubj

/-- The text, where there is one. -/
def Preparation.bsubj (b : Preparation υ) : Str :=
  match b.text with
  | .ok bsubj => bsubj
  | .error _ => []

section Choice

variable (lower : Str → Str) (w : World υ) (userSub : υ) (audio : Audio)

/-- What a pull sees of a preparation. -/
def World.signalsOf (b : Preparation υ) : Breakdown :=
  b.signals lower w.now audio (w.linkedPrepIds userSub) b.bsubj

/-- **What the docstring promises** of a preparation that is linked to a pulled audio file: it is a
live one of the user and of the last 30 days, no live meeting of theirs has it, and its score is
above the threshold and far from that of every other one. -/
def World.Linkable (p : Nat) : Prop :=
  ∃ b ∈ w.preparations.rows, b.id = p ∧ b.userSub = userSub ∧ b.trashed = false ∧
    w.now - candidateWindow < b.createdAt ∧
    (∀ m ∈ w.meetings, m.userSub = userSub → m.trashed = false → m.preparationId ≠ some p) ∧
    ∃ score detail,
      scoreBriefForAudio lower w.now audio (w.linkedPrepIds userSub) b = .ok (score, detail) ∧
      score.le scoreThreshold = false ∧
      ∀ x ∈ w.candidates userSub, x.id ≠ p → ∀ other detail',
        scoreBriefForAudio lower w.now audio (w.linkedPrepIds userSub) x = .ok (other, detail') →
        (score.sub other).lt top2Gap = false

/-- The candidates can all be scored, and one that has a meeting already is, by the other four
signals alone, above the threshold and far from every other one. -/
def World.LinkedStandsOut : Prop :=
  (∀ b ∈ w.candidates userSub, b.Scorable) ∧
    ∃ b ∈ w.candidates userSub, b.id ∈ w.linkedPrepIds userSub ∧
      (w.signalsOf lower userSub audio b).others.le scoreThreshold = false ∧
      ∀ x ∈ w.candidates userSub, x.id ≠ b.id →
        ((w.signalsOf lower userSub audio b).others.sub
          (w.signalsOf lower userSub audio x).score).lt top2Gap = false

end Choice

/-- What a pull links is linkable. -/
def Links (lower : Str → Str) (w : World υ) : Act υ → World υ → Prop
  | .pull userSub audio, _ =>
      ∀ p, w.autoLink lower userSub audio = some p → w.Linkable lower userSub audio p
  | _, _ => True

/-- No preparation that has a meeting stands out. -/
def Clear (lower : Str → Str) (w : World υ) : Act υ → Prop
  | .pull userSub audio => ¬ w.LinkedStandsOut lower userSub audio
  | _ => True

/-! ## The choice -/

section Choice

variable {lower : Str → Str} {w : World υ} {userSub : υ} {audio : Audio}

theorem bounded_signalsOf (b : Preparation υ) : (w.signalsOf lower userSub audio b).Bounded :=
  bounded_signals ..

/-- The entry of a candidate that can be scored. -/
def entryOf (lower : Str → Str) (w : World υ) (userSub : υ) (audio : Audio) (b : Preparation υ) :
    Scored :=
  ⟨b.id, (w.signalsOf lower userSub audio b).score, (w.signalsOf lower userSub audio b).round⟩

theorem score_eq_ok {b : Preparation υ} (h : b.Scorable) :
    scoreBriefForAudio lower w.now audio (w.linkedPrepIds userSub) b =
      .ok ((w.signalsOf lower userSub audio b).score,
        (w.signalsOf lower userSub audio b).round) := by
  obtain ⟨bsubj, htext⟩ := h
  have hbsubj : b.bsubj = bsubj := by rw [Preparation.bsubj, htext]
  rw [scoreBriefForAudio, htext, World.signalsOf, hbsubj]
  rfl

theorem scorable_of_ok {b : Preparation υ} {r : PyFloat × Breakdown}
    (h : scoreBriefForAudio lower w.now audio (w.linkedPrepIds userSub) b = .ok r) :
    b.Scorable := by
  unfold scoreBriefForAudio at h
  cases htext : b.text with
  | ok bsubj => exact ⟨bsubj, htext⟩
  | error e =>
      rw [htext] at h
      cases h

/-- The loop over the candidates. -/
def scoreAll (lower : Str → Str) (w : World υ) (userSub : υ) (audio : Audio)
    (bs : List (Preparation υ)) : Except PyError (List Scored) :=
  bs.mapM fun b => do
    let (score, breakdown) ← scoreBriefForAudio lower w.now audio (w.linkedPrepIds userSub) b
    return (⟨b.id, score, breakdown⟩ : Scored)

theorem scoreAll_ok {bs : List (Preparation υ)} (h : ∀ b ∈ bs, b.Scorable) :
    scoreAll lower w userSub audio bs = .ok (bs.map (entryOf lower w userSub audio)) := by
  induction bs with
  | nil => rfl
  | cons b bs ih =>
      have hrest := ih fun x hx => h x (List.mem_cons_of_mem b hx)
      rw [scoreAll] at hrest ⊢
      rw [List.mapM_cons, score_eq_ok (h b List.mem_cons_self), hrest]
      rfl

theorem scorable_of_scoreAll {bs : List (Preparation υ)} {scored : List Scored}
    (h : scoreAll lower w userSub audio bs = .ok scored) : ∀ b ∈ bs, b.Scorable := by
  induction bs generalizing scored with
  | nil => exact fun b hb => absurd hb List.not_mem_nil
  | cons b bs ih =>
      rw [scoreAll, List.mapM_cons] at h
      cases hb : scoreBriefForAudio lower w.now audio (w.linkedPrepIds userSub) b with
      | error e =>
          rw [hb] at h
          cases h
      | ok r =>
          rw [hb] at h
          cases hrest : scoreAll lower w userSub audio bs with
          | error e =>
              rw [scoreAll] at hrest
              rw [hrest] at h
              cases h
          | ok rest =>
              intro x hx
              rcases List.mem_cons.mp hx with rfl | hx
              · exact scorable_of_ok hb
              · exact ih hrest x hx

/-- The number of a score. -/
def number : PyFloat → ℚ
  | .fin q => q
  | _ => 0

/-- A score is far from another. -/
def far (a b : ℚ) : Bool := !((PyFloat.fin a).sub (.fin b)).lt top2Gap

theorem far_iff {a b : ℚ} : far a b = true ↔ ((PyFloat.fin a).sub (.fin b)).lt top2Gap = false := by
  simp [far]

theorem lt_of_far {a b : ℚ} (h : far a b = true) : b < a := by
  by_contra hle
  have hgap : PyFloat.lt (.fin 0) top2Gap = true := by decide +kernel
  have hlt := PyFloat.lt_of_le_of_lt (PyFloat.sub_nonpos (not_lt.mp hle)) hgap
  rw [far_iff, hlt] at h
  cases h

theorem far_mono {a b c : ℚ} (h : far a b = true) (hc : c ≤ b) : far a c = true := by
  rw [far_iff] at h ⊢
  by_contra hlt
  rw [Bool.not_eq_false] at hlt
  rw [PyFloat.lt_of_le_of_lt (PyFloat.sub_le_sub hc) hlt] at h
  cases h

/-- What the candidates are ranked by. -/
def key (lower : Str → Str) (w : World υ) (userSub : υ) (audio : Audio) (b : Preparation υ) : ℚ :=
  number (w.signalsOf lower userSub audio b).score

theorem score_eq_key (b : Preparation υ) :
    (w.signalsOf lower userSub audio b).score = .fin (key lower w userSub audio b) := by
  have hscore : (w.signalsOf lower userSub audio b).score.Upto 5 := (bounded_signalsOf b).score
  obtain ⟨q, hq, -, -, -⟩ := hscore
  rw [key, hq, number]

theorem sorted_entries (bs : List (Preparation υ)) :
    (bs.map (entryOf lower w userSub audio)).mergeSort (fun x y => y.score.le x.score) =
      (Ranking.ranked (key lower w userSub audio) bs).map (entryOf lower w userSub audio) := by
  refine (List.map_mergeSort fun a _ b _ => ?_).symm
  show decide (_ ≤ _) = (w.signalsOf lower userSub audio b).score.le
    (w.signalsOf lower userSub audio a).score
  rw [score_eq_key, score_eq_key, PyFloat.le]

/-- The choice is the leader of the ranking, where it is above the threshold. -/
theorem chosen_map (bs : List (Preparation υ)) :
    chosen (bs.map (entryOf lower w userSub audio)) =
      ((Ranking.leader (key lower w userSub audio) far bs).filter fun b =>
        !(w.signalsOf lower userSub audio b).score.le scoreThreshold).map Preparation.id := by
  have hfilter : ∀ b : Preparation υ,
      (if (entryOf lower w userSub audio b).score.le scoreThreshold then none
        else some (entryOf lower w userSub audio b).preparationId) =
      ((some b).filter fun b =>
        !(w.signalsOf lower userSub audio b).score.le scoreThreshold).map Preparation.id := by
    intro b
    rw [entryOf, Option.filter]
    cases (w.signalsOf lower userSub audio b).score.le scoreThreshold <;> rfl
  match bs with
  | [] => rfl
  | [b] => exact hfilter b
  | b :: second :: rest =>
      have hfar : ((entryOf lower w userSub audio b).score.sub
          (entryOf lower w userSub audio second).score).lt top2Gap =
          !far (key lower w userSub audio b) (key lower w userSub audio second) := by
        rw [entryOf, entryOf, score_eq_key, score_eq_key, far, Bool.not_not]
      rw [List.map_cons, List.map_cons, chosen, Ranking.leader]
      rw [hfar]
      cases far (key lower w userSub audio b) (key lower w userSub audio second) with
      | false => simp
      | true => simpa using hfilter b

/-- **The answer.** Where all the candidates can be scored, it is the one that is above the
threshold and far from every other one. -/
theorem autoLink_iff (h : ∀ b ∈ w.candidates userSub, b.Scorable) {p : Nat} :
    w.autoLink lower userSub audio = some p ↔
      ∃ b ∈ w.candidates userSub, b.id = p ∧
        (w.signalsOf lower userSub audio b).score.le scoreThreshold = false ∧
        ∀ x ∈ w.candidates userSub, x.id ≠ p →
          ((w.signalsOf lower userSub audio b).score.sub
            (w.signalsOf lower userSub audio x).score).lt top2Gap = false := by
  have hlink : w.autoLink lower userSub audio =
      chosen ((Ranking.ranked (key lower w userSub audio) (w.candidates userSub)).map
        (entryOf lower w userSub audio)) := by
    have hall : scoreAll lower w userSub audio (w.candidates userSub) =
        .ok ((w.candidates userSub).map (entryOf lower w userSub audio)) := scoreAll_ok h
    rw [scoreAll] at hall
    rw [World.autoLink, autoLinkAudioToPreparation, hall, ← sorted_entries]
    rfl
  have hnodup : (w.candidates userSub).Nodup :=
    (List.Nodup.of_map _ w.preparations.nodup).filter _
  rw [hlink, chosen_map, Option.map_eq_some_iff]
  constructor
  · rintro ⟨b, hb, hid⟩
    obtain ⟨hleader, habove⟩ := Option.filter_eq_some_iff.mp hb
    obtain ⟨hmem, hleads⟩ := (Ranking.leader_ranked_iff lt_of_far far_mono hnodup).mp hleader
    refine ⟨b, hmem, hid, by simpa using habove, fun x hx hne => ?_⟩
    rw [score_eq_key, score_eq_key]
    exact far_iff.mp (hleads x hx fun heq => hne (heq ▸ hid))
  · rintro ⟨b, hmem, hid, habove, hapart⟩
    refine ⟨b, Option.filter_eq_some_iff.mpr ⟨?_, by simpa using habove⟩, hid⟩
    refine (Ranking.leader_ranked_iff lt_of_far far_mono hnodup).mpr ⟨hmem, fun x hx hne => ?_⟩
    have hids : x.id ≠ p := by
      intro heq
      refine hne (List.inj_on_of_nodup_map w.preparations.nodup ?_ ?_ (heq.trans hid.symm))
      · exact (List.mem_filter.mp hx).1
      · exact (List.mem_filter.mp hmem).1
    have hfar := hapart x hx hids
    rw [score_eq_key, score_eq_key] at hfar
    exact far_iff.mpr hfar

theorem autoLink_of_not_scorable (h : ¬ ∀ b ∈ w.candidates userSub, b.Scorable) :
    w.autoLink lower userSub audio = none := by
  cases hall : scoreAll lower w userSub audio (w.candidates userSub) with
  | ok scored => exact absurd (scorable_of_scoreAll hall) h
  | error e =>
      rw [scoreAll] at hall
      rw [World.autoLink, autoLinkAudioToPreparation, hall]
      rfl

theorem mem_linkedPrepIds {p : Nat} : p ∈ w.linkedPrepIds userSub ↔
    ∃ m ∈ w.meetings, m.userSub = userSub ∧ m.trashed = false ∧ m.preparationId = some p := by
  unfold World.linkedPrepIds
  constructor
  · intro h
    obtain ⟨m, hm, hp⟩ := List.mem_filterMap.mp h
    obtain ⟨hmem, hlive⟩ := List.mem_filter.mp hm
    obtain ⟨huser, htrashed⟩ := Bool.and_eq_true_iff.mp hlive
    exact ⟨m, hmem, of_decide_eq_true huser, by simpa using htrashed, hp⟩
  · rintro ⟨m, hmem, huser, htrashed, hp⟩
    refine List.mem_filterMap.mpr ⟨m, List.mem_filter.mpr ⟨hmem, ?_⟩, hp⟩
    rw [htrashed]
    exact Bool.and_eq_true_iff.mpr ⟨decide_eq_true huser, rfl⟩

/-- A preparation that has a meeting is weighed by the other four signals. -/
theorem score_of_linked {b : Preparation υ} (h : b.id ∈ w.linkedPrepIds userSub) :
    (w.signalsOf lower userSub audio b).score = (w.signalsOf lower userSub audio b).others :=
  (bounded_signalsOf b).score_eq (if_pos (List.contains_iff_mem.mpr h))

/-- **One pull.** What it links is linkable, unless a preparation that has a meeting stands out. -/
theorem links_pull_iff :
    (∀ p, w.autoLink lower userSub audio = some p → w.Linkable lower userSub audio p) ↔
      ¬ w.LinkedStandsOut lower userSub audio := by
  constructor
  · rintro hlinks ⟨hscorable, b, hmem, hlinked, habove, hapart⟩
    rw [← score_of_linked hlinked] at habove hapart
    have hauto : w.autoLink lower userSub audio = some b.id :=
      (autoLink_iff hscorable).mpr ⟨b, hmem, rfl, habove, hapart⟩
    obtain ⟨-, -, -, -, -, -, hfree, -⟩ := hlinks b.id hauto
    obtain ⟨m, hm, huser, htrashed, hp⟩ := mem_linkedPrepIds.mp hlinked
    exact hfree m hm huser htrashed hp
  · intro hclear p hauto
    by_cases hscorable : ∀ b ∈ w.candidates userSub, b.Scorable
    · obtain ⟨b, hmem, rfl, habove, hapart⟩ := (autoLink_iff hscorable).mp hauto
      obtain ⟨hrow, hcand⟩ := List.mem_filter.mp hmem
      obtain ⟨hlive, hcreated⟩ := Bool.and_eq_true_iff.mp hcand
      obtain ⟨huser, htrashed⟩ := Bool.and_eq_true_iff.mp hlive
      refine ⟨b, hrow, rfl, of_decide_eq_true huser, by simpa using htrashed,
        of_decide_eq_true hcreated, ?_, _, _, score_eq_ok (hscorable b hmem), habove, ?_⟩
      · intro m hm hmuser hmtrashed hp
        have hlinked := mem_linkedPrepIds.mpr ⟨m, hm, hmuser, hmtrashed, hp⟩
        rw [score_of_linked hlinked] at habove hapart
        exact hclear ⟨hscorable, b, hmem, hlinked, habove, hapart⟩
      · intro x hx hne other detail hok
        rw [score_eq_ok (hscorable x hx)] at hok
        cases hok
        exact hapart x hx hne
    · rw [autoLink_of_not_scorable hscorable] at hauto
      cases hauto

end Choice

/-! ## Runs -/

/-- The pulls link no preparation of a user twice, and their links are there. -/
structure Once (w : World υ) : Prop where
  nodup : w.linked.Nodup
  kept : ∀ l ∈ w.linked, l.2 ∈ w.linkedPrepIds l.1

theorem once_step {lower : Str → Str} {w w' : World υ} {a : Act υ} (h : Once w)
    (hclear : Clear lower w a) (hs : step lower w a = some w') : Once w' := by
  cases a with
  | pull userSub audio =>
      cases hs
      have hlinks := links_pull_iff.mpr hclear
      cases hauto : w.autoLink lower userSub audio with
      | none =>
          refine ⟨h.nodup, fun l hl => ?_⟩
          obtain ⟨m, hm, hrest⟩ := mem_linkedPrepIds.mp (h.kept l hl)
          exact mem_linkedPrepIds.mpr ⟨m, List.mem_cons_of_mem _ hm, hrest⟩
      | some p =>
          obtain ⟨-, -, -, -, -, -, hfree, -⟩ := hlinks p hauto
          constructor
          · refine List.nodup_cons.mpr ⟨fun hl => ?_, h.nodup⟩
            obtain ⟨m, hm, huser, htrashed, hp⟩ := mem_linkedPrepIds.mp (h.kept _ hl)
            exact hfree m hm huser htrashed hp
          · intro l hl
            rcases List.mem_cons.mp hl with rfl | hl
            · exact mem_linkedPrepIds.mpr ⟨_, List.mem_cons_self, rfl, rfl, rfl⟩
            · obtain ⟨m, hm, hrest⟩ := mem_linkedPrepIds.mp (h.kept l hl)
              exact mem_linkedPrepIds.mpr ⟨m, List.mem_cons_of_mem _ hm, hrest⟩
  | wait d =>
      cases hs
      exact ⟨h.nodup, h.kept⟩
  | prepare table =>
      cases hs
      exact ⟨h.nodup, h.kept⟩

/-- **Where a link is not made twice.** From any state, the pulls link what the docstring promises,
and no preparation twice, exactly in the runs where no preparation that has a meeting stands out by
the other four signals. -/
theorem links_iff {lower : Str → Str} {w t : World υ} {acts : List (Act υ)}
    (hstart : w.linked = []) (hrun : run (step lower) w acts = some t) :
    Along (step lower) (Links lower) w acts ∧ t.linked.Nodup ↔
      Guarded (step lower) (Clear lower) w acts := by
  have hexact : Along (step lower) (Links lower) w acts ↔
      Guarded (step lower) (Clear lower) w acts := by
    refine along_iff_guarded (step lower) (fun _ => True) ?_ (fun _ _ _ _ _ _ => trivial) trivial
      hrun
    intro w a w' _ _
    cases a with
    | pull userSub audio => exact links_pull_iff
    | wait d => exact Iff.rfl
    | prepare table => exact Iff.rfl
  refine ⟨fun h => hexact.mp h.1, fun h => ⟨hexact.mpr h, ?_⟩⟩
  have honce : Once w := by
    refine ⟨by rw [hstart]; exact List.nodup_nil, fun l hl => ?_⟩
    rw [hstart] at hl
    exact absurd hl List.not_mem_nil
  exact (inv_of_guarded (step lower) Once (fun _ _ _ => once_step) honce h hrun).nodup

/-! ## A preparation and two audio files -/

/-- A preparation of the user `0`, who opens it and pulls audio files at once. -/
def projectMeeting : Preparation Nat where
  id := 7
  userSub := 0
  title := some ['p', 'o', 'i', 'n', 't', ' ', 'p', 'r', 'o', 'j', 'e', 't']
  subject := none
  content := .null
  driveFolderId := none
  lastViewedAt := none
  createdAt := 0
  trashed := false

def projectWorld : World Nat where
  preparations := ⟨[projectMeeting], List.nodup_singleton _⟩
  meetings := []
  now := 0
  linked := []

/-- `point projet.m4a` -/
def projectAudio : Audio where
  filename := ['p', 'o', 'i', 'n', 't', ' ', 'p', 'r', 'o', 'j', 'e', 't', '.', 'm', '4', 'a']
  uploadAt := 0

/-- `autre.m4a` -/
def otherAudio : Audio := ⟨['a', 'u', 't', 'r', 'e', '.', 'm', '4', 'a'], 0⟩

/-- The first pull links the preparation. -/
theorem pull_projectAudio : step id projectWorld (.pull 0 projectAudio) =
    some ⟨projectWorld.preparations, [⟨0, some 7, false⟩], 0, [(0, 7)]⟩ := by
  have hlink : projectWorld.autoLink id 0 projectAudio = some 7 := by decide +kernel
  rw [step, hlink]
  rfl

theorem otherAudio_refused : ∃ t : World Nat,
    run (step id) projectWorld [.pull 0 projectAudio, .pull 0 otherAudio] = some t ∧
      t.linked = [(0, 7)] ∧
      Along (step id) (Links id) projectWorld [.pull 0 projectAudio, .pull 0 otherAudio] ∧
      t.linked.Nodup := by
  obtain ⟨w, hs, hw⟩ : ∃ w : World Nat,
      step id projectWorld (.pull 0 projectAudio) = some w ∧
        w = ⟨projectWorld.preparations, [⟨0, some 7, false⟩], 0, [(0, 7)]⟩ :=
    ⟨_, pull_projectAudio, rfl⟩
  have hsecond : w.autoLink id 0 otherAudio = none := by
    rw [hw]
    decide +kernel
  obtain ⟨t, hs', ht⟩ : ∃ t : World Nat, step id w (.pull 0 otherAudio) = some t ∧
      t.linked = [(0, 7)] := by
    refine ⟨_, rfl, ?_⟩
    rw [hsecond, hw]
    rfl
  have hrun : run (step id) projectWorld [.pull 0 projectAudio, .pull 0 otherAudio] = some t := by
    simp only [run, hs, hs']
  refine ⟨t, hrun, ht, (links_iff rfl hrun).mpr ?_⟩
  refine guarded_cons (step id) ?_ hs (guarded_cons (step id) ?_ hs' trivial)
  · rintro ⟨-, b, -, hlinked, -⟩
    exact absurd hlinked List.not_mem_nil
  · -- The only candidate is not above the threshold by the names of the files.
    rintro ⟨-, b, hb, -, habove, -⟩
    rw [hw] at hb habove
    obtain rfl : b = projectMeeting := List.mem_singleton.mp (List.mem_filter.mp hb).1
    exact absurd habove (by decide +kernel)

/-- **A preparation is linked to two meetings**: the second file is the first one again. -/
theorem linked_twice : ¬ ∀ (w t : World Nat) acts, w.linked = [] →
    run (step id) w acts = some t →
      Along (step id) (Links id) w acts ∧ t.linked.Nodup := by
  intro hclaim
  obtain ⟨w, hs, hw⟩ : ∃ w : World Nat,
      step id projectWorld (.pull 0 projectAudio) = some w ∧
        w = ⟨projectWorld.preparations, [⟨0, some 7, false⟩], 0, [(0, 7)]⟩ :=
    ⟨_, pull_projectAudio, rfl⟩
  have hsecond : w.autoLink id 0 projectAudio = some 7 := by
    rw [hw]
    decide +kernel
  obtain ⟨t, hs', ht⟩ : ∃ t : World Nat, step id w (.pull 0 projectAudio) = some t ∧
      t.linked = [(0, 7), (0, 7)] := by
    refine ⟨_, rfl, ?_⟩
    rw [hsecond, hw]
    rfl
  have hrun : run (step id) projectWorld [.pull 0 projectAudio, .pull 0 projectAudio] =
      some t := by
    simp only [run, hs, hs']
  obtain ⟨-, hnodup⟩ := hclaim projectWorld t _ rfl hrun
  rw [ht] at hnodup
  exact absurd hnodup (by decide)

end MesReunions.AutoLink
