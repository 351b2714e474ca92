import MesReunions.Base.WordChars
import MesReunions.Formats.Markdown

/-!
# Plain text

`text_to_plain_string` of `mesreunions-web/app/transcript_formats.py`: the marks of a block and
those that `_INLINE_RE` finds in its text are taken out.

* `marked` — the characters of a text, and whether the expression takes them.
* `words_blockOf` — the marks of a block are in no word.
* **`plain_words_iff`** — the word characters stay the same exactly when, on each line, every gap
  between two letters is even.
* **`label_mangled`** — two anonymous speakers named on one line.
-/

namespace MesReunions.Formats

open Str Scan

/-! ## Inline marks -/

/-- What `_INLINE_RE` matches: the mark on both sides, the text, and whether the text is bold. -/
structure Inline where
  mark : Str
  text : Str
  bold : Bool

/-- One alternative of the expression. -/
def spanRe (mark : Str) (stop : Char) (s : Str) : Option Str := do
  let s ← lit mark s
  let (text, s) ← run1 (· != stop) s
  let _ ← lit mark s
  some text

/-- `_INLINE_RE`, at one place. -/
def inlineRe (s : Str) : Option Inline :=
  match spanRe ['*', '*'] '*' s with
  | some text => some ⟨['*', '*'], text, true⟩
  | none => match spanRe ['*'] '*' s with
    | some text => some ⟨['*'], text, false⟩
    | none => (spanRe ['_'] '_' s).map fun text => ⟨['_'], text, false⟩

def Inline.length (m : Inline) : Nat := m.mark.length + m.text.length + m.mark.length

/-- A run of text. -/
structure Run where
  text : Str
  bold : Bool
  italic : Bool
  deriving DecidableEq

/-- The text up to a mark, if there is any. -/
def plainRun (pending : Str) : List Run := if pending = [] then [] else [⟨pending, false, false⟩]

/-- `_parse_inline_runs`, behind a text without marks; the next `skip` characters belong to a
match. -/
def inlineRuns : (pending : Str) → (skip : Nat) → Str → List Run
  | pending, _, [] => plainRun pending
  | pending, skip + 1, _ :: s => inlineRuns pending skip s
  | pending, 0, c :: s =>
      match inlineRe (c :: s) with
      | some m => plainRun pending ++ ⟨m.text, m.bold, !m.bold⟩ :: inlineRuns [] (m.length - 1) s
      | none => inlineRuns (pending ++ [c]) 0 s

/-- `"".join(seg for seg, _b, _i in _parse_inline_runs(content))` -/
def clean (content : Str) : Str := (inlineRuns [] 0 content).flatMap Run.text

/-! ## The function -/

/-- One turn of the loop of `text_to_plain_string`. -/
def emitPlain (out : List Str) (b : Block) : List Str :=
  match b.kind with
  | .blank => blankBefore out
  | .heading => blankBefore out ++
      [clean b.content, List.replicate (min 40 (max 8 (clean b.content).length)) '─']
  | .bullet => out ++ [' ' :: ' ' :: '•' :: ' ' :: clean b.content]
  | .blockquote => out ++ [' ' :: ' ' :: clean b.content]
  | .speaker => blankBefore out ++ [clean b.content]
  | .para => out ++ [clean b.content]

/-- `text_to_plain_string(text)` -/
def textToPlainString (text : Str) : Str := finish ((iterBlocks text).foldl emitPlain [])

/-! ## What the expression takes -/

def Inline.marked (m : Inline) : Marked :=
  m.mark.map (·, false) ++ m.text.map (·, true) ++ m.mark.map (·, false)

/-- The characters of a text, and whether they are kept. -/
def markedFrom : (skip : Nat) → Str → Marked
  | _, [] => []
  | skip + 1, _ :: s => markedFrom skip s
  | 0, c :: s =>
      match inlineRe (c :: s) with
      | some m => m.marked ++ markedFrom (m.length - 1) s
      | none => (c, true) :: markedFrom 0 s

def marked (content : Str) : Marked := markedFrom 0 content

theorem spanRe_eq_some {mark s text : Str} {stop : Char} (h : spanRe mark stop s = some text) :
    ∃ rest, s = mark ++ text ++ mark ++ rest := by
  simp only [spanRe, Option.bind_eq_bind, Option.bind_eq_some_iff] at h
  obtain ⟨s₁, h₁, ⟨x, s₂⟩, h₂, s₃, h₃, h₄⟩ := h
  obtain rfl := Option.some.inj h₄
  have hs := lit_eq_some.mp h₁
  have hs₁ := (run1_eq_some h₂).2.2
  have hs₂ : s₂ = mark ++ s₃ := lit_eq_some.mp h₃
  refine ⟨s₃, ?_⟩
  rw [hs, hs₁, hs₂]
  simp only [List.append_assoc]

/-- A match is a text between two marks. -/
theorem inlineRe_eq_some {s : Str} {m : Inline} (h : inlineRe s = some m) :
    (∃ rest, s = m.mark ++ m.text ++ m.mark ++ rest) ∧ m.mark ∈ [['*', '*'], ['*'], ['_']] := by
  rw [inlineRe] at h
  split at h
  · rename_i hs
    obtain rfl := Option.some.inj h
    exact ⟨spanRe_eq_some hs, by simp⟩
  split at h
  · rename_i hs
    obtain rfl := Option.some.inj h
    exact ⟨spanRe_eq_some hs, by simp⟩
  · obtain ⟨text, hs, rfl⟩ := Option.map_eq_some_iff.mp h
    exact ⟨spanRe_eq_some hs, by simp⟩

/-- What comes behind a match. -/
theorem inlineRe_split {c : Char} {s : Str} {m : Inline} (h : inlineRe (c :: s) = some m) :
    c :: s = m.mark ++ m.text ++ m.mark ++ s.drop (m.length - 1) := by
  obtain ⟨⟨rest, hrest⟩, hmark⟩ := inlineRe_eq_some h
  have hpos : 0 < m.length := by
    have : 0 < m.mark.length := List.length_pos_of_ne_nil (by rintro hnil; simp [hnil] at hmark)
    rw [Inline.length]
    omega
  have hdrop : (c :: s).drop m.length = rest := by
    rw [hrest]
    exact List.drop_left' (by simp only [Inline.length, List.length_append])
  obtain ⟨n, hn⟩ := Nat.exists_eq_succ_of_ne_zero (Nat.pos_iff_ne_zero.mp hpos)
  rw [hn, List.drop_succ_cons] at hdrop
  rw [hn, Nat.succ_sub_one, hdrop]
  exact hrest

theorem text_append (m m' : Marked) : Marked.text (m ++ m') = m.text ++ m'.text :=
  List.map_append

theorem kept_append (m m' : Marked) : Marked.kept (m ++ m') = m.kept ++ m'.kept := by
  simp [Marked.kept]

theorem text_inline (m : Inline) : m.marked.text = m.mark ++ m.text ++ m.mark := by
  simp [Inline.marked, Marked.text, Function.comp_def]

theorem kept_inline (m : Inline) : m.marked.kept = m.text := by
  simp [Inline.marked, Marked.kept, List.filter_map, Function.comp_def]

/-- Nothing is lost. -/
theorem text_markedFrom (skip : Nat) (s : Str) :
    Marked.text (markedFrom skip s) = s.drop skip := by
  fun_induction markedFrom skip s with
  | case1 => simp [Marked.text]
  | case2 skip c s ih => exact ih
  | case3 c s m hm ih => rw [text_append, ih, text_inline, ← inlineRe_split hm, List.drop_zero]
  | case4 c s hm ih => exact congrArg (c :: ·) ih

/-- The runs are what is kept. -/
theorem flatMap_inlineRuns (pending : Str) (skip : Nat) (s : Str) :
    (inlineRuns pending skip s).flatMap Run.text =
      pending ++ Marked.kept (markedFrom skip s) := by
  have hplain : ∀ p : Str, (plainRun p).flatMap Run.text = p := by
    intro p
    rw [plainRun]
    split
    · simp_all
    · simp
  induction s generalizing pending skip with
  | nil => simp [inlineRuns, markedFrom, hplain, Marked.kept]
  | cons c s ih =>
      cases skip with
      | succ skip => exact ih pending skip
      | zero =>
          rw [inlineRuns, markedFrom]
          cases hm : inlineRe (c :: s) with
          | none =>
              simp only [ih, List.append_assoc]
              rfl
          | some m =>
              simp only [List.flatMap_append, List.flatMap_cons, hplain, ih, kept_append,
                kept_inline, List.nil_append]

theorem clean_eq (content : Str) : clean content = (marked content).kept := by
  rw [clean, flatMap_inlineRuns]
  rfl

/-! ## The marks of a block -/

/-- The marks are in no word. -/
structure Alphabet extends Letters where
  mark : ∀ c ∈ ['#', '*', '>', '-', '•', '─'], isalnum c = false

variable {t : Alphabet}

theorem Alphabet.not_isalnum (t : Alphabet) {c : Char}
    (h : c ∈ ['_', '#', '*', '>', '-', '•', '─']) : t.isalnum c = false := by
  rcases List.mem_cons.mp h with rfl | h
  · exact t.underscore
  · exact t.mark c h

/-- Letters are never taken. -/
theorem kept_of_isalnum (s : Str) (skip : Nat) :
    ∀ x ∈ markedFrom skip s, t.isalnum x.1 = true → x.2 = true := by
  fun_induction markedFrom skip s with
  | case1 => simp
  | case2 skip c s ih => exact ih
  | case3 c s m hm ih =>
      intro x hx halnum
      rcases List.mem_append.mp hx with hx | hx
      · have hmark : ∀ d ∈ m.mark, t.isalnum d = false := by
          intro d hd
          apply t.not_isalnum
          have := (inlineRe_eq_some hm).2
          simp only [List.mem_cons, List.not_mem_nil, or_false] at this
          rcases this with h | h | h <;> rw [h] at hd <;> simp_all
        simp only [Inline.marked, List.mem_append, List.mem_map] at hx
        rcases hx with (⟨d, hd, rfl⟩ | ⟨d, -, rfl⟩) | ⟨d, hd, rfl⟩
        · exact absurd halnum (by simp [hmark d hd])
        · rfl
        · exact absurd halnum (by simp [hmark d hd])
      · exact ih x hx halnum
  | case4 c s hm ih =>
      intro x hx halnum
      rcases List.mem_cons.mp hx with rfl | hx
      · rfl
      · exact ih x hx halnum

/-- What a quote quotes, up to a blank. -/
theorem blockquoteRe_eq_some {line rest : Str} (h : blockquoteRe line = some rest) :
    ∃ a, line = a ++ rest ∧ ∀ c ∈ a, c = '>' ∨ isSpace c = true := by
  rw [blockquoteRe.eq_def] at h
  split at h
  · rename_i c x
    obtain rfl := Option.some.inj h
    by_cases hc : isSpace c = true
    · rw [if_pos hc]
      exact ⟨['>', c], rfl, by simp [hc]⟩
    · rw [if_neg hc]
      exact ⟨['>'], rfl, by simp⟩
  · obtain rfl := Option.some.inj h
    exact ⟨['>'], rfl, by simp⟩
  · cases h

/-- **The marks of a block are in no word.** -/
theorem words_blockOf (raw : Str) :
    wordChars t.toLetters (blockOf raw).content = wordChars t.toLetters raw := by
  rw [← wordChars_rstrip raw]
  rw [blockOf]
  split
  · rename_i hblank
    rw [← wordChars_strip (rstrip raw), hblank]
  split
  · rename_i hmatch
    obtain ⟨-, -, a, x, hax, ha, -, rfl⟩ := headingRe_eq_some hmatch
    rw [hax, wordChars_strip, wordChars_lstrip]
    refine (wordFrom_none_of_not ?_ x).symm
    intro c hc
    exact t.not_isalnum (by simp [ha c hc])
  split
  · rename_i hmatch
    obtain ⟨c, x, hax, hc, -, rfl⟩ := bulletRe_eq_some hmatch
    rw [hax, wordChars_strip, wordChars_lstrip]
    refine (wordFrom_none_of_not ?_ x).symm
    intro d hd
    obtain rfl := List.mem_singleton.mp hd
    exact t.not_isalnum (by rcases hc with rfl | rfl <;> simp)
  split
  · rename_i hmatch
    obtain ⟨a, hax, ha⟩ := blockquoteRe_eq_some hmatch
    rw [hax, wordChars_strip]
    refine (wordFrom_none_of_not ?_ _).symm
    intro c hc
    rcases ha c hc with rfl | hspace
    · exact t.not_isalnum (by simp)
    · exact t.blank c hspace
  split
  · rfl
  · rfl

/-! ## The words of the result -/

theorem words_blankBefore (out : List Str) :
    (blankBefore out).flatMap (wordChars t.toLetters) = out.flatMap (wordChars t.toLetters) := by
  rw [blankBefore]
  split
  · simp [wordChars, wordFrom]
  · rfl

theorem words_cons {c : Char} (h : t.isalnum c = false) (s : Str) :
    wordChars t.toLetters (c :: s) = wordChars t.toLetters s :=
  wordFrom_none_of_not (p := [c]) (by simpa using h) s

/-- A block brings its words. -/
theorem words_emitPlain (out : List Str) (b : Block) (hb : b.kind = .blank → b.content = []) :
    (emitPlain out b).flatMap (wordChars t.toLetters) =
      out.flatMap (wordChars t.toLetters) ++ wordChars t.toLetters (clean b.content) := by
  have hspace : t.isalnum ' ' = false := t.blank ' ' (by decide)
  have hbullet : t.isalnum '•' = false := t.not_isalnum (by decide)
  have hrule : ∀ k, wordChars t.toLetters (List.replicate k '─') = [] := fun k =>
    wordFrom_of_not (fun c hc => (List.mem_replicate.mp hc).2 ▸ t.not_isalnum (by decide)) none
  cases hk : b.kind with
  | blank =>
      rw [emitPlain, hk, hb hk]
      exact (words_blankBefore out).trans (List.append_nil _).symm
  | heading =>
      rw [emitPlain, hk]
      simp [words_blankBefore, hrule]
  | bullet =>
      rw [emitPlain, hk]
      simp [words_cons hspace, words_cons hbullet]
  | blockquote =>
      rw [emitPlain, hk]
      simp [words_cons hspace]
  | speaker =>
      rw [emitPlain, hk]
      simp [words_blankBefore]
  | para =>
      rw [emitPlain, hk]
      simp

theorem words_foldl (bs : List Block) (hbs : ∀ b ∈ bs, b.kind = .blank → b.content = [])
    (out : List Str) :
    (bs.foldl emitPlain out).flatMap (wordChars t.toLetters) =
      out.flatMap (wordChars t.toLetters) ++
        bs.flatMap fun b => wordChars t.toLetters (clean b.content) := by
  induction bs generalizing out with
  | nil => simp
  | cons b bs ih =>
      rw [List.foldl_cons, ih fun x hx => hbs x (List.mem_cons_of_mem _ hx),
        words_emitPlain out b (hbs b List.mem_cons_self), List.append_assoc, List.flatMap_cons]

theorem words_dedupeBlank (prevBlank : Bool) (ls : List Str) :
    (dedupeBlank prevBlank ls).flatMap (wordChars t.toLetters) =
      ls.flatMap (wordChars t.toLetters) := by
  have hnil : wordChars t.toLetters [] = [] := rfl
  fun_induction dedupeBlank prevBlank ls with
  | case1 => rfl
  | case2 ls ih => rw [ih, List.flatMap_cons, hnil, List.nil_append]
  | case3 _ ls _ ih => rw [List.flatMap_cons, ih, List.flatMap_cons]
  | case4 _ l ls _ ih => rw [List.flatMap_cons, ih, List.flatMap_cons]

theorem words_trimmed (ls : List Str) :
    (ls.rdropWhile (· = [])).flatMap (wordChars t.toLetters) =
      ls.flatMap (wordChars t.toLetters) := by
  induction ls using List.reverseRecOn with
  | nil => rfl
  | append_singleton ls l ih =>
      by_cases hl : l = []
      · rw [List.rdropWhile_concat_pos _ _ _ (by simpa using hl), ih, hl, List.flatMap_append]
        simp [wordChars, wordFrom]
      · rw [List.rdropWhile_concat_neg _ _ _ (by simpa using hl)]

theorem words_finish (out : List Str) :
    wordChars t.toLetters (finish out) = out.flatMap (wordChars t.toLetters) := by
  have hbreak : t.isalnum '\n' = false := t.blank '\n' (by decide)
  have hend : wordChars t.toLetters (finish out) = wordChars t.toLetters
      (joinLines ((dedupeBlank false out).rdropWhile (· = []))) :=
    wordFrom_append_not _ (by simpa using hbreak) none
  rw [hend, wordChars_joinLines, words_trimmed, words_dedupeBlank]

/-- The text and its plain form hold the word characters of the blocks. -/
theorem words_text (text : Str) : wordChars t.toLetters text =
    (iterBlocks text).flatMap fun b => wordChars t.toLetters (marked b.content).text := by
  rw [wordChars_splitlines, iterBlocks, List.flatMap_map]
  congr 1
  funext raw
  rw [marked, text_markedFrom, List.drop_zero, words_blockOf]

theorem content_of_blank (raw : Str) (h : (blockOf raw).kind = .blank) :
    (blockOf raw).content = [] := by
  rw [blockOf] at h ⊢
  split
  · rfl
  · rename_i hblank
    rw [if_neg hblank] at h
    exfalso
    split at h
    · cases h
    split at h
    · cases h
    split at h
    · cases h
    split at h <;> cases h

theorem words_plain (text : Str) : wordChars t.toLetters (textToPlainString text) =
    (iterBlocks text).flatMap fun b => wordChars t.toLetters (marked b.content).kept := by
  have hblank : ∀ b ∈ iterBlocks text, b.kind = .blank → b.content = [] := by
    intro b hb
    obtain ⟨raw, -, rfl⟩ := List.mem_map.mp hb
    exact content_of_blank raw
  rw [textToPlainString, words_finish, words_foldl _ hblank]
  simp only [clean_eq]
  rfl

/-- The word characters of a text are those of its plain form. -/
def KeepsWords (t : Alphabet) (text : Str) : Prop :=
  wordChars t.toLetters (textToPlainString text) = wordChars t.toLetters text

instance (t : Alphabet) (text : Str) : Decidable (KeepsWords t text) :=
  inferInstanceAs (Decidable (_ = _))

/-- **The plain export keeps the words** exactly when, on every line, the expression takes no
underscore from inside a word and leaves none alone between two letters. -/
theorem plain_words_iff (t : Alphabet) (text : Str) :
    KeepsWords t text ↔
      ∀ b ∈ iterBlocks text, ∀ g ∈ gaps t.toLetters none (marked b.content), EvenGap g := by
  rw [KeepsWords, words_plain, words_text, eq_comm]
  induction iterBlocks text with
  | nil => simp
  | cons b bs ih =>
      rw [List.flatMap_cons, List.flatMap_cons, List.forall_mem_cons]
      exact (wordFrom_kept (kept_of_isalnum b.content 0) none _ _).trans (and_congr_right' ih)

/-! ## A line -/

/-- The letters and digits of ASCII. -/
def ascii : Alphabet where
  isalnum c := (48 ≤ c.toNat && c.toNat ≤ 57) || (65 ≤ c.toNat && c.toNat ≤ 90) ||
    (97 ≤ c.toNat && c.toNat ≤ 122)
  blank c h := by
    simp only [isSpace, Bool.or_eq_true, Bool.and_eq_true, decide_eq_true_eq, beq_iff_eq] at h
    simp only [Bool.or_eq_false_iff, Bool.and_eq_false_iff, decide_eq_false_iff_not]
    omega
  underscore := by decide
  mark c hc := by
    simp only [List.mem_cons, List.not_mem_nil, or_false] at hc
    rcases hc with rfl | rfl | rfl | rfl | rfl | rfl <;> rfl

/-- `Intervenant_00 et Intervenant_01` -/
def twoLabels : Str := "Intervenant_00 et Intervenant_01".toList

/-- **Two anonymous speakers named on one line** lose the underscores of their labels. -/
theorem label_mangled : ¬ ∀ (t : Alphabet) text, KeepsWords t text := by
  intro h
  exact absurd (h ascii twoLabels) (by decide +kernel)

end MesReunions.Formats
