import MesReunions.Base.Num
import MesReunions.Base.SplitLines
import MesReunions.Llm.Steps
import MesReunions.Search.Snippet

/-!
# The texts that are searched

What `meeting_search.py` makes of a meeting before it is highlighted: each text on one line, and
without control characters, so that the marks of a highlight are never its own.

* `cleanText`, `flattenKeyPoints`, `blocksFromReparsed`, `flattenTranscript` — the texts.
* **`unmarked_cleanText`** — they hold no mark.
* **`parseMarked_inserted`** — from a text in which marks are put, `parse_marked` reads the text.
-/

namespace MesReunions.Search

open Str Llm

/-! ## One line -/

/-- `_CTRL_RE` -/
def isCtrl (c : Char) : Bool :=
  let n := c.toNat
  n ≤ 8 || n == 0x0B || n == 0x0C || (0x0E ≤ n && n ≤ 0x1F) || n == 0x7F

/-- `clean_text(value)` -/
def cleanText (value : Option Str) : Str :=
  strip (collapse ((value.getD []).map fun c => if isCtrl c then ' ' else c))

/-- `_MD_EMPH_RE.sub("", text)` -/
def dropEmphasis : Str → Str
  | '*' :: '*' :: s => dropEmphasis s
  | '_' :: '_' :: s => dropEmphasis s
  | c :: s => c :: dropEmphasis s
  | [] => []

/-- `_BULLET_RE.sub("", line)` -/
def dropBullet (line : Str) : Str :=
  let s := line.dropWhile isSpace
  let rest : Option Str :=
    match s with
    | c :: t =>
        if c = '-' ∨ c = '*' ∨ c = '•' then some t
        else
          let digits := s.takeWhile isDigit
          match s.dropWhile isDigit with
          | d :: t => if digits ≠ [] ∧ (d = '.' ∨ d = ')') then some t else none
          | [] => none
    | [] => none
  match rest with
  | some (c :: t) => if isSpace c then t.dropWhile isSpace else line
  | _ => line

/-- `flatten_key_points(value)` -/
def flattenKeyPoints (value : Option Str) : Str :=
  [' ', '·', ' '].intercalate (((splitlines (value.getD [])).map fun line =>
    cleanText (some (dropEmphasis (dropBullet line)))).filter (· ≠ []))

/-! ## The blocks -/

/-- A block as `reparse_blocks` gives it. -/
structure Reparsed where
  speaker : Option Str
  start : Option PyFloat
  stop : Option PyFloat
  bodyLines : List Str

/-- A block that is searched. -/
structure Block where
  speaker : Option Str
  start : Option PyFloat
  stop : Option PyFloat
  text : Str
  deriving DecidableEq

/-- `blocks_from_reparsed(reparsed)` -/
def blocksFromReparsed (reparsed : List Reparsed) : List Block :=
  reparsed.map fun b =>
    let body := [' '].intercalate (b.bodyLines.map fun line =>
      strip (lstripChar '>' (strip line)))
    let speaker := strip (b.speaker.getD [])
    ⟨if speaker = [] then none else some speaker, b.start, b.stop, cleanText (some body)⟩

/-! ## The whole text -/

/-- `[ \t]` -/
def isTab (c : Char) : Bool := c == ' ' || c == '\t'

/-- What follows a match of `_SPEAKER_HEADER_RE` at the start of a line. -/
def afterHeader (s : Str) : Option Str :=
  match s.dropWhile isTab with
  | '*' :: '*' :: t =>
      if t.takeWhile (· ≠ '*') = [] then none
      else
        match t.dropWhile (· ≠ '*') with
        | '*' :: '*' :: t =>
            match t.dropWhile isTab with
            | '_' :: '(' :: t =>
                match t.dropWhile (· ≠ ')') with
                | ')' :: '_' :: t =>
                    let t := t.dropWhile isTab
                    if t = [] ∨ t.head? = some '\n' then some t else none
                | _ => none
            | _ => none
        | _ => none
  | _ => none

/-- `_SPEAKER_HEADER_RE.sub(" ", s)`, from a character that is first on its line or not. The
number of characters bounds the number of turns. -/
def dropHeaders : (turns : Nat) → (first : Bool) → Str → Str
  | _, _, [] => []
  | 0, _, s => s
  | turns + 1, first, c :: s =>
      match (if first then afterHeader (c :: s) else none) with
      | some rest => ' ' :: dropHeaders turns false rest
      | none => c :: dropHeaders turns (c == '\n') s

/-- What follows a match of `_QUOTE_RE` at the start of a line, and whether it is a new line. -/
def afterQuote (s : Str) : Option (Str × Bool) :=
  match s.dropWhile isSpace with
  | '>' :: c :: t => if isSpace c then some (t, c == '\n') else some (c :: t, false)
  | ['>'] => some ([], false)
  | _ => none

/-- `_QUOTE_RE.sub("", s)` -/
def dropQuotes : (turns : Nat) → (first : Bool) → Str → Str
  | _, _, [] => []
  | 0, _, s => s
  | turns + 1, first, c :: s =>
      match (if first then afterQuote (c :: s) else none) with
      | some (rest, first) => dropQuotes turns first rest
      | none => c :: dropQuotes turns (c == '\n') s

/-- `flatten_transcript(value)` -/
def flattenTranscript (value : Option Str) : Str :=
  let s := value.getD []
  let s := dropHeaders (s.length + 1) true s
  let s := dropQuotes (s.length + 1) true s
  cleanText (some (dropEmphasis s))

/-! ## No text holds a mark -/

/-- The text holds no mark. -/
def Unmarked (t : Str) : Prop := hlStart ∉ t ∧ hlEnd ∉ t

theorem mem_collapse {c : Char} {t : Str} (h : c ∈ collapse t) : c = ' ' ∨ c ∈ t := by
  rw [collapse, List.mem_flatMap] at h
  obtain ⟨run, hrun, hc⟩ := h
  split at hc
  · exact Or.inl (List.mem_singleton.mp hc)
  · right
    rw [← List.flatten_splitBy (fun a b => isSpace a && isSpace b) t]
    exact List.mem_flatten.mpr ⟨run, hrun, hc⟩

/-- The characters of a clean text are no control characters. -/
theorem not_ctrl_of_mem_cleanText {c : Char} {value : Option Str} (h : c ∈ cleanText value) :
    isCtrl c = false := by
  rcases mem_collapse (mem_of_mem_strip h) with rfl | h
  · decide
  · obtain ⟨d, -, rfl⟩ := List.mem_map.mp h
    split
    · decide
    · rename_i hd
      simpa using hd

/-- **A clean text holds no mark.** -/
theorem unmarked_cleanText (value : Option Str) : Unmarked (cleanText value) := by
  have hctrl : isCtrl hlStart = true ∧ isCtrl hlEnd = true := by decide
  constructor
  · intro h
    have hnot := not_ctrl_of_mem_cleanText h
    rw [hctrl.1] at hnot
    cases hnot
  · intro h
    have hnot := not_ctrl_of_mem_cleanText h
    rw [hctrl.2] at hnot
    cases hnot

theorem mem_intercalate {sep : Str} {c : Char} {xs : List Str}
    (h : c ∈ sep.intercalate xs) : c ∈ sep ∨ ∃ x ∈ xs, c ∈ x := by
  induction xs with
  | nil => cases h
  | cons x xs ih =>
      by_cases hnil : xs = []
      · subst hnil
        rw [List.intercalate_singleton] at h
        exact Or.inr ⟨x, List.mem_cons_self, h⟩
      · rw [List.intercalate_cons_of_ne_nil hnil] at h
        rcases List.mem_append.mp h with h | h
        · rcases List.mem_append.mp h with h | h
          · exact Or.inr ⟨x, List.mem_cons_self, h⟩
          · exact Or.inl h
        · rcases ih h with h | ⟨y, hy, hc⟩
          · exact Or.inl h
          · exact Or.inr ⟨y, List.mem_cons_of_mem _ hy, hc⟩

theorem unmarked_flattenKeyPoints (value : Option Str) : Unmarked (flattenKeyPoints value) := by
  have hitems : ∀ c ∈ flattenKeyPoints value, c = ' ' ∨ c = '·' ∨ isCtrl c = false := by
    intro c hc
    rcases mem_intercalate hc with hsep | ⟨x, hx, hc⟩
    · simp only [List.mem_cons, List.not_mem_nil, or_false] at hsep
      tauto
    · obtain ⟨line, -, rfl⟩ := List.mem_map.mp (List.mem_filter.mp hx).1
      exact Or.inr (Or.inr (not_ctrl_of_mem_cleanText hc))
  constructor
  · intro h
    rcases hitems _ h with h | h | h <;> revert h <;> decide
  · intro h
    rcases hitems _ h with h | h | h <;> revert h <;> decide

theorem Unmarked.take {t : Str} (h : Unmarked t) (n : Nat) : Unmarked (t.take n) :=
  ⟨fun hm => h.1 (List.mem_of_mem_take hm), fun hm => h.2 (List.mem_of_mem_take hm)⟩

/-! ## Marks put in a text -/

/-- `ts_headline` returns the text with marks in it. -/
inductive Inserted : Str → Str → Prop
  | nil : Inserted [] []
  | keep (c : Char) {t m : Str} : Inserted t m → Inserted (c :: t) (c :: m)
  | start {t m : Str} : Inserted t m → Inserted t (hlStart :: m)
  | stop {t m : Str} : Inserted t m → Inserted t (hlEnd :: m)

theorem plain_parseChar (p : Parsed) (c : Char) : (parseChar p c).plain =
    if c = hlStart ∨ c = hlEnd then p.plain else p.plain ++ [c] := by
  rw [parseChar]
  by_cases hstart : c = hlStart
  · rw [if_pos hstart, if_pos (Or.inl hstart)]
  · by_cases hend : c = hlEnd
    · rw [if_neg hstart, if_pos hend, if_pos (Or.inr hend)]
    · rw [if_neg hstart, if_neg hend, if_neg (by tauto)]

/-- **Reading a marked text.** -/
theorem parseMarked_inserted {t marked : Str} (h : Inserted t marked) (hmark : Unmarked t) :
    (parseMarked marked).1 = t := by
  have hfold : ∀ p : Parsed, (marked.foldl parseChar p).plain = p.plain ++ t := by
    induction h with
    | nil => exact fun p => (List.append_nil _).symm
    | @keep c t m _ ih =>
        intro p
        have hc : ¬ (c = hlStart ∨ c = hlEnd) := by
          rintro (rfl | rfl)
          · exact hmark.1 List.mem_cons_self
          · exact hmark.2 List.mem_cons_self
        have hrest := ih ⟨fun hm => hmark.1 (List.mem_cons_of_mem _ hm),
          fun hm => hmark.2 (List.mem_cons_of_mem _ hm)⟩
        rw [List.foldl_cons, hrest, plain_parseChar, if_neg hc, List.append_assoc]
        rfl
    | start _ ih =>
        intro p
        rw [List.foldl_cons, ih hmark, plain_parseChar, if_pos (Or.inl rfl)]
    | stop _ ih =>
        intro p
        rw [List.foldl_cons, ih hmark, plain_parseChar, if_pos (Or.inr rfl)]
  exact hfold _

end MesReunions.Search
