import MesReunions.Base.Utf16

/-!
# Snippets

`parse_marked` and `build_snippet` of `meeting_search.py`: around the first highlighted term, as
much of a text as fits in a number of characters.

* `Highlighted` — a text and its highlighted terms, as `parse_marked` finds them.
* `Exact` — what a snippet should be.
* **`exact_iff`** — it is exact when the text fits, or when no term has text on both sides of
  the first value of `hi`.
* **`term_cut`** — a term on both sides of it.
-/

namespace MesReunions.Search

open Str

/-! ## The marks -/

/-- `_HL_START` -/
def hlStart : Char := '\x02'

/-- `_HL_END` -/
def hlEnd : Char := '\x03'

/-- The variables of `parse_marked`; `pos` is the length of `plain`. -/
structure Parsed where
  plain : Str
  spans : List (Nat × Nat)
  start : Option Nat

/-- The body of the loop of `parse_marked`. -/
def parseChar (p : Parsed) (ch : Char) : Parsed :=
  let pos := p.plain.length
  if ch = hlStart then { p with start := some pos }
  else if ch = hlEnd then
    { p with
      spans := match p.start with
        | some start => if start < pos then p.spans ++ [(start, pos)] else p.spans
        | none => p.spans
      start := none }
  else { p with plain := p.plain ++ [ch] }

/-- `parse_marked(marked)` -/
def parseMarked (marked : Str) : Str × List (Nat × Nat) :=
  let p := marked.foldl parseChar ⟨[], [], none⟩
  (p.plain, p.spans)

/-- A text and the terms highlighted in it, from left to right. -/
structure Highlighted where
  plain : Str
  spans : List (Nat × Nat)
  ordered : spans.Pairwise fun p q => p.2 ≤ q.1
  inside : ∀ p ∈ spans, p.1 < p.2 ∧ p.2 ≤ plain.length

/-- What the loop keeps: the terms are in order, and they end where the next may start. -/
structure Parsed.Inv (p : Parsed) : Prop where
  ordered : p.spans.Pairwise fun a b => a.2 ≤ b.1
  inside : ∀ a ∈ p.spans, a.1 < a.2 ∧ a.2 ≤ p.plain.length
  start : ∀ s ∈ p.start, s ≤ p.plain.length ∧ ∀ a ∈ p.spans, a.2 ≤ s

theorem Parsed.Inv.parseChar {p : Parsed} (h : p.Inv) (ch : Char) : (parseChar p ch).Inv := by
  rw [Search.parseChar]
  by_cases hstart : ch = hlStart
  · -- A term begins here.
    rw [if_pos hstart]
    refine ⟨h.ordered, h.inside, fun s hs => ?_⟩
    cases hs
    exact ⟨le_rfl, fun a ha => (h.inside a ha).2⟩
  rw [if_neg hstart]
  by_cases hend : ch = hlEnd
  · rw [if_pos hend]
    cases hopen : p.start with
    | none => exact ⟨h.ordered, h.inside, by simp⟩
    | some s =>
        obtain ⟨hle, hafter⟩ := h.start s hopen
        by_cases hlt : s < p.plain.length
        · -- The term is added after those that end before it begins.
          simp only [if_pos hlt]
          refine ⟨List.pairwise_append.mpr ⟨h.ordered, List.pairwise_singleton _ _, ?_⟩, ?_,
            by simp⟩
          · intro a ha b hb
            rw [List.mem_singleton.mp hb]
            exact hafter a ha
          · intro a ha
            rcases List.mem_append.mp ha with ha | ha
            · exact h.inside a ha
            · rw [List.mem_singleton.mp ha]
              exact ⟨hlt, le_rfl⟩
        · simp only [if_neg hlt]
          exact ⟨h.ordered, h.inside, by simp⟩
  · rw [if_neg hend]
    have hlen : p.plain.length ≤ (p.plain ++ [ch]).length := by simp
    refine ⟨h.ordered, fun a ha => ?_, fun s hs => ?_⟩
    · exact ⟨(h.inside a ha).1, (h.inside a ha).2.trans hlen⟩
    · exact ⟨(h.start s hs).1.trans hlen, (h.start s hs).2⟩

/-- **The terms that `parse_marked` finds are in order.** -/
theorem exists_highlighted (marked : Str) :
    ∃ t : Highlighted, parseMarked marked = (t.plain, t.spans) := by
  have hinv : ∀ p : Parsed, p.Inv → (marked.foldl parseChar p).Inv := by
    induction marked with
    | nil => exact fun _ h => h
    | cons ch marked ih => exact fun p h => ih _ (h.parseChar ch)
  have h := hinv ⟨[], [], none⟩ ⟨List.Pairwise.nil, by simp, by simp⟩
  exact ⟨⟨_, _, h.ordered, h.inside⟩, rfl⟩

/-! ## The window -/

/-- `_SNIPPET_LEAD_CHARS` -/
def snippetLeadChars : Nat := 80

/-- `SNIPPET_MAX_CHARS` -/
def snippetMaxChars : Nat := 300

/-- `x.find(c, lo, hi)` -/
def find (x : Str) (c : Char) (lo hi : Nat) : Option Nat :=
  (List.range' lo (hi - lo)).find? fun i => x[i]? == some c

/-- `x.rfind(c, lo, hi)` -/
def rfind (x : Str) (c : Char) (lo hi : Nat) : Option Nat :=
  (List.range' lo (hi - lo)).reverse.find? fun i => x[i]? == some c

theorem le_of_find {x : Str} {c : Char} {lo hi i : Nat} (h : find x c lo hi = some i) :
    lo ≤ i ∧ i < hi := by
  have hmem := List.mem_range'_1.mp (List.mem_of_find?_eq_some h)
  omega

theorem le_of_rfind {x : Str} {c : Char} {lo hi i : Nat} (h : rfind x c lo hi = some i) :
    lo ≤ i ∧ i < hi := by
  have hmem := List.mem_range'_1.mp (List.mem_reverse.mp (List.mem_of_find?_eq_some h))
  omega

/-- `spans[0][0] if spans else 0` -/
def anchor (spans : List (Nat × Nat)) : Nat := (spans.head?.map Prod.fst).getD 0

/-- The first value of `hi`, when the text is too long: where a window of `max_chars`
characters that begins before the first term ends. -/
def limit (plain : Str) (spans : List (Nat × Nat)) (maxChars : Nat) : Nat :=
  min plain.length (anchor spans - snippetLeadChars + maxChars)

/-- The cut on the left: after the first blank before the first term. -/
def cutLeft (plain : Str) (spans : List (Nat × Nat)) (lo hi : Nat) : Nat :=
  if 0 < lo then
    match find plain ' ' lo (if spans = [] then hi else anchor spans) with
    | some cut => cut + 1
    | none => lo
  else lo

/-- The cut on the right: at the last blank after the terms that begin in the window. -/
def cutRight (plain : Str) (spans : List (Nat × Nat)) (lo hi : Nat) : Nat :=
  if hi < plain.length then
    let lastNeeded := ((spans.filter fun p => p.1 < hi).map Prod.snd).max?.getD lo
    match rfind plain ' ' (max lo lastNeeded) hi with
    | some cut => if lo < cut then cut else hi
    | none => hi
  else hi

/-- The first part of `build_snippet`: `lo` and `hi`. -/
def window (plain : Str) (spans : List (Nat × Nat)) (maxChars : Nat) : Nat × Nat :=
  if plain.length ≤ maxChars then (0, plain.length)
  else
    let hi := limit plain spans maxChars
    let lo := cutLeft plain spans (hi - maxChars) hi
    (lo, cutRight plain spans lo hi)

/-- The body, and the place in the text where it begins. -/
structure Body where
  lo : Nat
  text : Str

/-- The end of the body. -/
def Body.hi (b : Body) : Nat := b.lo + b.text.length

/-- A part of the text without the blanks around it. -/
def stripped (plain : Str) (lo hi : Nat) : Body :=
  let part := slice plain lo hi
  ⟨lo + (part.length - (lstrip part).length), strip part⟩

/-- `body`, and the last value of `lo`. -/
def bodyOf (plain : Str) (spans : List (Nat × Nat)) (maxChars : Nat) : Body :=
  let w := window plain spans maxChars
  stripped plain w.1 w.2

/-- `"…" if cut else ""` -/
def ellipsis (cut : Prop) [Decidable cut] : Str := if cut then ['…'] else []

/-- `build_snippet(plain, spans, max_chars)` -/
def buildSnippet (plain : Str) (spans : List (Nat × Nat)) (maxChars : Nat) :
    Str × List (Nat × Nat) :=
  let b := bodyOf plain spans maxChars
  let pre := ellipsis (0 < b.lo)
  let snippet := pre ++ b.text ++ ellipsis (b.hi < plain.length)
  (snippet, (spans.filter fun p => b.lo ≤ p.1 ∧ p.2 ≤ b.hi).map fun p =>
    (utf16Len (snippet.take (pre.length + (p.1 - b.lo))),
      utf16Len (snippet.take (pre.length + (p.2 - b.lo)))))

/-! ## What a snippet should be -/

/-- There is a character at `i`, and it is no blank. -/
def Text (plain : Str) (i : Nat) : Prop := ∃ c, plain[i]? = some c ∧ isSpace c = false

/-- Some of the text of the term is inside, and some is not. -/
def Splits (plain : Str) (inside : Nat → Prop) (p : Nat × Nat) : Prop :=
  (∃ i, p.1 ≤ i ∧ i < p.2 ∧ Text plain i ∧ inside i) ∧
    ∃ j, p.1 ≤ j ∧ j < p.2 ∧ Text plain j ∧ ¬ inside j

/-- The units of the snippet between the two places are those of the term. -/
def Designates (plain snippet : Str) (p place : Nat × Nat) : Prop :=
  slice (utf16 snippet) place.1 place.2 = utf16 (slice plain p.1 p.2)

/-- The snippet of a text. -/
structure Exact (t : Highlighted) (maxChars : Nat) : Prop where
  /-- The body is a part of the text, with an ellipsis where something is left out. -/
  text : ∃ before after,
    t.plain = before ++ (bodyOf t.plain t.spans maxChars).text ++ after ∧
    before.length = (bodyOf t.plain t.spans maxChars).lo ∧
    (buildSnippet t.plain t.spans maxChars).1 = ellipsis (before ≠ []) ++
      (bodyOf t.plain t.spans maxChars).text ++ ellipsis (after ≠ [])
  short : (bodyOf t.plain t.spans maxChars).text.length ≤ maxChars
  /-- No term is cut by an edge. -/
  whole : ∀ p ∈ t.spans, ¬ Splits t.plain
    (fun i => (bodyOf t.plain t.spans maxChars).lo ≤ i ∧
      i < (bodyOf t.plain t.spans maxChars).hi) p
  /-- The places are those of the terms inside the body, in order. -/
  places : List.Forall₂ (Designates t.plain (buildSnippet t.plain t.spans maxChars).1)
    (t.spans.filter fun p => (bodyOf t.plain t.spans maxChars).lo ≤ p.1 ∧
      p.2 ≤ (bodyOf t.plain t.spans maxChars).hi)
    (buildSnippet t.plain t.spans maxChars).2

/-! ## The body -/

/-- What `strip` takes away. -/
theorem strip_parts (x : Str) : ∃ a b, x = a ++ strip x ++ b ∧
    a.length = x.length - (lstrip x).length ∧ (∀ c ∈ a, isSpace c = true) ∧
    ∀ c ∈ b, isSpace c = true := by
  have hleft : x.takeWhile isSpace ++ lstrip x = x := List.takeWhile_append_dropWhile
  have hright : strip x ++ (lstrip x).rtakeWhile isSpace = lstrip x :=
    List.rdropWhile_append_rtakeWhile
  refine ⟨x.takeWhile isSpace, (lstrip x).rtakeWhile isSpace, ?_, ?_, ?_, ?_⟩
  · rw [List.append_assoc, hright, hleft]
  · have hlen := congrArg List.length hleft
    rw [List.length_append] at hlen
    omega
  · exact fun c hc => List.mem_takeWhile_imp hc
  · exact fun c hc => List.mem_rtakeWhile_imp hc

/-- **The body of a window.** It is a part of the text, inside the window, and what the
window has more is blank. -/
theorem stripped_spec {plain : Str} {lo hi : Nat} (hlo : lo ≤ plain.length)
    (hhi : hi ≤ plain.length) :
    (∃ before after, plain = before ++ (stripped plain lo hi).text ++ after ∧
      before.length = (stripped plain lo hi).lo) ∧
    (stripped plain lo hi).text.length ≤ hi - lo ∧
    ∀ i, Text plain i → ((stripped plain lo hi).lo ≤ i ∧ i < (stripped plain lo hi).hi ↔
      lo ≤ i ∧ i < hi) := by
  obtain ⟨a, b, hparts, hlen, ha, hb⟩ := strip_parts (slice plain lo hi)
  have hslice := length_slice plain lo hi
  rw [min_eq_left hhi] at hslice
  have hsum : a.length + (strip (slice plain lo hi)).length + b.length = hi - lo := by
    have h := congrArg List.length hparts
    rw [List.length_append, List.length_append, hslice] at h
    omega
  have hbody : (stripped plain lo hi).text = strip (slice plain lo hi) := rfl
  have hstart : (stripped plain lo hi).lo = lo + a.length := by rw [hlen]; rfl
  have hend : (stripped plain lo hi).hi =
      lo + a.length + (strip (slice plain lo hi)).length := by rw [← hstart]; rfl
  refine ⟨?_, by rw [hbody]; omega, fun i hi' => ?_⟩
  · by_cases hle : lo ≤ hi
    · refine ⟨plain.take lo ++ a, b ++ plain.drop hi, ?_, ?_⟩
      · have hplain := take_slice_drop plain hle
        rw [hparts] at hplain
        simpa [hbody, List.append_assoc] using hplain.symm
      · rw [List.length_append, List.length_take, min_eq_left hlo, hstart]
    · -- The window is empty.
      have hnil : strip (slice plain lo hi) = [] := List.length_eq_zero_iff.mp (by omega)
      refine ⟨plain.take lo, plain.drop lo, ?_, ?_⟩
      · rw [hbody, hnil, List.append_nil, List.take_append_drop]
      · rw [List.length_take, min_eq_left hlo, hstart]
        omega
  · rw [hstart, hend]
    refine ⟨fun h => by omega, fun h => ?_⟩
    obtain ⟨c, hc, hblank⟩ := hi'
    have hget : (a ++ strip (slice plain lo hi) ++ b)[i - lo]? = some c := by
      rw [← hparts, getElem?_slice plain (by omega), show lo + (i - lo) = i by omega, hc]
    rw [List.append_assoc] at hget
    by_cases hleft : i - lo < a.length
    · rw [List.getElem?_append_left hleft] at hget
      rw [ha c (List.mem_of_getElem? hget)] at hblank
      cases hblank
    rw [List.getElem?_append_right (by omega)] at hget
    by_cases hright : i - lo - a.length < (strip (slice plain lo hi)).length
    · omega
    rw [List.getElem?_append_right (by omega)] at hget
    rw [hb c (List.mem_of_getElem? hget)] at hblank
    cases hblank

/-! ## The edges of the window -/

theorem le_cutLeft (plain : Str) (spans : List (Nat × Nat)) (lo hi : Nat) :
    lo ≤ cutLeft plain spans lo hi := by
  rw [cutLeft]
  split
  · split
    · rename_i cut hcut
      exact (le_of_find hcut).1.trans (Nat.le_succ cut)
    · exact le_rfl
  · exact le_rfl

/-- The cut on the left is not after the first term. -/
theorem cutLeft_le {plain : Str} {spans : List (Nat × Nat)} {lo hi : Nat}
    (h : lo ≤ if spans = [] then hi else anchor spans) :
    cutLeft plain spans lo hi ≤ if spans = [] then hi else anchor spans := by
  rw [cutLeft]
  split
  · split
    · rename_i cut hcut
      exact (le_of_find hcut).2
    · exact h
  · exact h

theorem cutRight_le (plain : Str) (spans : List (Nat × Nat)) (lo hi : Nat) :
    cutRight plain spans lo hi ≤ hi := by
  rw [cutRight]
  split
  · dsimp only
    split
    · rename_i cut hcut
      split
      · exact (le_of_rfind hcut).2.le
      · exact le_rfl
    · exact le_rfl
  · exact le_rfl

/-- Either nothing is cut on the right, or the terms that begin before the window ends end
before the cut. -/
theorem cutRight_spec (plain : Str) (spans : List (Nat × Nat)) (lo hi : Nat) :
    cutRight plain spans lo hi = hi ∨
      ∀ p ∈ spans, p.1 < hi → p.2 ≤ cutRight plain spans lo hi := by
  rw [cutRight]
  split
  · dsimp only
    split
    · rename_i cut hcut
      split
      · refine Or.inr fun p hp hlt => ?_
        have hmem : p.2 ∈ (spans.filter fun p => p.1 < hi).map Prod.snd :=
          List.mem_map_of_mem (List.mem_filter.mpr ⟨hp, by simpa using hlt⟩)
        calc p.2 ≤ ((spans.filter fun p => p.1 < hi).map Prod.snd).max?.getD lo :=
              List.le_max?_getD_of_mem hmem
          _ ≤ cut := (le_max_right _ _).trans (le_of_rfind hcut).1
      · exact Or.inl rfl
    · exact Or.inl rfl
  · exact Or.inl rfl

theorem anchor_le (t : Highlighted) : ∀ p ∈ t.spans, anchor t.spans ≤ p.1 := by
  obtain ⟨plain, spans, hordered, hinside⟩ := t
  cases spans with
  | nil => simp
  | cons q spans =>
      intro p hp
      change q.1 ≤ p.1
      rcases List.mem_cons.mp hp with rfl | hp
      · exact le_rfl
      · have hlt := (hinside q List.mem_cons_self).1
        have hle := (List.pairwise_cons.mp hordered).1 p hp
        omega

theorem limit_le (plain : Str) (spans : List (Nat × Nat)) (maxChars : Nat) :
    limit plain spans maxChars ≤ plain.length := min_le_left _ _

/-- What is needed of the two edges. -/
structure WindowSpec (t : Highlighted) (maxChars : Nat) (lo hi : Nat) : Prop where
  lo_le : lo ≤ t.plain.length
  hi_le : hi ≤ t.plain.length
  short : hi - lo ≤ maxChars
  first : ∀ p ∈ t.spans, lo ≤ p.1

theorem window_spec (t : Highlighted) (maxChars : Nat) :
    WindowSpec t maxChars (window t.plain t.spans maxChars).1
      (window t.plain t.spans maxChars).2 := by
  rw [window]
  split
  · rename_i hle
    exact ⟨Nat.zero_le _, le_rfl, by simpa using hle, fun p _ => Nat.zero_le _⟩
  · have hlimit := limit_le t.plain t.spans maxChars
    have hlead : limit t.plain t.spans maxChars - maxChars ≤ anchor t.spans := by
      have h : limit t.plain t.spans maxChars ≤
        anchor t.spans - snippetLeadChars + maxChars := min_le_right _ _
      omega
    have hright := cutRight_le t.plain t.spans
      (cutLeft t.plain t.spans (limit t.plain t.spans maxChars - maxChars)
        (limit t.plain t.spans maxChars)) (limit t.plain t.spans maxChars)
    have hleft := le_cutLeft t.plain t.spans (limit t.plain t.spans maxChars - maxChars)
      (limit t.plain t.spans maxChars)
    have hle : cutLeft t.plain t.spans (limit t.plain t.spans maxChars - maxChars)
        (limit t.plain t.spans maxChars) ≤
        if t.spans = [] then limit t.plain t.spans maxChars else anchor t.spans :=
      cutLeft_le (by split <;> omega)
    dsimp only
    refine ⟨?_, hright.trans hlimit, by omega, fun p hp => ?_⟩
    · by_cases hnil : t.spans = []
      · rw [if_pos hnil] at hle
        exact hle.trans hlimit
      · rw [if_neg hnil] at hle
        obtain ⟨q, hq⟩ := List.exists_mem_of_ne_nil _ hnil
        have hfirst := anchor_le t q hq
        have hinside := t.inside q hq
        omega
    · rw [if_neg (List.ne_nil_of_mem hp)] at hle
      exact hle.trans (anchor_le t p hp)

/-! ## The terms -/

theorem Splits.congr {plain : Str} {f g : Nat → Prop} {p : Nat × Nat}
    (h : ∀ i, p.1 ≤ i → i < p.2 → Text plain i → (f i ↔ g i)) :
    Splits plain f p ↔ Splits plain g p := by
  constructor
  · rintro ⟨⟨i, h₁, h₂, h₃, hi⟩, j, k₁, k₂, k₃, hj⟩
    exact ⟨⟨i, h₁, h₂, h₃, (h i h₁ h₂ h₃).mp hi⟩, j, k₁, k₂, k₃,
      fun hg => hj ((h j k₁ k₂ k₃).mpr hg)⟩
  · rintro ⟨⟨i, h₁, h₂, h₃, hi⟩, j, k₁, k₂, k₃, hj⟩
    exact ⟨⟨i, h₁, h₂, h₃, (h i h₁ h₂ h₃).mpr hi⟩, j, k₁, k₂, k₃,
      fun hg => hj ((h j k₁ k₂ k₃).mp hg)⟩

/-- The body cuts the terms that the right edge of the window cuts. -/
theorem splits_body (t : Highlighted) (maxChars : Nat) {p : Nat × Nat} (hp : p ∈ t.spans) :
    Splits t.plain (fun i => (bodyOf t.plain t.spans maxChars).lo ≤ i ∧
      i < (bodyOf t.plain t.spans maxChars).hi) p ↔
    Splits t.plain (fun i => i < (window t.plain t.spans maxChars).2) p := by
  have hw := window_spec t maxChars
  obtain ⟨-, -, htext⟩ := stripped_spec hw.lo_le hw.hi_le
  refine Splits.congr fun i hfrom _ hi => (htext i hi).trans ?_
  exact ⟨And.right, fun h => ⟨(hw.first p hp).trans hfrom, h⟩⟩

/-- **The cut.** A window that is too short for the text cuts a term exactly when the term is
on both sides of the first value of `hi`. -/
theorem splits_window (t : Highlighted) {maxChars : Nat} (h : ¬ t.plain.length ≤ maxChars)
    {p : Nat × Nat} (hp : p ∈ t.spans) :
    Splits t.plain (fun i => i < (window t.plain t.spans maxChars).2) p ↔
      Splits t.plain (fun i => i < limit t.plain t.spans maxChars) p := by
  rw [window, if_neg h]
  dsimp only
  generalize cutLeft t.plain t.spans (limit t.plain t.spans maxChars - maxChars)
    (limit t.plain t.spans maxChars) = lo
  have hle := cutRight_le t.plain t.spans lo (limit t.plain t.spans maxChars)
  rcases cutRight_spec t.plain t.spans lo (limit t.plain t.spans maxChars) with heq | hends
  · rw [heq]
  · -- The terms that begin before the limit end before the cut.
    constructor
    · rintro ⟨⟨i, hi, -, -, hlt⟩, j, -, hj, -, hge⟩
      have hend := hends p hp (by omega)
      omega
    · rintro ⟨⟨i, hi, -, -, hlt⟩, j, -, hj, -, hge⟩
      have hend := hends p hp (by omega)
      omega

/-- A text that fits is not cut. -/
theorem not_splits_of_fits (t : Highlighted) {maxChars : Nat} (h : t.plain.length ≤ maxChars)
    {p : Nat × Nat} (hp : p ∈ t.spans) :
    ¬ Splits t.plain (fun i => i < (window t.plain t.spans maxChars).2) p := by
  rintro ⟨-, j, -, hj, -, hge⟩
  have hinside := (t.inside p hp).2
  rw [window, if_pos h] at hge
  dsimp only at hge
  omega

/-! ## The places -/

theorem take_pre {s t : Str} {n : Nat} (h : n ≤ t.length) (u : Str) :
    (s ++ t ++ u).take (s.length + n) = s ++ t.take n := by
  rw [List.append_assoc, List.take_length_add_append, List.take_append_of_le_length h]

/-- A part of the body is where the prefix and the body before it end. -/
theorem designates_of_inside {plain pre body suf : Str} {lo : Nat} {p : Nat × Nat}
    (hbody : body = slice plain lo (lo + body.length)) (hlo : lo ≤ p.1)
    (hp : p.1 ≤ p.2) (hhi : p.2 ≤ lo + body.length) :
    Designates plain (pre ++ body ++ suf) p
      (utf16Len ((pre ++ body ++ suf).take (pre.length + (p.1 - lo))),
        utf16Len ((pre ++ body ++ suf).take (pre.length + (p.2 - lo)))) := by
  have hterm : slice plain p.1 p.2 = slice body (p.1 - lo) (p.2 - lo) := by
    rw [hbody, slice, slice, slice, List.take_drop, List.drop_drop, List.take_take,
      show lo + (p.2 - lo) = p.2 by omega, show lo + (p.1 - lo) = p.1 by omega,
      min_eq_left hhi]
  have hsplit : pre ++ body ++ suf =
      (pre ++ body.take (p.1 - lo)) ++ slice plain p.1 p.2 ++
        (body.drop (p.2 - lo) ++ suf) := by
    have hparts := take_slice_drop body (show p.1 - lo ≤ p.2 - lo by omega)
    rw [hterm]
    calc pre ++ body ++ suf
        = pre ++ (body.take (p.1 - lo) ++ slice body (p.1 - lo) (p.2 - lo) ++
            body.drop (p.2 - lo)) ++ suf := by rw [hparts]
      _ = _ := by simp only [List.append_assoc]
  have hupto : body.take (p.2 - lo) = body.take (p.1 - lo) ++ slice plain p.1 p.2 := by
    rw [hterm, ← List.take_append_drop (p.1 - lo) (body.take (p.2 - lo)), List.take_take,
      min_eq_left (by omega)]
    rfl
  rw [Designates]
  dsimp only
  rw [take_pre (by omega), take_pre (by omega), hupto, ← List.append_assoc, hsplit]
  exact slice_utf16 _ _ _

/-- The body is a part of the text, with an ellipsis where something is left out. -/
theorem snippet_text (t : Highlighted) (maxChars : Nat) : ∃ before after,
    t.plain = before ++ (bodyOf t.plain t.spans maxChars).text ++ after ∧
      before.length = (bodyOf t.plain t.spans maxChars).lo ∧
      (buildSnippet t.plain t.spans maxChars).1 = ellipsis (before ≠ []) ++
        (bodyOf t.plain t.spans maxChars).text ++ ellipsis (after ≠ []) := by
  have hw := window_spec t maxChars
  obtain ⟨⟨before, after, hplain, hlen⟩, -, -⟩ := stripped_spec hw.lo_le hw.hi_le
  have hbody : bodyOf t.plain t.spans maxChars = stripped t.plain
    (window t.plain t.spans maxChars).1 (window t.plain t.spans maxChars).2 := rfl
  rw [← hbody] at hplain hlen
  have htotal := congrArg List.length hplain
  rw [List.length_append, List.length_append, hlen] at htotal
  refine ⟨before, after, hplain, hlen, ?_⟩
  have hleft : 0 < (bodyOf t.plain t.spans maxChars).lo ↔ before ≠ [] := by
    rw [← hlen, List.length_pos_iff]
  have hright : (bodyOf t.plain t.spans maxChars).hi < t.plain.length ↔ after ≠ [] := by
    rw [← List.length_pos_iff, Body.hi, htotal]
    omega
  rw [buildSnippet]
  simp only [ellipsis, hleft, hright]

/-- All but the terms that are cut is as it should be. -/
theorem exact_of_whole (t : Highlighted) (maxChars : Nat)
    (h : ∀ p ∈ t.spans, ¬ Splits t.plain (fun i =>
      (bodyOf t.plain t.spans maxChars).lo ≤ i ∧ i < (bodyOf t.plain t.spans maxChars).hi) p) :
    Exact t maxChars := by
  have hw := window_spec t maxChars
  obtain ⟨-, hshort, -⟩ := stripped_spec hw.lo_le hw.hi_le
  have htext := snippet_text t maxChars
  refine ⟨htext, hshort.trans hw.short, h, ?_⟩
  obtain ⟨before, after, hplain, hlen, -⟩ := htext
  have hslice : (bodyOf t.plain t.spans maxChars).text = slice t.plain
      (bodyOf t.plain t.spans maxChars).lo
      ((bodyOf t.plain t.spans maxChars).lo + (bodyOf t.plain t.spans maxChars).text.length) := by
    have hmid := slice_mid before (bodyOf t.plain t.spans maxChars).text after
    rw [← hplain, hlen] at hmid
    exact hmid.symm
  rw [buildSnippet]
  dsimp only
  rw [List.forall₂_map_right_iff, List.forall₂_same]
  intro p hp
  obtain ⟨hmem, hinside⟩ := List.mem_filter.mp hp
  obtain ⟨hlo, hhi⟩ := of_decide_eq_true hinside
  exact designates_of_inside hslice hlo (t.inside p hmem).1.le hhi

/-- **Snippets are exact**, unless a term of a text that does not fit has text on both sides
of the first value of `hi`. -/
theorem exact_iff (t : Highlighted) (maxChars : Nat) :
    Exact t maxChars ↔ t.plain.length ≤ maxChars ∨
      ∀ p ∈ t.spans, ¬ Splits t.plain (fun i => i < limit t.plain t.spans maxChars) p := by
  constructor
  · intro h
    by_cases hfits : t.plain.length ≤ maxChars
    · exact Or.inl hfits
    · refine Or.inr fun p hp hcut => h.whole p hp ?_
      exact (splits_body t maxChars hp).mpr ((splits_window t hfits hp).mpr hcut)
  · intro h
    refine exact_of_whole t maxChars fun p hp hcut => ?_
    have hwindow := (splits_body t maxChars hp).mp hcut
    by_cases hfits : t.plain.length ≤ maxChars
    · exact not_splits_of_fits t hfits hp hwindow
    · exact h.resolve_left hfits p hp ((splits_window t hfits hp).mp hwindow)

/-- A text of 303 characters that begins and ends with the term. -/
def budgetText : Highlighted where
  plain := ['b', 'u', 'd', 'g', 'e', 't', ' '] ++ (List.replicate 145 ['a', ' ']).flatten ++
    ['b', 'u', 'd', 'g', 'e', 't']
  spans := [(0, 6), (297, 303)]
  ordered := by decide
  inside := by decide +kernel

/-- **A term is cut.** The snippet ends with `bud…`. -/
theorem term_cut : ¬ Exact budgetText snippetMaxChars ∧
    (buildSnippet budgetText.plain budgetText.spans snippetMaxChars).1.drop 296 =
      [' ', 'b', 'u', 'd', '…'] := by
  refine ⟨fun h => h.whole (297, 303) (by decide) ?_, by decide +kernel⟩
  exact ⟨⟨297, by decide, by decide, ⟨'b', by decide +kernel, by decide⟩, by decide +kernel⟩,
    302, by decide, by decide, ⟨'t', by decide +kernel, by decide⟩, by decide +kernel⟩

end MesReunions.Search
