import MesReunions.Base.Str

/-!
# Words, and texts cut at blanks

* `words` — `text.split()`.
* **`words_append`** — a blank sets the words on its two sides apart; the rest follows from it.
* `cutAfter` — `re.split(r"(?<=[…])\s+", text)`: the blanks after a mark are taken out.
* **`words_cutAfter`**, **`words_joinWords`**, `flatten_packets` — cutting and joining keep the words.
-/

namespace MesReunions.Str

/-- `text.split()` -/
def words (text : Str) : List Str := (text.splitOnP isSpace).filter (· ≠ [])

/-- `" ".join(texts)` -/
def joinWords (texts : List Str) : Str := [' '].intercalate texts

/-! ## Words -/

@[simp] theorem words_nil : words [] = [] := by simp [words]

/-- **A blank sets words apart.** -/
theorem words_append {c : Char} (hc : isSpace c = true) (a b : Str) :
    words (a ++ c :: b) = words a ++ words b := by
  rw [words, List.splitOnP_append_cons a b hc, List.filter_append]
  rfl

theorem words_cons {c : Char} (hc : isSpace c = true) (s : Str) : words (c :: s) = words s := by
  simpa using words_append hc [] s

theorem words_lstrip (s : Str) : words (lstrip s) = words s := by
  induction s with
  | nil => rfl
  | cons c s ih =>
      by_cases hc : isSpace c = true
      · rw [lstrip, List.dropWhile_cons_of_pos hc, words_cons hc]
        exact ih
      · rw [lstrip, List.dropWhile_cons_of_neg hc]

theorem words_rstrip (s : Str) : words (rstrip s) = words s := by
  induction s using List.reverseRecOn with
  | nil => rw [rstrip_nil]
  | append_singleton s c ih =>
      by_cases hc : isSpace c = true
      · rw [rstrip, List.rdropWhile_concat_pos _ _ _ hc, words_append hc, words_nil,
          List.append_nil]
        exact ih
      · rw [rstrip, List.rdropWhile_concat_neg _ _ _ hc]

@[simp] theorem words_strip (s : Str) : words (strip s) = words s := by
  rw [strip, words_rstrip, words_lstrip]

theorem words_of_strip {s : Str} (h : strip s = []) : words s = [] := by
  rw [← words_strip, h, words_nil]

/-- What holds no blank is a word. -/
theorem words_of_not_space {w : Str} (hne : w ≠ []) (hw : ∀ c ∈ w, isSpace c = false) :
    words w = [w] := by
  rw [words, List.splitOnP_eq_singleton hw]
  simp [hne]

/-- A word holds no blank. -/
theorem not_space_of_mem_words {s w : Str} (h : w ∈ words s) : ∀ c ∈ w, isSpace c = false := by
  have hw := (List.mem_filter.mp h).1
  clear h
  induction s generalizing w with
  | nil =>
      simp only [List.splitOnP_nil, List.mem_singleton] at hw
      subst hw
      simp
  | cons c s ih =>
      rw [List.splitOnP_cons_eq_if_modifyHead] at hw
      split at hw
      · rcases List.mem_cons.mp hw with rfl | hw
        · simp
        · exact ih hw
      · rename_i hc
        obtain ⟨p, ps, hps⟩ := List.exists_cons_of_ne_nil (List.splitOnP_ne_nil isSpace s)
        rw [hps, List.modifyHead_cons] at hw
        rw [hps] at ih
        rcases List.mem_cons.mp hw with rfl | hw
        · intro d hd
          rcases List.mem_cons.mp hd with rfl | hd
          · exact Bool.not_eq_true _ ▸ hc
          · exact ih List.mem_cons_self d hd
        · exact ih (List.mem_cons_of_mem _ hw)

/-- A word is the only one in it. -/
theorem words_of_mem {s w : Str} (h : w ∈ words s) : words w = [w] :=
  words_of_not_space (of_decide_eq_true (List.mem_filter.mp h).2) (not_space_of_mem_words h)

/-! ## Joining -/

theorem joinWords_cons {texts : List Str} (h : texts ≠ []) (t : Str) :
    joinWords (t :: texts) = t ++ ' ' :: joinWords texts := by
  simp [joinWords, List.intercalate_cons_of_ne_nil h]

/-- **Joining keeps the words.** -/
theorem words_joinWords (texts : List Str) : words (joinWords texts) = texts.flatMap words := by
  induction texts with
  | nil => rfl
  | cons t texts ih =>
      by_cases hnil : texts = []
      · subst hnil
        simp [joinWords]
      · rw [joinWords_cons hnil, words_append (by decide), ih, List.flatMap_cons]

/-- Blank texts count for nothing. -/
theorem words_filter_strip (texts : List Str) :
    ((texts.map strip).filter (· ≠ [])).flatMap words = texts.flatMap words := by
  induction texts with
  | nil => rfl
  | cons t texts ih =>
      rw [List.map_cons, List.flatMap_cons]
      by_cases hblank : strip t = []
      · rw [List.filter_cons_of_neg (by simp [hblank]), ih, words_of_strip hblank, List.nil_append]
      · rw [List.filter_cons_of_pos (by simp [hblank]), List.flatMap_cons, ih, words_strip]

theorem flatMap_words_of_words {ws : List Str} (h : ∀ w ∈ ws, words w = [w]) :
    ws.flatMap words = ws := by
  induction ws with
  | nil => rfl
  | cons w ws ih =>
      rw [List.flatMap_cons, h w List.mem_cons_self, List.singleton_append,
        ih fun x hx => h x (List.mem_cons_of_mem _ hx)]

/-! ## Packets -/

/-- `[xs[i:i+k] for i in range(0, len(xs), k)]`, for a positive `k`. -/
def packets {α : Type} (k : Nat) (xs : List α) : List (List α) := (List.toChunksAux (k - 1) xs 0).2

theorem flatten_packets {α : Type} (k : Nat) (xs : List α) : (packets k xs).flatten = xs := by
  have hrest : ∀ (xs : List α) (n i : Nat),
      (List.toChunksAux n xs i).1 ++ (List.toChunksAux n xs i).2.flatten = xs := by
    intro xs
    induction xs with
    | nil => exact fun _ _ => rfl
    | cons x xs ih =>
        intro n i
        cases i with
        | zero => simp [List.toChunksAux, ih n n]
        | succ i => simp [List.toChunksAux, ih n i]
  have hfirst : (List.toChunksAux (k - 1) xs 0).1 = [] := by
    cases xs <;> rfl
  have hall := hrest xs (k - 1) 0
  rwa [hfirst, List.nil_append] at hall

/-! ## Cutting -/

/-- The character before the first part. -/
def prepend (c : Char) : List Str → List Str
  | p :: ps => (c :: p) :: ps
  | [] => [[c]]

/-- `re.split(r"(?<=[…])\s+", s)`; with `blanks`, inside of the blanks that are taken out. -/
def cutAfter (mark : Char → Bool) (blanks : Bool) : Str → List Str
  | [] => [[]]
  | c :: s =>
      if blanks && isSpace c then cutAfter mark true s
      else if mark c && s.head?.any isSpace then [c] :: cutAfter mark true s
      else prepend c (cutAfter mark false s)

/-- The first part ends with the text, or at a blank after which the words go on. -/
theorem cutAfter_spec (mark : Char → Bool) (s : Str) :
    (∃ p ps, cutAfter mark false s = p :: ps ∧ (ps = [] ∧ s = p ∨
      ∃ b t, isSpace b = true ∧ s = p ++ b :: t ∧ ps.flatMap words = words t)) ∧
    (cutAfter mark true s).flatMap words = words s := by
  induction s with
  | nil => exact ⟨⟨[], [], rfl, .inl ⟨rfl, rfl⟩⟩, rfl⟩
  | cons c s ih =>
      obtain ⟨⟨p, ps, hcut, hrest⟩, hblanks⟩ := ih
      -- The cut that starts with `c`, which is not a blank to take out.
      have hstart : ∃ q qs, (if mark c && s.head?.any isSpace then [c] :: cutAfter mark true s
          else prepend c (cutAfter mark false s)) = q :: qs ∧ (qs = [] ∧ c :: s = q ∨
            ∃ b t, isSpace b = true ∧ c :: s = q ++ b :: t ∧ qs.flatMap words = words t) := by
        split
        · rename_i hmark
          cases s with
          | nil => simp at hmark
          | cons b t =>
              have hb : isSpace b = true := by
                simp only [List.head?_cons, Option.any_some, Bool.and_eq_true] at hmark
                exact hmark.2
              refine ⟨[c], _, rfl, .inr ⟨b, t, hb, rfl, ?_⟩⟩
              rw [hblanks, words_cons hb]
        · rw [hcut]
          refine ⟨c :: p, ps, rfl, ?_⟩
          rcases hrest with ⟨hnil, rfl⟩ | ⟨b, t, hb, rfl, hwords⟩
          · exact .inl ⟨hnil, rfl⟩
          · exact .inr ⟨b, t, hb, rfl, hwords⟩
      refine ⟨by simpa [cutAfter] using hstart, ?_⟩
      simp only [cutAfter, Bool.true_and]
      split
      · rename_i hc
        rw [hblanks, words_cons hc]
      · obtain ⟨q, qs, hq, hqs⟩ := hstart
        rw [hq, List.flatMap_cons]
        rcases hqs with ⟨rfl, hall⟩ | ⟨b, t, hb, hall, hwords⟩
        · rw [← hall]
          simp
        · rw [hall, words_append hb, hwords]

/-- **Cutting keeps the words.** -/
theorem words_cutAfter (mark : Char → Bool) (s : Str) :
    (cutAfter mark false s).flatMap words = words s := by
  obtain ⟨p, ps, hcut, hrest⟩ := (cutAfter_spec mark s).1
  rw [hcut, List.flatMap_cons]
  rcases hrest with ⟨rfl, rfl⟩ | ⟨b, t, hb, rfl, hwords⟩
  · simp
  · rw [words_append hb, hwords]

end MesReunions.Str
