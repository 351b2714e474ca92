import MesReunions.Base.Scan
import MesReunions.Base.SplitLines

/-!
# The word characters of a text

Its letters and digits, and the underscores between them: an underscore at an end of a word is
decoration.

* `wordChars_append`, `wordChars_strip`, `wordChars_splitlines` — what stands between words does
  not count.
* **`wordChars_kept`** — characters that are not letters are taken out: the word characters stay
  the same exactly when every gap between two letters is `Even`.
-/

namespace MesReunions.Str

/-- `str.isalnum`, for one character. -/
structure Letters where
  isalnum : Char → Bool
  blank : ∀ c, isSpace c = true → isalnum c = false
  underscore : isalnum '_' = false

variable (t : Letters)

/-- The word characters; `pending` counts the underscores since the last letter, when nothing
else has come since. -/
def wordFrom : (pending : Option Nat) → Str → Str
  | _, [] => []
  | pending, c :: s =>
      if t.isalnum c then List.replicate (pending.getD 0) '_' ++ c :: wordFrom (some 0) s
      else if c = '_' then wordFrom (pending.map (· + 1)) s
      else wordFrom none s

def wordChars (s : Str) : Str := wordFrom t none s

variable {t}

/-! ## Between words -/

theorem wordFrom_none_of_not {p : Str} (hp : ∀ c ∈ p, t.isalnum c = false) (s : Str) :
    wordFrom t none (p ++ s) = wordFrom t none s := by
  induction p with
  | nil => rfl
  | cons c p ih =>
      have hrest := ih fun d hd => hp d (List.mem_cons_of_mem _ hd)
      rw [List.cons_append, wordFrom, if_neg (by simp [hp c List.mem_cons_self])]
      split <;> exact hrest

theorem wordFrom_of_not {p : Str} (hp : ∀ c ∈ p, t.isalnum c = false) (pending : Option Nat) :
    wordFrom t pending p = [] := by
  induction p generalizing pending with
  | nil => rfl
  | cons c p ih =>
      have hrest := fun q => ih (fun d hd => hp d (List.mem_cons_of_mem _ hd)) q
      rw [wordFrom, if_neg (by simp [hp c List.mem_cons_self])]
      split <;> exact hrest _

theorem wordFrom_append_not (s : Str) {p : Str} (hp : ∀ c ∈ p, t.isalnum c = false)
    (pending : Option Nat) : wordFrom t pending (s ++ p) = wordFrom t pending s := by
  induction s generalizing pending with
  | nil => exact wordFrom_of_not hp pending
  | cons c s ih =>
      rw [List.cons_append, wordFrom, wordFrom, ih, ih, ih]

/-- A character that no word holds sets words apart. -/
theorem wordFrom_append {c : Char} (hc : t.isalnum c = false) (hu : c ≠ '_') (a b : Str)
    (pending : Option Nat) :
    wordFrom t pending (a ++ c :: b) = wordFrom t pending a ++ wordFrom t none b := by
  induction a generalizing pending with
  | nil => simp [wordFrom, hc, hu]
  | cons d a ih =>
      rw [List.cons_append, wordFrom, wordFrom, ih, ih, ih]
      split
      · rw [List.append_assoc, List.cons_append]
      · split <;> rfl

theorem wordChars_append {c : Char} (hc : t.isalnum c = false) (hu : c ≠ '_') (a b : Str) :
    wordChars t (a ++ c :: b) = wordChars t a ++ wordChars t b := wordFrom_append hc hu a b none

theorem blank_ne_underscore {c : Char} (h : isSpace c = true) : c ≠ '_' := by
  rintro rfl
  exact absurd h (by decide)

theorem wordChars_lstrip (s : Str) : wordChars t (lstrip s) = wordChars t s := by
  have hblank : ∀ c ∈ s.takeWhile isSpace, t.isalnum c = false :=
    fun c hc => t.blank c (List.mem_takeWhile_imp hc)
  have h := wordFrom_none_of_not hblank (lstrip s)
  rw [lstrip, List.takeWhile_append_dropWhile] at h
  exact h.symm

theorem wordChars_rstrip (s : Str) : wordChars t (rstrip s) = wordChars t s := by
  induction s using List.reverseRecOn with
  | nil => simp
  | append_singleton s c ih =>
      cases hc : isSpace c with
      | false => rw [rstrip_concat_of_not hc]
      | true =>
          rw [rstrip_concat_of_space hc, ih]
          exact (wordFrom_append_not s (by simpa using t.blank c hc) none).symm

theorem wordChars_strip (s : Str) : wordChars t (strip s) = wordChars t s := by
  rw [strip, wordChars_rstrip, wordChars_lstrip]

theorem isalnum_of_isBreak {c : Char} (h : isBreak c = true) :
    t.isalnum c = false ∧ c ≠ '_' :=
  ⟨t.blank c (isSpace_of_isBreak h), blank_ne_underscore (isSpace_of_isBreak h)⟩

/-- The lines, the first of which may go on with a word. -/
theorem wordFrom_splitlines (text : Str) (pending : Option Nat) :
    wordFrom t pending text = wordFrom t pending ((splitlines text).headD []) ++
      (splitlines text).tail.flatMap (wordChars t) := by
  have hall : ∀ ls : List Str, wordFrom t none (ls.headD []) ++ ls.tail.flatMap (wordChars t) =
      ls.flatMap (wordChars t) := by
    intro ls
    cases ls with
    | nil => rfl
    | cons l ls => rfl
  fun_induction splitlines text generalizing pending with
  | case1 => rfl
  | case2 s ih =>
      obtain ⟨hr, hru⟩ := isalnum_of_isBreak (t := t) (c := '\r') (by decide)
      obtain ⟨hn, hnu⟩ := isalnum_of_isBreak (t := t) (c := '\n') (by decide)
      have hskip : wordFrom t pending ('\r' :: '\n' :: s) = wordFrom t none s := by
        simp [wordFrom, hr, hn]
      rw [hskip, ih none, hall]
      rfl
  | case3 c s _ hc ih =>
      obtain ⟨hn, hu⟩ := isalnum_of_isBreak (t := t) hc
      have hskip : wordFrom t pending (c :: s) = wordFrom t none s := by
        simp [wordFrom, hn, hu]
      rw [hskip, ih none, hall]
      rfl
  | case4 c s _ _ ih =>
      have hhead : (prepend c (splitlines s)).headD [] = c :: (splitlines s).headD [] := by
        cases splitlines s <;> rfl
      have htail : (prepend c (splitlines s)).tail = (splitlines s).tail := by
        cases splitlines s <;> rfl
      rw [hhead, htail, wordFrom, wordFrom]
      split
      · rw [ih, List.append_assoc, List.cons_append]
      · split
        · exact ih _
        · exact ih none

/-- **The words of a text are those of its lines.** -/
theorem wordChars_splitlines (text : Str) :
    wordChars t text = (splitlines text).flatMap (wordChars t) := by
  rw [wordChars, wordFrom_splitlines]
  cases splitlines text with
  | nil => rfl
  | cons l ls => rfl

theorem wordChars_joinLines (ls : List Str) :
    wordChars t (joinLines ls) = ls.flatMap (wordChars t) := by
  induction ls with
  | nil => rfl
  | cons l ls ih =>
      by_cases hls : ls = []
      · subst hls
        simp
      · obtain ⟨hn, hu⟩ := isalnum_of_isBreak (t := t) (c := '\n') (by decide)
        rw [joinLines_cons hls, wordChars_append hn hu, ih, List.flatMap_cons]

/-! ## Taking characters out -/

/-- The characters of a text, and whether they are kept. -/
abbrev Marked := List (Char × Bool)

def Marked.text (m : Marked) : Str := m.map (·.1)

/-- What is kept. -/
def Marked.kept (m : Marked) : Str := (m.filter (·.2)).map (·.1)

/-- What stands between two letters in a row. -/
def gaps (t : Letters) : (open? : Option Marked) → Marked → List Marked
  | _, [] => []
  | open?, x :: m =>
      if t.isalnum x.1 then open?.toList ++ gaps t (some []) m
      else gaps t (open?.map (· ++ [x])) m

/-- A gap of underscores is kept, and the underscores of another one are not left alone. -/
def EvenGap (g : Marked) : Prop :=
  ((∀ x ∈ g, x.1 = '_') → ∀ x ∈ g, x.2 = true) ∧
    ((∃ x ∈ g, x.1 ≠ '_') → '_' ∈ g.kept → ∃ c ∈ g.kept, c ≠ '_')

/-- The underscores of a gap, if there is nothing else. -/
def pendingOf (s : Str) : Option Nat := if s.all (· == '_') then some s.length else none

theorem pendingOf_append (s : Str) (c : Char) :
    pendingOf (s ++ [c]) = if c = '_' then (pendingOf s).map (· + 1) else none := by
  by_cases hc : c = '_'
  · subst hc
    by_cases hs : s.all (· == '_') = true
    · simp [pendingOf, hs]
    · simp [pendingOf, hs]
  · simp [pendingOf, hc]

theorem wordFrom_gap {c : Char} (hc : t.isalnum c = false) (o : Option Str) (s : Str) :
    wordFrom t (o.bind pendingOf) (c :: s) =
      wordFrom t ((o.map (· ++ [c])).bind pendingOf) s := by
  cases o with
  | none => simp [wordFrom, hc]
  | some g =>
      have h : wordFrom t (pendingOf g) (c :: s) = wordFrom t (pendingOf (g ++ [c])) s := by
        rw [wordFrom, if_neg (by simp [hc]), pendingOf_append]
        split <;> rfl
      exact h

theorem evenGap_iff (g : Marked) :
    EvenGap g ↔ (pendingOf g.text).getD 0 = (pendingOf g.kept).getD 0 := by
  by_cases hall : ∀ x ∈ g, x.1 = '_'
  · have htext : g.text.all (· == '_') = true := by
      simpa [Marked.text] using hall
    have hkept : g.kept.all (· == '_') = true := by
      simp only [Marked.kept, List.all_map, List.all_eq_true, List.mem_filter]
      intro x hx
      simpa using hall x hx.1
    rw [pendingOf, pendingOf, if_pos htext, if_pos hkept]
    have hlen : g.text.length = g.kept.length ↔ ∀ x ∈ g, x.2 = true := by
      rw [Marked.text, Marked.kept, List.length_map, List.length_map, eq_comm,
        List.length_filter_eq_length_iff]
    refine ⟨fun h => hlen.mpr (h.1 hall), fun h => ⟨fun _ => hlen.mp h, ?_⟩⟩
    rintro ⟨x, hx, hne⟩
    exact absurd (hall x hx) hne
  · have htext : ¬ g.text.all (· == '_') = true := by
      simpa [Marked.text] using hall
    rw [pendingOf, if_neg htext, Option.getD_none]
    have hother : ∃ x ∈ g, x.1 ≠ '_' := by
      push Not at hall
      exact hall
    constructor
    · rintro ⟨-, h⟩
      rw [pendingOf]
      split
      · rename_i hkept
        have hempty : g.kept = [] := by
          by_contra hne
          obtain ⟨c, hc⟩ := List.exists_mem_of_ne_nil _ hne
          have hk := fun d hd => by simpa using List.all_eq_true.mp hkept d hd
          obtain ⟨d, hd, hdne⟩ := h hother (hk c hc ▸ hc)
          exact hdne (hk d hd)
        rw [hempty]
        rfl
      · rfl
    · intro h
      refine ⟨fun hu => absurd hu hall, fun _ hmem => ?_⟩
      by_contra hnone
      have hkept : g.kept.all (· == '_') = true := by
        simpa using hnone
      rw [pendingOf, if_pos hkept] at h
      have := List.length_pos_of_mem hmem
      exact absurd h (by simp; omega)

/-- Texts with the same letters, up to the first. -/
theorem replicate_append_inj {c : Char} (hc : c ≠ '_') {k k' : Nat} {a b : Str} :
    List.replicate k '_' ++ c :: a = List.replicate k' '_' ++ c :: b ↔ k = k' ∧ a = b := by
  constructor
  · intro h
    have hinj := Scan.append_inj_of_stop (p := (· == '_')) (by simp) (by simp [hc]) (by simp)
      (by simp [hc]) h
    refine ⟨?_, (List.cons.inj hinj.2).2⟩
    simpa using congrArg List.length hinj.1
  · rintro ⟨rfl, rfl⟩
    rfl

/-- **Taking out what is not a letter** leaves the word characters, and what comes after them,
exactly when every gap is even. -/
theorem wordFrom_kept {m : Marked} (hm : ∀ x ∈ m, t.isalnum x.1 = true → x.2 = true)
    (open? : Option Marked) (A B : Str) :
    wordFrom t ((open?.map Marked.text).bind pendingOf) m.text ++ A =
      wordFrom t ((open?.map Marked.kept).bind pendingOf) m.kept ++ B ↔
        (∀ g ∈ gaps t open? m, EvenGap g) ∧ A = B := by
  induction m generalizing open? with
  | nil => simp [gaps, Marked.text, Marked.kept, wordFrom]
  | cons x m ih =>
      have hrest := ih fun y hy => hm y (List.mem_cons_of_mem _ hy)
      by_cases hx : t.isalnum x.1 = true
      · have hkeep := hm x List.mem_cons_self hx
        have hu : x.1 ≠ '_' := by
          intro h
          rw [h, t.underscore] at hx
          cases hx
        have htext : Marked.text (x :: m) = x.1 :: Marked.text m := rfl
        have hkept : Marked.kept (x :: m) = x.1 :: Marked.kept m := by simp [Marked.kept, hkeep]
        have hgap : ((open?.map Marked.text).bind pendingOf).getD 0 =
            ((open?.map Marked.kept).bind pendingOf).getD 0 ↔
              ∀ g ∈ open?.toList, EvenGap g := by
          cases open? with
          | none => simp
          | some g => simpa using (evenGap_iff g).symm
        have hstart : wordFrom t (some 0) (Marked.text m) ++ A =
            wordFrom t (some 0) (Marked.kept m) ++ B ↔
              (∀ g ∈ gaps t (some []) m, EvenGap g) ∧ A = B := hrest (some [])
        rw [htext, hkept, wordFrom, wordFrom, if_pos hx, if_pos hx, gaps, if_pos hx,
          List.append_assoc, List.append_assoc, List.cons_append, List.cons_append,
          replicate_append_inj hu, hgap, hstart, List.forall_mem_append, and_assoc]
      · have hnot : t.isalnum x.1 = false := by simpa using hx
        have htext : wordFrom t ((open?.map Marked.text).bind pendingOf) (Marked.text (x :: m)) =
            wordFrom t (((open?.map (· ++ [x])).map Marked.text).bind pendingOf)
              (Marked.text m) := by
          have h := wordFrom_gap hnot (open?.map Marked.text) (Marked.text m)
          cases open? <;> simpa [Marked.text] using h
        have hkept : wordFrom t ((open?.map Marked.kept).bind pendingOf) (Marked.kept (x :: m)) =
            wordFrom t (((open?.map (· ++ [x])).map Marked.kept).bind pendingOf)
              (Marked.kept m) := by
          cases hk : x.2 with
          | true =>
              have h := wordFrom_gap hnot (open?.map Marked.kept) (Marked.kept m)
              cases open? <;> simpa [Marked.kept, hk] using h
          | false => cases open? <;> simp [Marked.kept, hk]
        rw [htext, hkept, gaps, if_neg hx]
        exact hrest _

end MesReunions.Str
