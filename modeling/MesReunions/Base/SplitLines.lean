import MesReunions.Base.Lines
import MesReunions.Base.Split

/-!
# Line breaks of every kind

`text.splitlines()`, which knows more line breaks than `split("\n")` and leaves out the empty line
behind the last one.

* `not_isBreak_of_mem` — a line holds no line break.
* **`splitlines_joinLines`** — lines that were joined, and ended with a line break, come back.
-/

namespace MesReunions.Str

/-- What `splitlines` breaks at. -/
def isBreak (c : Char) : Bool :=
  let n := c.toNat
  (10 ≤ n && n ≤ 13) || (28 ≤ n && n ≤ 30) || n == 0x85 || n == 0x2028 || n == 0x2029

/-- `text.splitlines()` -/
def splitlines : Str → List Str
  | [] => []
  | '\r' :: '\n' :: s => [] :: splitlines s
  | c :: s => if isBreak c then [] :: splitlines s else prepend c (splitlines s)

/-- The text holds no line break. -/
def Unbroken (s : Str) : Prop := ∀ c ∈ s, isBreak c = false

theorem isSpace_of_isBreak {c : Char} (h : isBreak c = true) : isSpace c = true := by
  simp only [isBreak, Bool.or_eq_true, Bool.and_eq_true, decide_eq_true_eq, beq_iff_eq] at h
  simp only [isSpace, Bool.or_eq_true, Bool.and_eq_true, decide_eq_true_eq, beq_iff_eq]
  omega

theorem splitlines_break {c : Char} (h : isBreak c = true) (hr : c ≠ '\r') (s : Str) :
    splitlines (c :: s) = [] :: splitlines s := by
  rw [splitlines, if_pos h]
  rintro s' rfl
  exact absurd rfl hr

theorem splitlines_cons {c : Char} (h : isBreak c = false) (s : Str) :
    splitlines (c :: s) = prepend c (splitlines s) := by
  rw [splitlines, if_neg (by simp [h])]
  rintro s' rfl
  exact absurd h (by decide)

theorem unbroken_of_mem_prepend {c : Char} (hc : isBreak c = false) {ls : List Str}
    (h : ∀ l ∈ ls, Unbroken l) : ∀ l ∈ prepend c ls, Unbroken l := by
  cases ls with
  | nil =>
      intro l hl
      obtain rfl := List.mem_singleton.mp hl
      intro d hd
      obtain rfl := List.mem_singleton.mp hd
      exact hc
  | cons l₀ ls =>
      intro l hl d hd
      rcases List.mem_cons.mp hl with rfl | hl
      · rcases List.mem_cons.mp hd with rfl | hd
        · exact hc
        · exact h l₀ List.mem_cons_self d hd
      · exact h l (List.mem_cons_of_mem _ hl) d hd

/-- A line holds no line break. -/
theorem unbroken_of_mem_splitlines (text : Str) : ∀ l ∈ splitlines text, Unbroken l := by
  fun_induction splitlines text with
  | case1 => exact fun l h => absurd h List.not_mem_nil
  | case2 s ih =>
      intro l hl
      rcases List.mem_cons.mp hl with rfl | hl
      · exact fun d hd => absurd hd List.not_mem_nil
      · exact ih l hl
  | case3 c s _ _ ih =>
      intro l hl
      rcases List.mem_cons.mp hl with rfl | hl
      · exact fun d hd => absurd hd List.not_mem_nil
      · exact ih l hl
  | case4 c s _ hc ih => exact unbroken_of_mem_prepend (by simpa using hc) ih

/-- A line is read up to its end. -/
theorem splitlines_append {l : Str} (h : Unbroken l) (s : Str) :
    splitlines (l ++ '\n' :: s) = l :: splitlines s := by
  induction l with
  | nil => exact splitlines_break (by decide) (by decide) s
  | cons c l ih =>
      have hl : Unbroken l := fun d hd => h d (List.mem_cons_of_mem _ hd)
      rw [List.cons_append, splitlines_cons (h c List.mem_cons_self), ih hl]
      rfl

/-- **Joined lines come back.** -/
theorem splitlines_joinLines {ls : List Str} (hne : ls ≠ []) (h : ∀ l ∈ ls, Unbroken l) :
    splitlines (joinLines ls ++ ['\n']) = ls := by
  induction ls with
  | nil => exact absurd rfl hne
  | cons l ls ih =>
      have hl := h l List.mem_cons_self
      by_cases hls : ls = []
      · subst hls
        rw [joinLines_singleton, splitlines_append hl]
        rfl
      · rw [joinLines_cons hls, List.append_assoc, List.cons_append, splitlines_append hl,
          ih hls fun x hx => h x (List.mem_cons_of_mem _ hx)]

end MesReunions.Str
