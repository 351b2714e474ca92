import MesReunions.Base.Str

/-!
# Lines

`text.split("\n")` and `"\n".join(lines)`, and what stripping a text does to the
lines of it.

* **`lines_append`** — a line break splits the lines.
* **`lines_rstrip`** — stripping the end of a text strips one line and drops blank
  ones after it.
-/

namespace MesReunions.Str

/-- `text.split("\n")` -/
def lines (text : Str) : List Str := text.splitOn '\n'

/-- `"\n".join(ls)` -/
def joinLines (ls : List Str) : Str := ['\n'].intercalate ls

@[simp] theorem lines_nil : lines [] = [[]] := by simp [lines]

theorem lines_ne_nil (s : Str) : lines s ≠ [] := List.splitOn_ne_nil _ _

theorem lines_append (s t : Str) : lines (s ++ '\n' :: t) = lines s ++ lines t :=
  List.splitOn_append_cons_self s t

theorem lines_of_not_mem {s : Str} (h : '\n' ∉ s) : lines s = [s] :=
  List.splitOn_eq_singleton h

theorem lines_cons_of_not_mem {s : Str} (h : '\n' ∉ s) (t : Str) :
    lines (s ++ '\n' :: t) = s :: lines t := by
  rw [lines_append, lines_of_not_mem h, List.singleton_append]

/-- What is written at the front goes to the first line. -/
theorem lines_cons {c : Char} (h : c ≠ '\n') (s : Str) :
    ∃ l ls, lines s = l :: ls ∧ lines (c :: s) = (c :: l) :: ls := by
  obtain ⟨l, ls, hls⟩ := List.exists_cons_of_ne_nil (lines_ne_nil s)
  refine ⟨l, ls, hls, ?_⟩
  rw [lines, List.splitOn_cons_eq_if_modifyHead, if_neg (by simpa using h), ← lines, hls,
    List.modifyHead_cons]

@[simp] theorem joinLines_lines (s : Str) : joinLines (lines s) = s :=
  List.intercalate_splitOn '\n'

@[simp] theorem joinLines_nil : joinLines [] = [] := rfl

@[simp] theorem joinLines_singleton (l : Str) : joinLines [l] = l := by
  simp [joinLines, List.intercalate]

theorem joinLines_cons {ls : List Str} (h : ls ≠ []) (l : Str) :
    joinLines (l :: ls) = l ++ '\n' :: joinLines ls := by
  simp [joinLines, List.intercalate_cons_of_ne_nil h]

theorem lines_joinLines {ls : List Str} (h : ls ≠ []) :
    lines (joinLines ls) = ls.flatMap lines := by
  induction ls with
  | nil => exact absurd rfl h
  | cons l ls ih =>
      by_cases hls : ls = []
      · subst hls
        simp
      · rw [joinLines_cons hls, lines_append, ih hls, List.flatMap_cons]

/-- What is written at the end goes to the last line. -/
theorem exists_lastLine (s : Str) : ∃ pre last, lines s = pre ++ [last] ∧
    ∀ t, '\n' ∉ t → lines (s ++ t) = pre ++ [last ++ t] := by
  induction s using List.reverseRecOn with
  | nil => exact ⟨[], [], lines_nil, fun t ht => lines_of_not_mem ht⟩
  | append_singleton s c ih =>
      obtain ⟨pre, last, hs, ht⟩ := ih
      by_cases hc : c = '\n'
      · subst hc
        refine ⟨pre ++ [last], [], by rw [lines_append, hs, lines_nil], fun t hn => ?_⟩
        rw [List.append_assoc, List.singleton_append, lines_append, hs, lines_of_not_mem hn,
          List.nil_append]
      · have hc' : '\n' ∉ [c] := by simpa using Ne.symm hc
        refine ⟨pre, last ++ [c], ht [c] hc', fun t hn => ?_⟩
        rw [List.append_assoc, ht _ (by simpa [hn] using hc'), List.append_assoc]

theorem not_mem_of_mem_lines {s l : Str} (h : l ∈ lines s) : '\n' ∉ l := by
  induction s using List.reverseRecOn generalizing l with
  | nil => rw [lines_nil, List.mem_singleton] at h; simp [h]
  | append_singleton s c ih =>
      obtain ⟨pre, last, hs, ht⟩ := exists_lastLine s
      rw [hs] at ih
      by_cases hc : c = '\n'
      · rw [hc, lines_append, hs, lines_nil, List.mem_append, List.mem_singleton] at h
        rcases h with h | rfl
        · exact ih h
        · simp
      · rw [ht [c] (by simpa using Ne.symm hc), List.mem_append, List.mem_singleton] at h
        rcases h with h | rfl
        · exact ih (List.mem_append_left _ h)
        · have hlast : '\n' ∉ last := ih (by simp)
          simpa [hlast] using Ne.symm hc

/-- **Stripping a text.** One line is stripped, and blank lines after it go. -/
theorem lines_rstrip (s : Str) : ∃ k,
    (lines s).map rstrip = (lines (rstrip s)).map rstrip ++ List.replicate k [] := by
  induction s using List.reverseRecOn with
  | nil => exact ⟨0, by simp⟩
  | append_singleton s c ih =>
      cases hc : isSpace c with
      | false => exact ⟨0, by rw [rstrip_concat_of_not hc]; simp⟩
      | true =>
          obtain ⟨k, hk⟩ := ih
          rw [rstrip_concat_of_space hc]
          by_cases hn : c = '\n'
          · subst hn
            refine ⟨k + 1, ?_⟩
            rw [lines_append, List.map_append, hk, List.append_assoc, lines_nil, List.map_singleton,
              rstrip_nil, ← List.replicate_succ']
          · obtain ⟨pre, last, hs, ht⟩ := exists_lastLine s
            refine ⟨k, ?_⟩
            rw [← hk, ht [c] (by simpa using Ne.symm hn), hs]
            simp [rstrip_concat_of_space hc]

end MesReunions.Str
