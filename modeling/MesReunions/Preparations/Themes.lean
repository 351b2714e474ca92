import MesReunions.Base.Json
import MesReunions.Base.Ranking

/-!
# The themes of the preparations

What `create_preparation` and `amend_preparation` keep of a list of themes, and the count of
`list_themes_suggestions`.

* `Clean` — at most fifty themes, stripped, none empty, no two alike in small letters.
* `cleaned_clean` — the loop keeps such a list.
* `suggestions` — the themes of some preparations, the most used first.
* **`suggests_suggestions`** — each theme is counted once for each preparation that has it, and what
  is left out is used no more than what is shown.
-/

namespace MesReunions.Preparations.Themes

open Str Json

variable (lower : Str → Str)

/-! ## The themes of a preparation -/

/-- `for t in themes_raw`, with the sets `seen_lc` and `cleaned`. -/
def collect : List Json → (seen cleaned : List Str) → List Str
  | [], _, cleaned => cleaned
  | .str t :: ts, seen, cleaned =>
      let s := strip t
      if s = [] then collect ts seen cleaned
      else
        let lc := lower s
        if lc ∈ seen then collect ts seen cleaned
        else if 50 ≤ (cleaned ++ [s]).length then cleaned ++ [s]
        else collect ts (lc :: seen) (cleaned ++ [s])
  | _ :: ts, seen, cleaned => collect ts seen cleaned

/-- The themes that are kept. -/
def cleaned (items : List Json) : List Str := collect lower items [] []

/-- Themes that can be stored. -/
structure Clean (themes : List Str) : Prop where
  length : themes.length ≤ 50
  stripped : ∀ t ∈ themes, strip t = t ∧ t ≠ []
  distinct : (themes.map lower).Nodup

variable {lower}

theorem clean_nil : Clean lower [] := ⟨Nat.zero_le _, nofun, List.nodup_nil⟩

/-- One more theme. -/
theorem Clean.concat {themes : List Str} (h : Clean lower themes) {s : Str} (hs : strip s ≠ [])
    (hnew : lower (strip s) ∉ themes.map lower) (hroom : themes.length < 50) :
    Clean lower (themes ++ [strip s]) where
  length := by
    rw [List.length_append]
    exact hroom
  stripped := by
    intro t ht
    rcases List.mem_append.mp ht with ht | ht
    · exact h.stripped t ht
    · rw [List.mem_singleton.mp ht]
      exact ⟨strip_strip s, hs⟩
  distinct := by
    rw [List.map_append, List.nodup_append]
    refine ⟨h.distinct, List.nodup_singleton _, ?_⟩
    intro a ha b hb hab
    apply hnew
    rw [← List.mem_singleton.mp hb, ← hab]
    exact ha

theorem collect_clean : ∀ (items : List Json) {seen kept : List Str}, Clean lower kept →
    kept.length < 50 → (∀ lc, lc ∈ seen ↔ lc ∈ kept.map lower) →
    Clean lower (collect lower items seen kept) := by
  intro items
  induction items with
  | nil => exact fun h _ _ => h
  | cons t ts ih =>
      intro seen kept h hroom hseen
      cases t with
      | str t =>
          rw [collect]
          dsimp only
          split
          · exact ih h hroom hseen
          · rename_i hs
            split
            · exact ih h hroom hseen
            · rename_i hnew
              have hkept := h.concat hs (fun hmem => hnew ((hseen _).mpr hmem)) hroom
              split
              · exact hkept
              · rename_i hfull
                refine ih hkept (not_le.mp hfull) fun lc => ?_
                rw [List.mem_cons, hseen lc, List.map_append, List.mem_append, or_comm]
                exact or_congr_right List.mem_singleton.symm
      | null => exact ih h hroom hseen
      | bool b => exact ih h hroom hseen
      | int n => exact ih h hroom hseen
      | float x => exact ih h hroom hseen
      | list l => exact ih h hroom hseen
      | obj fields => exact ih h hroom hseen

theorem cleaned_clean (items : List Json) : Clean lower (cleaned lower items) :=
  collect_clean items clean_nil (by decide) fun _ => Iff.rfl

variable (lower)

/-! ## The count -/

/-- An entry of `counter` and `canonical`. -/
structure Tally where
  key : Str
  label : Str
  count : Nat

/-- `canonical.setdefault(lc, s)` and `counter[lc] += 1` -/
def bump (lc s : Str) : List Tally → List Tally
  | [] => [⟨lc, s, 1⟩]
  | e :: es => if e.key = lc then { e with count := e.count + 1 } :: es else e :: bump lc s es

/-- The body of the loop. -/
def countTheme (entries : List Tally) (t : Str) : List Tally :=
  let s := strip t
  if s = [] then entries else bump (lower s) s entries

/-- `counter.most_common(30)`, with the labels; `rows` are the themes of each preparation. -/
def suggestions (rows : List (List Str)) : List (Str × Nat) :=
  ((Ranking.ranked (·.count) (rows.flatten.foldl (countTheme lower) [])).take 30).map fun e =>
    (e.label, e.count)

variable {lower}

/-- The entries count the themes that were gone over. -/
structure Tallied (lower : Str → Str) (seen : List Str) (entries : List Tally) : Prop where
  keys : (entries.map (·.key)).Nodup
  label : ∀ e ∈ entries, e.label ∈ seen ∧ lower e.label = e.key
  count : ∀ e ∈ entries, e.count = seen.countP fun t => lower t = e.key
  covers : ∀ t ∈ seen, ∃ e ∈ entries, e.key = lower t

theorem keys_bump (lc s : Str) (entries : List Tally) :
    (bump lc s entries).map (·.key) =
      if lc ∈ entries.map (·.key) then entries.map (·.key) else entries.map (·.key) ++ [lc] := by
  induction entries with
  | nil => rfl
  | cons e es ih =>
      rw [bump]
      by_cases heq : e.key = lc
      · rw [if_pos heq, if_pos (List.mem_map.mpr ⟨e, List.mem_cons_self, heq⟩)]
        rfl
      · rw [if_neg heq, List.map_cons, List.map_cons, ih]
        have hmem : lc ∈ e.key :: es.map (·.key) ↔ lc ∈ es.map (·.key) := by
          rw [List.mem_cons]
          exact or_iff_right (Ne.symm heq)
        by_cases hin : lc ∈ es.map (·.key)
        · rw [if_pos hin, if_pos (hmem.mpr hin)]
        · rw [if_neg hin, if_neg (mt hmem.mp hin)]
          rfl

/-- An entry after a count: another one, the one of the key with one more, or a new one. -/
theorem mem_bump {lc s : Str} {e : Tally} : ∀ {entries : List Tally},
    (entries.map (·.key)).Nodup → e ∈ bump lc s entries →
      (e ∈ entries ∧ e.key ≠ lc) ∨
      (∃ e' ∈ entries, e'.key = lc ∧ e = { e' with count := e'.count + 1 }) ∨
      (e = ⟨lc, s, 1⟩ ∧ lc ∉ entries.map (·.key)) := by
  intro entries
  induction entries with
  | nil => exact fun _ he => Or.inr (Or.inr ⟨List.mem_singleton.mp he, List.not_mem_nil⟩)
  | cons e' es ih =>
      intro hnodup he
      rw [List.map_cons, List.nodup_cons] at hnodup
      rw [bump] at he
      split at he
      · rename_i heq
        rcases List.mem_cons.mp he with rfl | he
        · exact Or.inr (Or.inl ⟨e', List.mem_cons_self, heq, rfl⟩)
        · refine Or.inl ⟨List.mem_cons_of_mem _ he, fun hkey => hnodup.1 ?_⟩
          exact List.mem_map.mpr ⟨e, he, hkey.trans heq.symm⟩
      · rename_i hne
        rcases List.mem_cons.mp he with rfl | he
        · exact Or.inl ⟨List.mem_cons_self, hne⟩
        · rcases ih hnodup.2 he with ⟨hmem, hkey⟩ | ⟨e'', hmem, hkey, heq⟩ | ⟨heq, hnot⟩
          · exact Or.inl ⟨List.mem_cons_of_mem _ hmem, hkey⟩
          · exact Or.inr (Or.inl ⟨e'', List.mem_cons_of_mem _ hmem, hkey, heq⟩)
          · refine Or.inr (Or.inr ⟨heq, fun hmem => ?_⟩)
            rcases List.mem_cons.mp hmem with heq | hmem
            · exact hne heq.symm
            · exact hnot hmem

/-- One theme more is counted. -/
theorem Tallied.step {seen : List Str} {entries : List Tally} (h : Tallied lower seen entries)
    {t : Str} (ht : strip t = t ∧ t ≠ []) :
    Tallied lower (seen ++ [t]) (countTheme lower entries t) := by
  have hbump : countTheme lower entries t = bump (lower t) t entries := by
    rw [countTheme, ht.1, if_neg ht.2]
  have hcount : ∀ key : Str, (seen ++ [t]).countP (fun u => lower u = key) =
      seen.countP (fun u => lower u = key) + if lower t = key then 1 else 0 := by
    intro key
    rw [List.countP_append, List.countP_singleton]
    simp only [decide_eq_true_eq]
  rw [hbump]
  refine ⟨?_, ?_, ?_, ?_⟩
  · rw [keys_bump]
    split
    · exact h.keys
    · rename_i hnew
      rw [List.nodup_append]
      refine ⟨h.keys, List.nodup_singleton _, ?_⟩
      intro a ha b hb hab
      rw [List.mem_singleton.mp hb] at hab
      exact hnew (hab ▸ ha)
  · intro e he
    rcases mem_bump h.keys he with ⟨hmem, -⟩ | ⟨e', hmem, -, rfl⟩ | ⟨rfl, -⟩
    · exact ⟨List.mem_append_left _ (h.label e hmem).1, (h.label e hmem).2⟩
    · exact ⟨List.mem_append_left _ (h.label e' hmem).1, (h.label e' hmem).2⟩
    · exact ⟨List.mem_append_right _ List.mem_cons_self, rfl⟩
  · intro e he
    rw [hcount]
    rcases mem_bump h.keys he with ⟨hmem, hne⟩ | ⟨e', hmem, hkey, rfl⟩ | ⟨rfl, hnot⟩
    · rw [if_neg (Ne.symm hne), h.count e hmem]
      rfl
    · rw [if_pos hkey.symm, ← h.count e' hmem]
    · have hzero : seen.countP (fun u => lower u = lower t) = 0 := by
        rw [List.countP_eq_zero]
        intro u hu heq
        obtain ⟨e, hmem, hkey⟩ := h.covers u hu
        rw [decide_eq_true_eq] at heq
        exact hnot (List.mem_map.mpr ⟨e, hmem, hkey.trans heq⟩)
      rw [if_pos rfl, hzero]
  · intro u hu
    have hkey : lower u ∈ (bump (lower t) t entries).map (·.key) := by
      rw [keys_bump]
      rcases List.mem_append.mp hu with hu | hu
      · obtain ⟨e, hmem, hkey⟩ := h.covers u hu
        have hin : lower u ∈ entries.map (·.key) := List.mem_map.mpr ⟨e, hmem, hkey⟩
        split
        · exact hin
        · exact List.mem_append_left _ hin
      · rw [List.mem_singleton.mp hu]
        split
        · rename_i hin
          exact hin
        · exact List.mem_append_right _ List.mem_cons_self
    exact List.mem_map.mp hkey

theorem tallied_foldl : ∀ {themes seen : List Str} {entries : List Tally},
    Tallied lower seen entries → (∀ t ∈ themes, strip t = t ∧ t ≠ []) →
    Tallied lower (seen ++ themes) (themes.foldl (countTheme lower) entries) := by
  intro themes
  induction themes with
  | nil =>
      intro seen entries h _
      rw [List.append_nil]
      exact h
  | cons t ts ih =>
      intro seen entries h hthemes
      have hstep := h.step (hthemes t List.mem_cons_self)
      have hrest := ih hstep fun u hu => hthemes u (List.mem_cons_of_mem _ hu)
      rw [List.append_assoc] at hrest
      exact hrest

/-! ## The suggestions -/

/-- The preparations that have a theme. -/
def uses (lower : Str → Str) (rows : List (List Str)) (t : Str) : Nat :=
  rows.countP fun themes => lower t ∈ themes.map lower

/-- The most used themes of some preparations. -/
structure Suggests (lower : Str → Str) (rows : List (List Str)) (shown : List (Str × Nat)) :
    Prop where
  length : shown.length ≤ 30
  distinct : (shown.map fun e => lower e.1).Nodup
  ordered : shown.Pairwise fun e e' => e'.2 ≤ e.2
  count : ∀ e ∈ shown, (∃ themes ∈ rows, e.1 ∈ themes) ∧ e.2 = uses lower rows e.1
  rest : ∀ themes ∈ rows, ∀ t ∈ themes, lower t ∉ shown.map (fun e => lower e.1) →
    shown.length = 30 ∧ ∀ e ∈ shown, uses lower rows t ≤ e.2

/-- Where no preparation has a theme twice, a theme is counted once for each that has it. -/
theorem countP_flatten_eq {rows : List (List Str)} (h : ∀ themes ∈ rows, (themes.map lower).Nodup)
    (key : Str) : rows.flatten.countP (fun t => lower t = key) =
      rows.countP fun themes => key ∈ themes.map lower := by
  induction rows with
  | nil => rfl
  | cons themes rows ih =>
      have ih := ih fun ts hts => h ts (List.mem_cons_of_mem _ hts)
      have hone : themes.countP (fun t => lower t = key) =
          if key ∈ themes.map lower then 1 else 0 := by
        have hmap : themes.countP (fun t => lower t = key) = (themes.map lower).count key := by
          rw [List.count, List.countP_map]
          exact List.countP_congr fun t _ => by simp
        rw [hmap]
        split
        · rename_i hin
          exact List.count_eq_one_of_mem (h themes List.mem_cons_self) hin
        · rename_i hnot
          exact List.count_eq_zero_of_not_mem hnot
      rw [List.flatten_cons, List.countP_append, ih, hone, List.countP_cons, Nat.add_comm]
      simp only [decide_eq_true_eq]

/-- **The most used themes.** -/
theorem suggests_suggestions {rows : List (List Str)} (h : ∀ themes ∈ rows, Clean lower themes) :
    Suggests lower rows (suggestions lower rows) := by
  have hclean : ∀ t ∈ rows.flatten, strip t = t ∧ t ≠ [] := by
    intro t ht
    obtain ⟨themes, hmem, ht⟩ := List.mem_flatten.mp ht
    exact (h themes hmem).stripped t ht
  have htallied : Tallied lower rows.flatten (rows.flatten.foldl (countTheme lower) []) := by
    have hstart : Tallied lower [] [] := ⟨List.nodup_nil, nofun, nofun, nofun⟩
    exact tallied_foldl hstart hclean
  rw [suggestions]
  generalize rows.flatten.foldl (countTheme lower) [] = entries at htallied
  have hmem : ∀ e ∈ (Ranking.ranked (·.count) entries).take 30, e ∈ entries := fun e he =>
    (Ranking.mem_ranked _).mp (List.mem_of_mem_take he)
  have hcount : ∀ e ∈ entries, e.count = uses lower rows e.label := by
    intro e he
    rw [htallied.count e he, countP_flatten_eq fun themes ht => (h themes ht).distinct, uses,
      (htallied.label e he).2]
  have hkeys : ∀ es : List Tally, (∀ e ∈ es, e ∈ entries) →
      (es.map fun e => (e.label, e.count)).map (fun e => lower e.1) = es.map (·.key) := by
    intro es hes
    rw [List.map_map]
    exact List.map_congr_left fun e he => (htallied.label e (hes e he)).2
  refine ⟨?_, ?_, ?_, ?_, ?_⟩
  · rw [List.length_map]
    exact List.length_take_le _ _
  · rw [hkeys _ hmem]
    have hperm : ((Ranking.ranked (·.count) entries).map (·.key)).Perm (entries.map (·.key)) :=
      (List.mergeSort_perm entries _).map _
    exact (hperm.nodup_iff.mpr htallied.keys).sublist ((List.take_sublist _ _).map _)
  · rw [List.pairwise_map]
    exact (Ranking.pairwise_ranked _ entries).sublist (List.take_sublist _ _)
  · intro e he
    obtain ⟨tally, htaken, rfl⟩ := List.mem_map.mp he
    have hin := hmem tally htaken
    exact ⟨List.mem_flatten.mp (htallied.label tally hin).1, hcount tally hin⟩
  · intro themes hthemes t ht hnot
    obtain ⟨tally, hin, hkey⟩ := htallied.covers t (List.mem_flatten.mpr ⟨themes, hthemes, ht⟩)
    have hleft : tally ∉ (Ranking.ranked (·.count) entries).take 30 := fun htaken => hnot <| by
      rw [hkeys _ hmem, ← hkey]
      exact List.mem_map.mpr ⟨tally, htaken, rfl⟩
    obtain ⟨hfull, hless⟩ := Ranking.not_mem_take_ranked hin hleft
    refine ⟨by rw [List.length_map, hfull], fun e he => ?_⟩
    obtain ⟨tally', htaken, rfl⟩ := List.mem_map.mp he
    have huses : uses lower rows t = tally.count := by
      rw [hcount tally hin, uses, uses, (htallied.label tally hin).2, hkey]
    rw [huses]
    exact hless tally' htaken

end MesReunions.Preparations.Themes
