import MesReunions.Base.Fields

/-!
# The glossary of a user

The table `user_glossary_terms`, for one user, and the requests of two services that change it:
`upsert_user_glossary_batch` and `update_user_glossary_term` of the device authority, and the add,
patch, delete and clean-up of the bridge.

* `Request.run` — a request, or `none` when it is refused or fails, and nothing is committed.
* `State.excluded` — the terms that were deleted and were neither added again nor the new name of
  another term since.
* `Clean` — no batch brings a term back that the bridge deleted, and no patch lets one back in.
* **`find_upsertBatch`** — a batch adds to each accepted term its number of occurrences.
* **`curated_of_clean`** — every state of a clean run respects the curation.
* **`deleted_comes_back`** — a term that the bridge deleted comes back with the next batch.
-/

namespace MesReunions.Glossary

open Str

/-! ## The table -/

structure Row where
  term : Str
  occurrenceCount : Nat
  curatedByUser : Bool
  blacklisted : Bool
  deriving DecidableEq

abbrev Table := List Row

/-- `query(UserGlossaryTerm).filter(term == t).first()` -/
def Table.find (tb : Table) (t : Str) : Option Row := List.find? (fun r => r.term = t) tb

/-- Changes the row of a term. -/
def Table.set (tb : Table) (t : Str) (f : Row → Row) : Table :=
  List.map (fun r => if r.term = t then f r else r) tb

/-- `occurrence_count or 1` -/
def Row.count (r : Row) : Nat := if r.occurrenceCount = 0 then 1 else r.occurrenceCount

/-! ## The requests -/

/-- The actions of `update_user_glossary_term`. -/
inductive Action where
  | delete
  | promote
  | update (newTerm : Str)

inductive Request where
  | upsertBatch (terms : List Json) (skipFilter : Bool)
  | curate (term : Str) (action : Action)
  | add (term : Str)
  | patch (term : Str) (curatedByUser blacklisted : Option Bool)
  | delete (term : Str)
  | cleanup (terms : List Json)

/-- `if not term or len(term) > 255: continue`, and the filter. -/
def accepts (isSpecificTerm : Str → Bool) (skipFilter : Bool) (term : Str) : Bool :=
  term ≠ [] && term.length ≤ 255 && (skipFilter || isSpecificTerm term)

/-- What the loop of the batch does with an accepted term. -/
def upsertTerm (tb : Table) (term : Str) : Table :=
  match tb.find term with
  | some existing =>
      if existing.blacklisted then tb
      else tb.set term fun r => { r with occurrenceCount := r.count + 1 }
  | none => tb ++ [⟨term, 1, false, false⟩]

/-- The accepted terms of a batch, or `none` when an element has no `strip`. -/
def batchTerms (isSpecificTerm : Str → Bool) (terms : List Json) (skipFilter : Bool) :
    Option (List Str) :=
  (terms.mapM fun raw => Json.stripOr [] (some raw)).map
    (List.filter (accepts isSpecificTerm skipFilter))

/-- `upsert_user_glossary_batch()` -/
def upsertBatch (isSpecificTerm : Str → Bool) (terms : List Json) (skipFilter : Bool)
    (tb : Table) : Option Table :=
  (batchTerms isSpecificTerm terms skipFilter).map fun accepted => accepted.foldl upsertTerm tb

/-- The rename of `update_user_glossary_term`: the new row, then the old one. A term that does not
fit in its column makes the insertion fail. -/
def rename (row : Row) (newTerm : Str) (tb : Table) : Option Table :=
  let renamed : Option Table :=
    match tb.find newTerm with
    | some _ => some (tb.set newTerm fun r => { r with
        blacklisted := false
        curatedByUser := true
        occurrenceCount := max r.count row.count })
    | none => if newTerm.length ≤ 255 then some (tb ++ [⟨newTerm, row.count, true, false⟩]) else none
  renamed.map fun tb => tb.set row.term fun r => { r with blacklisted := true }

/-- `update_user_glossary_term(term)` -/
def updateUserGlossaryTerm (term : Str) (action : Action) (tb : Table) : Option Table :=
  (tb.find term).bind fun row =>
    match action with
    | .delete => some (tb.set term fun r => { r with blacklisted := true })
    | .promote => some (tb.set term fun r => { r with curatedByUser := true })
    | .update newTerm =>
        let newTerm := strip newTerm
        if newTerm = [] ∨ newTerm = term then none else rename row newTerm tb

/-- `add_user_glossary_term()` -/
def addUserGlossaryTerm (raw : Str) (tb : Table) : Option Table :=
  let term := strip raw
  if term = [] ∨ 255 < term.length then none
  else
    match tb.find term with
    | some _ => some (tb.set term fun r => { r with curatedByUser := true, blacklisted := false })
    | none => some (tb ++ [⟨term, 1, true, false⟩])

/-- `patch_user_glossary_term()` -/
def patchUserGlossaryTerm (raw : Str) (curatedByUser blacklisted : Option Bool) (tb : Table) :
    Option Table :=
  (tb.find (strip raw)).map fun _ => tb.set (strip raw) fun r => { r with
    curatedByUser := curatedByUser.getD r.curatedByUser
    blacklisted := blacklisted.getD r.blacklisted }

/-- `delete_user_glossary_term()` -/
def deleteUserGlossaryTerm (raw : Str) (tb : Table) : Option Table :=
  (tb.find (strip raw)).map fun _ => List.filter (fun r => r.term ≠ strip raw) tb

/-- The terms that the clean-up deletes: those of the request, or those that are not specific. -/
def cleanupTerms (isSpecificTerm : Str → Bool) (terms : List Json) (tb : Table) : List Str :=
  if terms ≠ [] then
    (terms.filterMap fun
      | .str s => some (strip s)
      | _ => none).filter (· ≠ [])
  else
    (((List.filter (fun r => !r.curatedByUser && !r.blacklisted) tb).insertionSort
      fun a b => a.term ≤ b.term).take 2000).filterMap fun r =>
        if isSpecificTerm r.term then none else some r.term

/-- `cleanup_user_glossary()`, with `dry_run=false`. -/
def cleanupUserGlossary (isSpecificTerm : Str → Bool) (terms : List Json) (tb : Table) : Table :=
  List.filter (fun r => r.curatedByUser || r.blacklisted ||
    !decide (r.term ∈ cleanupTerms isSpecificTerm terms tb)) tb

/-- A request on the table, or `none` when nothing is committed. -/
def Request.run (isSpecificTerm : Str → Bool) (tb : Table) : Request → Option Table
  | .upsertBatch terms skipFilter => Glossary.upsertBatch isSpecificTerm terms skipFilter tb
  | .curate term action => updateUserGlossaryTerm term action tb
  | .add term => addUserGlossaryTerm term tb
  | .patch term curatedByUser blacklisted => patchUserGlossaryTerm term curatedByUser blacklisted tb
  | .delete term => deleteUserGlossaryTerm term tb
  | .cleanup terms => some (cleanupUserGlossary isSpecificTerm terms tb)

/-! ## Runs -/

/-- The table, and the terms that the user has deleted. -/
structure State where
  table : Table
  excluded : List Str

/-- What a request that is answered does to the deleted terms. -/
def Request.exclude (excluded : List Str) : Request → List Str
  | .curate term .delete => term :: excluded
  | .delete term => strip term :: excluded
  | .curate _ (.update newTerm) => excluded.filter (· ≠ strip newTerm)
  | .add term => excluded.filter (· ≠ strip term)
  | _ => excluded

def State.step (isSpecificTerm : Str → Bool) (s : State) (r : Request) : State :=
  match r.run isSpecificTerm s.table with
  | some tb => ⟨tb, r.exclude s.excluded⟩
  | none => s

def State.run (isSpecificTerm : Str → Bool) (s : State) (rs : List Request) : State :=
  rs.foldl (State.step isSpecificTerm) s

/-- Before the first request. -/
def State.empty : State := ⟨[], []⟩

/-- One row per term, and no row for a deleted term but a blacklisted one. -/
structure Respected (s : State) : Prop where
  unique : (s.table.map Row.term).Nodup
  excluded : ∀ t ∈ s.excluded, ∀ r ∈ s.table, r.term = t → r.blacklisted = true

/-- What a request keeps: no count of a row decreases, and a batch that is answered adds to each
accepted term, unless it is blacklisted, its number of occurrences. -/
structure Counted (isSpecificTerm : Str → Bool) (s : State) (r : Request) : Prop where
  monotone : ∀ row ∈ s.table, ∀ row' ∈ (s.step isSpecificTerm r).table, row'.term = row.term →
    row.occurrenceCount ≤ row'.occurrenceCount
  batch : ∀ terms skipFilter accepted, r = .upsertBatch terms skipFilter →
    batchTerms isSpecificTerm terms skipFilter = some accepted → ∀ t ∈ accepted,
      (∀ row, s.table.find t = some row → row.blacklisted = false) →
        ∃ row', (s.step isSpecificTerm r).table.find t = some row' ∧
          row'.occurrenceCount = ((s.table.find t).map Row.occurrenceCount).getD 0 +
            accepted.count t

/-- No batch accepts a deleted term that has no row, and no patch takes a deleted term out of the
blacklist. -/
def Clean (isSpecificTerm : Str → Bool) (s : State) : Request → Prop
  | .upsertBatch terms skipFilter => ∀ accepted,
      batchTerms isSpecificTerm terms skipFilter = some accepted →
        ∀ t ∈ accepted, t ∈ s.excluded → (s.table.find t).isSome = true
  | .patch term _ (some false) => strip term ∉ s.excluded
  | _ => True

/-- Each request is clean where it comes. -/
def CleanRun (isSpecificTerm : Str → Bool) (s : State) : List Request → Prop
  | [] => True
  | r :: rs => Clean isSpecificTerm s r ∧ CleanRun isSpecificTerm (s.step isSpecificTerm r) rs

/-! ## Looking a term up -/

theorem mem_of_find {tb : Table} {t : Str} {r : Row} (h : tb.find t = some r) :
    r ∈ tb ∧ r.term = t :=
  ⟨List.mem_of_find?_eq_some h, by simpa using List.find?_some h⟩

theorem find_none {tb : Table} {t : Str} : tb.find t = none ↔ t ∉ tb.map Row.term := by
  simp [Table.find]

/-- With one row per term, the row of a term is found. -/
theorem find_of_mem {tb : Table} (h : (tb.map Row.term).Nodup) {r : Row} (hr : r ∈ tb) :
    tb.find r.term = some r := by
  cases hfind : tb.find r.term with
  | none => exact absurd (List.mem_map_of_mem hr) (find_none.mp hfind)
  | some r' =>
      obtain ⟨hr', hterm⟩ := mem_of_find hfind
      rw [List.inj_on_of_nodup_map h hr' hr hterm]

theorem find_set (tb : Table) (t : Str) {f : Row → Row} (hf : ∀ r, (f r).term = r.term)
    (t' : Str) : (tb.set t f).find t' = if t' = t then (tb.find t).map f else tb.find t' := by
  induction tb with
  | nil => simp [Table.find, Table.set]
  | cons r tb ih =>
      simp only [Table.find, Table.set, List.map_cons, List.find?_cons] at ih ⊢
      have hterm : (if r.term = t then f r else r).term = r.term := by
        split
        · exact hf r
        · rfl
      rw [hterm, ih]
      by_cases ht' : r.term = t'
      · subst ht'
        simp only [decide_true]
        by_cases ht : r.term = t
        · simp [ht]
        · simp [ht]
      · simp only [ht', decide_false]
        by_cases ht : r.term = t
        · subst ht
          simp [Ne.symm ht']
        · simp [ht]

theorem find_concat {tb : Table} {r : Row} (h : tb.find r.term = none) (t : Str) :
    Table.find (tb ++ [r]) t = if t = r.term then some r else tb.find t := by
  rw [Table.find, List.find?_append]
  by_cases ht : t = r.term
  · subst ht
    rw [if_pos rfl]
    show ((tb.find r.term).or _) = _
    rw [h]
    simp
  · rw [if_neg ht]
    simp [Table.find, Ne.symm ht]

theorem find_filter_ne (tb : Table) (t t' : Str) :
    Table.find (List.filter (fun r => r.term ≠ t) tb) t' =
      if t' = t then none else tb.find t' := by
  by_cases ht : t' = t
  · subst ht
    rw [if_pos rfl, find_none]
    simp
  · rw [if_neg ht, Table.find, Table.find, List.find?_filter]
    congr 1
    funext r
    by_cases hr : r.term = t' <;> simp [hr, ht]

/-! ## Rows stay, and grow -/

/-- Each row is still there, with no lower count. -/
structure Grows (tb tb' : Table) : Prop where
  unique : (tb.map Row.term).Nodup → (tb'.map Row.term).Nodup
  positive : (∀ r ∈ tb, 0 < r.occurrenceCount) → ∀ r ∈ tb', 0 < r.occurrenceCount
  rows : ∀ t r, tb.find t = some r → ∃ r', tb'.find t = some r' ∧
    r.occurrenceCount ≤ r'.occurrenceCount

theorem Grows.refl (tb : Table) : Grows tb tb := ⟨id, id, fun _ r h => ⟨r, h, le_rfl⟩⟩

theorem Grows.trans {tb tb' tb'' : Table} (h : Grows tb tb') (h' : Grows tb' tb'') :
    Grows tb tb'' where
  unique hu := h'.unique (h.unique hu)
  positive hp := h'.positive (h.positive hp)
  rows t r hr := by
    obtain ⟨r', hr', hle⟩ := h.rows t r hr
    obtain ⟨r'', hr'', hle'⟩ := h'.rows t r' hr'
    exact ⟨r'', hr'', hle.trans hle'⟩

theorem grows_set (tb : Table) (t : Str) {f : Row → Row} (hf : ∀ r, (f r).term = r.term)
    (hcount : ∀ r, r.occurrenceCount ≤ (f r).occurrenceCount) : Grows tb (tb.set t f) where
  unique hu := by
    have hsame : (tb.set t f).map Row.term = tb.map Row.term := by
      rw [Table.set, List.map_map]
      refine List.map_congr_left fun r _ => ?_
      simp only [Function.comp_apply]
      split
      · exact hf r
      · rfl
    rwa [hsame]
  positive hp r hr := by
    obtain ⟨r', hr', rfl⟩ := List.mem_map.mp hr
    split
    · exact lt_of_lt_of_le (hp r' hr') (hcount r')
    · exact hp r' hr'
  rows t' r hr := by
    rw [find_set tb t hf]
    by_cases ht : t' = t
    · subst ht
      rw [if_pos rfl, hr]
      exact ⟨f r, rfl, hcount r⟩
    · rw [if_neg ht]
      exact ⟨r, hr, le_rfl⟩

theorem grows_concat {tb : Table} {r : Row} (h : tb.find r.term = none)
    (hpos : 0 < r.occurrenceCount) : Grows tb (tb ++ [r]) where
  unique hu := by
    rw [List.map_append, List.nodup_append]
    refine ⟨hu, List.nodup_singleton _, fun t ht t' ht' => ?_⟩
    rw [List.map_singleton, List.mem_singleton] at ht'
    rintro rfl
    rw [ht'] at ht
    exact find_none.mp h ht
  positive hp r' hr' := by
    rcases List.mem_append.mp hr' with hr' | hr'
    · exact hp r' hr'
    · rw [List.mem_singleton.mp hr']
      exact hpos
  rows t r' hr' := by
    rw [find_concat h]
    refine ⟨r', ?_, le_rfl⟩
    rw [if_neg, hr']
    rintro rfl
    rw [h] at hr'
    cases hr'

theorem le_count (r : Row) : r.occurrenceCount ≤ r.count := by
  rw [Row.count]
  split <;> omega

theorem count_pos (r : Row) : 0 < r.count := by
  rw [Row.count]
  split <;> omega

/-! ## A batch -/

/-- The row of a term that occurs `n` times in a batch. -/
def grow (t : Str) (n : Nat) (row : Option Row) : Option Row :=
  if n = 0 then row
  else
    match row with
    | some r => some (if r.blacklisted then r else { r with occurrenceCount := r.count + n })
    | none => some ⟨t, n, false, false⟩

theorem grow_grow (t : Str) (m n : Nat) (row : Option Row) :
    grow t n (grow t m row) = grow t (m + n) row := by
  by_cases hn : n = 0
  · subst hn
    rfl
  · by_cases hm : m = 0
    · subst hm
      rw [Nat.zero_add]
      rfl
    · have hsum : m + n ≠ 0 := by omega
      simp only [grow, hm, hn, hsum, if_false]
      cases row with
      | none => simp [Row.count, hm]
      | some r =>
          by_cases hb : r.blacklisted = true
          · simp [hb]
          · simp [hb, Row.count, hm, Nat.add_assoc]

theorem find_upsertTerm (tb : Table) (term t : Str) :
    (upsertTerm tb term).find t = grow t (if term = t then 1 else 0) (tb.find t) := by
  rw [upsertTerm]
  cases hfind : tb.find term with
  | none =>
      rw [find_concat (show tb.find (Row.mk term 1 false false).term = none from hfind)]
      by_cases ht : term = t
      · subst ht
        simp [grow, hfind]
      · simp [grow, ht, Ne.symm ht]
  | some r =>
      dsimp only
      by_cases hb : r.blacklisted = true
      · rw [if_pos hb]
        by_cases ht : term = t
        · subst ht
          simp [grow, hfind, hb]
        · simp [grow, ht]
      · rw [if_neg hb, find_set tb term (f := fun r => { r with occurrenceCount := r.count + 1 })
          fun _ => rfl]
        by_cases ht : term = t
        · subst ht
          simp [grow, hfind, hb]
        · simp [grow, ht, Ne.symm ht]

/-- **A batch.** The row of each term grows by the number of its occurrences. -/
theorem find_upsertBatch (terms : List Str) (tb : Table) (t : Str) :
    (terms.foldl upsertTerm tb).find t = grow t (terms.count t) (tb.find t) := by
  induction terms generalizing tb with
  | nil => rfl
  | cons term terms ih =>
      rw [List.foldl_cons, ih, find_upsertTerm, grow_grow, List.count_cons, Nat.add_comm]
      simp

theorem grows_upsertTerm (tb : Table) (term : Str) : Grows tb (upsertTerm tb term) := by
  rw [upsertTerm]
  cases hfind : tb.find term with
  | none => exact grows_concat hfind Nat.one_pos
  | some r =>
      dsimp only
      split
      · exact Grows.refl tb
      · refine grows_set tb term (fun _ => rfl) fun r => ?_
        have hle := le_count r
        exact hle.trans (Nat.le_succ _)

theorem grows_upsertBatch (terms : List Str) (tb : Table) :
    Grows tb (terms.foldl upsertTerm tb) := by
  induction terms generalizing tb with
  | nil => exact Grows.refl tb
  | cons term terms ih => exact (grows_upsertTerm tb term).trans (ih _)

/-! ## Every request -/

theorem grows_rename {row : Row} {newTerm : Str} {tb tb' : Table}
    (h : rename row newTerm tb = some tb') : Grows tb tb' := by
  have hblacklist : ∀ tb : Table,
      Grows tb (tb.set row.term fun r => { r with blacklisted := true }) := fun tb =>
    grows_set tb row.term (fun _ => rfl) fun _ => le_rfl
  rw [rename] at h
  obtain ⟨renamed, hrenamed, rfl⟩ := Option.map_eq_some_iff.mp h
  refine Grows.trans ?_ (hblacklist renamed)
  cases hfind : tb.find newTerm with
  | some r =>
      rw [hfind] at hrenamed
      cases hrenamed
      exact grows_set tb newTerm (fun _ => rfl) fun r => (le_count r).trans (le_max_left _ _)
  | none =>
      rw [hfind] at hrenamed
      dsimp only at hrenamed
      split at hrenamed
      · cases hrenamed
        exact grows_concat hfind (count_pos row)
      · cases hrenamed

/-- A request lets the rows grow, or takes some away. -/
theorem grows_or_sublist {isSpecificTerm : Str → Bool} {tb tb' : Table} {r : Request}
    (h : r.run isSpecificTerm tb = some tb') : Grows tb tb' ∨ List.Sublist tb' tb := by
  cases r with
  | upsertBatch terms skipFilter =>
      obtain ⟨accepted, -, rfl⟩ := Option.map_eq_some_iff.mp h
      exact Or.inl (grows_upsertBatch accepted tb)
  | curate term action =>
      obtain ⟨row, -, h⟩ := Option.bind_eq_some_iff.mp h
      cases action with
      | delete =>
          cases h
          exact Or.inl (grows_set tb term (fun _ => rfl) fun _ => le_rfl)
      | promote =>
          cases h
          exact Or.inl (grows_set tb term (fun _ => rfl) fun _ => le_rfl)
      | update newTerm =>
          dsimp only at h
          split at h
          · cases h
          · exact Or.inl (grows_rename h)
  | add term =>
      rw [Request.run, addUserGlossaryTerm] at h
      split at h
      · cases h
      · cases hfind : tb.find (strip term) with
        | some row =>
            rw [hfind] at h
            cases h
            exact Or.inl (grows_set tb (strip term) (fun _ => rfl) fun _ => le_rfl)
        | none =>
            rw [hfind] at h
            cases h
            exact Or.inl (grows_concat hfind Nat.one_pos)
  | patch term curatedByUser blacklisted =>
      obtain ⟨row, -, rfl⟩ := Option.map_eq_some_iff.mp h
      exact Or.inl (grows_set tb (strip term) (fun _ => rfl) fun _ => le_rfl)
  | delete term =>
      obtain ⟨row, -, rfl⟩ := Option.map_eq_some_iff.mp h
      exact Or.inr List.filter_sublist
  | cleanup terms =>
      cases h
      exact Or.inr List.filter_sublist

/-- The deleted terms have no row but a blacklisted one. -/
def Shut (tb : Table) (excluded : List Str) : Prop :=
  ∀ t ∈ excluded, ∀ r, tb.find t = some r → r.blacklisted = true

/-- A row of another term may change, and one that is blacklisted may stay so. -/
theorem Shut.set {tb : Table} {excluded excluded' : List Str} (h : Shut tb excluded) {t : Str}
    {f : Row → Row} (hf : ∀ r, (f r).term = r.term)
    (hother : ∀ t' ∈ excluded', t' ≠ t → t' ∈ excluded)
    (hself : t ∈ excluded' → ∀ r, (t ∈ excluded → r.blacklisted = true) →
      (f r).blacklisted = true) : Shut (tb.set t f) excluded' := by
  intro t' ht' r hr
  rw [find_set tb t hf] at hr
  by_cases hsame : t' = t
  · subst hsame
    rw [if_pos rfl] at hr
    obtain ⟨r', hr', rfl⟩ := Option.map_eq_some_iff.mp hr
    exact hself ht' r' fun hmem => h t' hmem r' hr'
  · rw [if_neg hsame] at hr
    exact h t' (hother t' ht' hsame) r hr

theorem Shut.concat {tb : Table} {excluded : List Str} (h : Shut tb excluded) {r : Row}
    (hnone : tb.find r.term = none) :
    Shut (tb ++ [r]) (excluded.filter (· ≠ r.term)) := by
  intro t ht r' hr'
  obtain ⟨ht, hne⟩ := List.mem_filter.mp ht
  rw [find_concat hnone, if_neg (by simpa using hne)] at hr'
  exact h t ht r' hr'

theorem Shut.rename {tb tb' : Table} {excluded : List Str} (h : Shut tb excluded) {row : Row}
    {newTerm : Str} (hrename : Glossary.rename row newTerm tb = some tb') :
    Shut tb' (excluded.filter (· ≠ newTerm)) := by
  obtain ⟨renamed, hrenamed, rfl⟩ := Option.map_eq_some_iff.mp hrename
  have hshut : Shut renamed (excluded.filter (· ≠ newTerm)) := by
    cases hfind : tb.find newTerm with
    | some r =>
        rw [hfind] at hrenamed
        cases hrenamed
        refine h.set (fun _ => rfl) (fun t' ht' _ => (List.mem_filter.mp ht').1) fun hmem => ?_
        simp at hmem
    | none =>
        rw [hfind] at hrenamed
        dsimp only at hrenamed
        split at hrenamed
        · cases hrenamed
          exact h.concat hfind
        · cases hrenamed
  exact hshut.set (fun _ => rfl) (fun t' ht' _ => ht') fun _ _ _ => rfl

/-- A row that a batch leaves to a deleted term was there before. -/
theorem Shut.upsertBatch {tb : Table} {excluded accepted : List Str} (h : Shut tb excluded)
    (hclean : ∀ t ∈ accepted, t ∈ excluded → (tb.find t).isSome = true) :
    Shut (accepted.foldl upsertTerm tb) excluded := by
  intro t ht r hr
  rw [find_upsertBatch] at hr
  unfold grow at hr
  split at hr
  · exact h t ht r hr
  · rename_i hcount
    have hmem : t ∈ accepted := List.count_pos_iff.mp (Nat.pos_of_ne_zero hcount)
    obtain ⟨r', hr'⟩ := Option.isSome_iff_exists.mp (hclean t hmem ht)
    have hblack := h t ht r' hr'
    rw [hr'] at hr
    simp only [hblack, if_true] at hr
    cases hr
    exact hblack

/-- **One request.** -/
theorem Shut.run {isSpecificTerm : Str → Bool} {s : State} {r : Request} {tb' : Table}
    (h : Shut s.table s.excluded) (hunique : (s.table.map Row.term).Nodup)
    (hclean : Clean isSpecificTerm s r) (hrun : r.run isSpecificTerm s.table = some tb') :
    Shut tb' (r.exclude s.excluded) := by
  cases r with
  | upsertBatch terms skipFilter =>
      obtain ⟨accepted, haccepted, rfl⟩ := Option.map_eq_some_iff.mp hrun
      exact h.upsertBatch (hclean accepted haccepted)
  | curate term action =>
      obtain ⟨row, hfind, hrun⟩ := Option.bind_eq_some_iff.mp hrun
      cases action with
      | delete =>
          cases hrun
          exact h.set (fun _ => rfl)
            (fun t' ht' hne => (List.mem_cons.mp ht').resolve_left hne) fun _ _ _ => rfl
      | promote =>
          cases hrun
          exact h.set (fun _ => rfl) (fun t' ht' _ => ht') fun hmem _ hblack => hblack hmem
      | update newTerm =>
          dsimp only at hrun
          split at hrun
          · cases hrun
          · exact h.rename hrun
  | add term =>
      rw [Request.run, addUserGlossaryTerm] at hrun
      split at hrun
      · cases hrun
      · cases hfind : s.table.find (strip term) with
        | some row =>
            rw [hfind] at hrun
            cases hrun
            refine h.set (fun _ => rfl) (fun t' ht' _ => (List.mem_filter.mp ht').1) fun hmem => ?_
            simp [Request.exclude] at hmem
        | none =>
            rw [hfind] at hrun
            cases hrun
            exact h.concat hfind
  | patch term curatedByUser blacklisted =>
      obtain ⟨row, hfind, rfl⟩ := Option.map_eq_some_iff.mp hrun
      refine h.set (fun _ => rfl) (fun t' ht' _ => ht') fun hmem r hblack => ?_
      cases blacklisted with
      | none => exact hblack hmem
      | some b =>
          cases b with
          | true => rfl
          | false => exact absurd hmem hclean
  | delete term =>
      obtain ⟨row, hfind, rfl⟩ := Option.map_eq_some_iff.mp hrun
      intro t ht r hr
      rw [find_filter_ne] at hr
      split at hr
      · cases hr
      · rename_i hne
        exact h t ((List.mem_cons.mp ht).resolve_left hne) r hr
  | cleanup terms =>
      cases hrun
      intro t ht r hr
      obtain ⟨hmem, rfl⟩ := mem_of_find hr
      exact h r.term ht r (find_of_mem hunique (List.mem_filter.mp hmem).1)

/-! ## Runs -/

/-- What holds in every state of a clean run. -/
structure Inv (s : State) : Prop where
  unique : (s.table.map Row.term).Nodup
  positive : ∀ r ∈ s.table, 0 < r.occurrenceCount
  shut : Shut s.table s.excluded

theorem inv_empty : Inv .empty := ⟨.nil, nofun, nofun⟩

theorem Inv.step {isSpecificTerm : Str → Bool} {s : State} (h : Inv s) {r : Request}
    (hclean : Clean isSpecificTerm s r) : Inv (s.step isSpecificTerm r) := by
  rw [State.step]
  cases hrun : r.run isSpecificTerm s.table with
  | none => exact h
  | some tb' =>
      refine ⟨?_, ?_, h.shut.run h.unique hclean hrun⟩
      · rcases grows_or_sublist hrun with hgrows | hsub
        · exact hgrows.unique h.unique
        · exact h.unique.sublist (hsub.map _)
      · rcases grows_or_sublist hrun with hgrows | hsub
        · exact hgrows.positive h.positive
        · exact fun r hr => h.positive r (hsub.subset hr)

theorem Inv.respected {s : State} (h : Inv s) : Respected s where
  unique := h.unique
  excluded t ht r hr hterm := by
    subst hterm
    exact h.shut r.term ht r (find_of_mem h.unique hr)

theorem Inv.counted {isSpecificTerm : Str → Bool} {s : State} (h : Inv s) (r : Request) :
    Counted isSpecificTerm s r where
  monotone := by
    intro row hrow row' hrow' hterm
    rw [State.step] at hrow'
    have hfind := find_of_mem h.unique hrow
    cases hrun : r.run isSpecificTerm s.table with
    | none =>
        rw [hrun] at hrow'
        rw [List.inj_on_of_nodup_map h.unique hrow' hrow hterm]
    | some tb' =>
        rw [hrun] at hrow'
        rcases grows_or_sublist hrun with hgrows | hsub
        · obtain ⟨row'', hrow'', hle⟩ := hgrows.rows row.term row hfind
          have hfind' := find_of_mem (hgrows.unique h.unique) hrow'
          rw [hterm, hrow''] at hfind'
          cases hfind'
          exact hle
        · rw [List.inj_on_of_nodup_map h.unique (hsub.subset hrow') hrow hterm]
  batch := by
    rintro terms skipFilter accepted rfl haccepted t ht hvisible
    have hrun : (Request.upsertBatch terms skipFilter).run isSpecificTerm s.table =
        some (accepted.foldl upsertTerm s.table) := by
      rw [Request.run, Glossary.upsertBatch, haccepted]
      rfl
    have hpos : 0 < accepted.count t := List.count_pos_iff.mpr ht
    rw [State.step, hrun]
    dsimp only
    rw [find_upsertBatch]
    unfold grow
    rw [if_neg hpos.ne']
    cases hfind : s.table.find t with
    | none => exact ⟨_, rfl, (Nat.zero_add _).symm⟩
    | some row =>
        have hrow := h.positive row (mem_of_find hfind).1
        simp only [hvisible row hfind]
        exact ⟨_, rfl, congrArg (· + accepted.count t) (if_neg hrow.ne')⟩

theorem Inv.run {isSpecificTerm : Str → Bool} {s : State} (h : Inv s) {rs : List Request}
    (hclean : CleanRun isSpecificTerm s rs) : Inv (s.run isSpecificTerm rs) := by
  induction rs generalizing s with
  | nil => exact h
  | cons r rs ih => exact ih (h.step hclean.1) hclean.2

/-- **Curation is respected.** In every state of a clean run there is one row per term, and none for
a deleted term but a blacklisted one; and there no request lowers a count, and a batch adds to each
accepted term its number of occurrences. -/
theorem curated_of_clean (isSpecificTerm : Str → Bool) {rs : List Request}
    (hclean : CleanRun isSpecificTerm .empty rs) :
    Respected (State.empty.run isSpecificTerm rs) ∧
      ∀ r, Counted isSpecificTerm (State.empty.run isSpecificTerm rs) r :=
  ⟨(inv_empty.run hclean).respected, (inv_empty.run hclean).counted⟩

/-! ## A term that is deleted -/

/-- A batch with one term. -/
def oneTerm : Request := .upsertBatch [.str "ANSC".toList] false

theorem curated_of_clean_oneTerm :
    Respected (State.empty.run (fun _ => true) [oneTerm]) ∧
      ∀ r, Counted (fun _ => true) (State.empty.run (fun _ => true) [oneTerm]) r :=
  curated_of_clean (fun _ => true) ⟨fun _ _ _ _ hmem => absurd hmem List.not_mem_nil, trivial⟩

/-- **A term that comes back.** The bridge deletes its row, and the next batch inserts it. -/
theorem deleted_comes_back : ¬ ∀ (isSpecificTerm : Str → Bool) (rs : List Request),
    Respected (State.empty.run isSpecificTerm rs) := by
  intro h
  have hrun := (h (fun _ => true) [oneTerm, .delete "ANSC".toList, oneTerm]).excluded
    "ANSC".toList (by decide +kernel) ⟨"ANSC".toList, 1, false, false⟩ (by decide +kernel) rfl
  cases hrun

end MesReunions.Glossary
