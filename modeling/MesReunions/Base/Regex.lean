import Mathlib.Data.List.Basic

/-!
# Backtracking regular expressions

The patterns of a backtracking matcher, with named groups and a character of context on each side.

* `Regex` — the patterns, and `run`, the ways a pattern matches at a position, in the order in which
  they are tried.
* `search` — the groups of the first match, from the left.
* `Exact`, `Reads`, `Fails` — a text is read in one way, first of all, or in no way.
* `Width` — whatever is read has one length.
* **`searches_here`**, **`searches_other`**, **`searches_run`** — where the search of a pattern
  stops that does not begin in the middle of a run of characters.
-/

namespace MesReunions

variable {α γ : Type}

/-- A pattern: the quantifiers are greedy, and only a class is repeated. -/
inductive Regex (α γ : Type) where
  | empty
  | char (p : α → Bool)
  | seq (r s : Regex α γ)
  | alt (r s : Regex α γ)
  | opt (r : Regex α γ)
  | plus (p : α → Bool)
  | group (g : γ) (r : Regex α γ)
  | notBehind (p : α → Bool)
  | notAhead (p : α → Bool)

namespace Regex

/-- A place in a text: the character before it, what follows, and the groups that were read. -/
structure Pos (α γ : Type) where
  prev : Option α
  rest : List α
  groups : List (γ × List α)

/-- The ways to read a class at least once, the longest first. -/
def plusFrom (p : α → Bool) (groups : List (γ × List α)) : List α → List (Pos α γ)
  | [] => []
  | c :: rest => if p c then plusFrom p groups rest ++ [⟨some c, rest, groups⟩] else []

/-- The places that a pattern leads to, in the order in which they are tried. -/
def run : Regex α γ → Pos α γ → List (Pos α γ)
  | empty, s => [s]
  | char p, s =>
      match s.rest with
      | [] => []
      | c :: rest => if p c then [⟨some c, rest, s.groups⟩] else []
  | seq r t, s => (run r s).flatMap (run t)
  | alt r t, s => run r s ++ run t s
  | opt r, s => run r s ++ [s]
  | plus p, s => plusFrom p s.groups s.rest
  | group g r, s => (run r s).map fun t =>
      ⟨t.prev, t.rest, t.groups ++ [(g, s.rest.take (s.rest.length - t.rest.length))]⟩
  | notBehind p, s => if s.prev.any p then [] else [s]
  | notAhead p, s => if s.rest.head?.any p then [] else [s]

/-- Patterns one after the other. -/
def seqs (rs : List (Regex α γ)) : Regex α γ := rs.foldr seq empty

/-- The first match, from the left. -/
def searchFrom (r : Regex α γ) (prev : Option α) : List α → Option (Pos α γ)
  | [] => (run r ⟨prev, [], []⟩).head?
  | c :: rest => (run r ⟨prev, c :: rest, []⟩).head?.or (searchFrom r (some c) rest)

/-- The groups of the first match. -/
def search (r : Regex α γ) (s : List α) : Option (List (γ × List α)) :=
  (searchFrom r none s).map Pos.groups

/-! ## Reading a text -/

/-- There is no way to read what follows. -/
def Fails (r : Regex α γ) (rest : List α) : Prop := ∀ prev groups, run r ⟨prev, rest, groups⟩ = []

/-- There is one way, to read `u` and to capture some groups. -/
def Exact (r : Regex α γ) (u : List α) (captured : List (γ × List α)) (rest : List α) : Prop :=
  ∀ prev groups, ∃ prev', run r ⟨prev, u ++ rest, groups⟩ = [⟨prev', rest, groups ++ captured⟩]

/-- The first way is to read `u` and to capture some groups. -/
def Reads (r : Regex α γ) (u : List α) (captured : List (γ × List α)) (rest : List α) : Prop :=
  ∀ prev groups, ∃ prev',
    (run r ⟨prev, u ++ rest, groups⟩).head? = some ⟨prev', rest, groups ++ captured⟩

theorem Exact.reads {r : Regex α γ} {u rest : List α} {captured : List (γ × List α)}
    (h : Exact r u captured rest) : Reads r u captured rest := by
  intro prev groups
  obtain ⟨prev', hrun⟩ := h prev groups
  exact ⟨prev', by rw [hrun, List.head?_cons]⟩

/-! ### One character -/

theorem exact_char {p : α → Bool} {c : α} (h : p c = true) (rest : List α) :
    Exact (γ := γ) (char p) [c] [] rest := by
  intro prev groups
  refine ⟨some c, ?_⟩
  rw [List.append_nil]
  exact if_pos h

theorem fails_char_cons {p : α → Bool} {c : α} (h : p c = false) (rest : List α) :
    Fails (γ := γ) (char p) (c :: rest) := by
  intro prev groups
  exact if_neg (by rw [h]; exact Bool.false_ne_true)

theorem fails_char_nil (p : α → Bool) : Fails (γ := γ) (char p) [] := fun _ _ => rfl

/-- A character fails where the next one is not of its class. -/
theorem fails_char {p : α → Bool} {rest : List α} (h : ∀ c, rest.head? = some c → p c = false) :
    Fails (γ := γ) (char p) rest := by
  cases rest with
  | nil => exact fails_char_nil p
  | cons c rest => exact fails_char_cons (h c rfl) rest

/-! ### Sequences -/

theorem exact_empty (rest : List α) : Exact (γ := γ) empty [] [] rest := by
  intro prev groups
  refine ⟨prev, ?_⟩
  rw [List.append_nil]
  rfl

protected theorem Exact.seq {r t : Regex α γ} {u v rest : List α} {c d : List (γ × List α)}
    (hr : Exact r u c (v ++ rest)) (ht : Exact t v d rest) :
    Exact (seq r t) (u ++ v) (c ++ d) rest := by
  intro prev groups
  obtain ⟨prev', hrun⟩ := hr prev groups
  obtain ⟨prev'', hrun'⟩ := ht prev' (groups ++ c)
  refine ⟨prev'', ?_⟩
  show (run r ⟨prev, u ++ v ++ rest, groups⟩).flatMap (run t) = _
  rw [List.append_assoc, hrun, List.flatMap_singleton, hrun', List.append_assoc]

protected theorem Reads.seq {r t : Regex α γ} {u v rest : List α} {c d : List (γ × List α)}
    (hr : Reads r u c (v ++ rest)) (ht : Reads t v d rest) :
    Reads (seq r t) (u ++ v) (c ++ d) rest := by
  intro prev groups
  obtain ⟨prev', hrun⟩ := hr prev groups
  obtain ⟨prev'', hrun'⟩ := ht prev' (groups ++ c)
  refine ⟨prev'', ?_⟩
  show ((run r ⟨prev, u ++ v ++ rest, groups⟩).flatMap (run t)).head? = _
  rw [List.append_assoc]
  obtain ⟨more, hmore⟩ := List.head?_eq_some_iff.mp hrun
  rw [hmore, List.flatMap_cons, List.head?_append, hrun', List.append_assoc]
  rfl

protected theorem Fails.seq {r : Regex α γ} {rest : List α} (h : Fails r rest) (t : Regex α γ) :
    Fails (seq r t) rest := by
  intro prev groups
  show (run r ⟨prev, rest, groups⟩).flatMap (run t) = []
  rw [h prev groups, List.flatMap_nil]

theorem Exact.seq_fails {r t : Regex α γ} {u rest : List α} {c : List (γ × List α)}
    (hr : Exact r u c rest) (ht : Fails t rest) : Fails (seq r t) (u ++ rest) := by
  intro prev groups
  obtain ⟨prev', hrun⟩ := hr prev groups
  show (run r ⟨prev, u ++ rest, groups⟩).flatMap (run t) = []
  rw [hrun, List.flatMap_singleton, ht prev' (groups ++ c)]

theorem exact_nil (rest : List α) : Exact (seqs ([] : List (Regex α γ))) [] [] rest :=
  exact_empty rest

theorem Exact.cons {r : Regex α γ} {rs : List (Regex α γ)} {u v rest : List α}
    {c d : List (γ × List α)} (hr : Exact r u c (v ++ rest)) (hrs : Exact (seqs rs) v d rest) :
    Exact (seqs (r :: rs)) (u ++ v) (c ++ d) rest := hr.seq hrs

theorem Reads.cons {r : Regex α γ} {rs : List (Regex α γ)} {u v rest : List α}
    {c d : List (γ × List α)} (hr : Reads r u c (v ++ rest)) (hrs : Reads (seqs rs) v d rest) :
    Reads (seqs (r :: rs)) (u ++ v) (c ++ d) rest := hr.seq hrs

/-! ### Alternatives and options -/

theorem Exact.alt_left {r t : Regex α γ} {u rest : List α} {c : List (γ × List α)}
    (hr : Exact r u c rest) (ht : Fails t (u ++ rest)) : Exact (alt r t) u c rest := by
  intro prev groups
  obtain ⟨prev', hrun⟩ := hr prev groups
  refine ⟨prev', ?_⟩
  show run r _ ++ run t _ = _
  rw [hrun, ht prev groups, List.append_nil]

theorem Exact.alt_right {r t : Regex α γ} {u rest : List α} {c : List (γ × List α)}
    (hr : Fails r (u ++ rest)) (ht : Exact t u c rest) : Exact (alt r t) u c rest := by
  intro prev groups
  obtain ⟨prev', hrun⟩ := ht prev groups
  refine ⟨prev', ?_⟩
  show run r _ ++ run t _ = _
  rw [hrun, hr prev groups, List.nil_append]

protected theorem Fails.alt {r t : Regex α γ} {rest : List α} (hr : Fails r rest)
    (ht : Fails t rest) : Fails (alt r t) rest := by
  intro prev groups
  show run r _ ++ run t _ = _
  rw [hr prev groups, ht prev groups, List.nil_append]

protected theorem Reads.opt {r : Regex α γ} {u rest : List α} {c : List (γ × List α)}
    (h : Reads r u c rest) : Reads (opt r) u c rest := by
  intro prev groups
  obtain ⟨prev', hrun⟩ := h prev groups
  refine ⟨prev', ?_⟩
  show (run r _ ++ [_]).head? = _
  rw [List.head?_append, hrun]
  rfl

/-- What is optional is passed over. -/
protected theorem Fails.opt {r : Regex α γ} {rest : List α} (h : Fails r rest) :
    Exact (opt r) [] [] rest := by
  intro prev groups
  refine ⟨prev, ?_⟩
  show run r _ ++ [_] = _
  rw [List.nil_append, h prev groups, List.append_nil, List.nil_append]

/-! ### Repetitions, groups and the context -/

/-- A class is read to the end. -/
theorem reads_plus {p : α → Bool} {u : List α} (hne : u ≠ []) (hu : ∀ c ∈ u, p c = true)
    {rest : List α} (hrest : ∀ c, rest.head? = some c → p c = false) :
    Reads (γ := γ) (plus p) u [] rest := by
  intro prev groups
  show ∃ prev', (plusFrom p groups (u ++ rest)).head? = some ⟨prev', rest, groups ++ []⟩
  rw [List.append_nil]
  -- On the text that is read: the way that stops last comes first.
  induction u with
  | nil => exact absurd rfl hne
  | cons c u ih =>
      have hc : p c = true := hu c List.mem_cons_self
      rw [List.cons_append, plusFrom, if_pos hc, List.head?_append]
      cases u with
      | nil =>
          have hstop : plusFrom p groups rest = [] := by
            cases rest with
            | nil => rfl
            | cons d rest => exact if_neg (by rw [hrest d rfl]; exact Bool.false_ne_true)
          exact ⟨some c, by rw [List.nil_append, hstop]; rfl⟩
      | cons d u =>
          obtain ⟨prev', hrun⟩ := ih (List.cons_ne_nil d u) fun x hx =>
            hu x (List.mem_cons_of_mem c hx)
          exact ⟨prev', by rw [hrun]; rfl⟩

/-- A class that is read once. -/
theorem exact_plus {p : α → Bool} {c : α} (hc : p c = true) {rest : List α}
    (hrest : ∀ d, rest.head? = some d → p d = false) : Exact (γ := γ) (plus p) [c] [] rest := by
  intro prev groups
  refine ⟨some c, ?_⟩
  have hstop : plusFrom p groups rest = [] := by
    cases rest with
    | nil => rfl
    | cons d rest => exact if_neg (by rw [hrest d rfl]; exact Bool.false_ne_true)
  show plusFrom p groups (c :: rest) = _
  rw [plusFrom, if_pos hc, hstop, List.append_nil, List.nil_append]

theorem fails_plus {p : α → Bool} {rest : List α} (h : ∀ c, rest.head? = some c → p c = false) :
    Fails (γ := γ) (plus p) rest := by
  intro prev groups
  cases rest with
  | nil => rfl
  | cons c rest => exact if_neg (by rw [h c rfl]; exact Bool.false_ne_true)

theorem take_read (u rest : List α) :
    (u ++ rest).take ((u ++ rest).length - rest.length) = u := by
  rw [List.length_append, Nat.add_sub_cancel, List.take_left]

protected theorem Exact.group {r : Regex α γ} {u rest : List α} {c : List (γ × List α)}
    (h : Exact r u c rest) (g : γ) : Exact (group g r) u (c ++ [(g, u)]) rest := by
  intro prev groups
  obtain ⟨prev', hrun⟩ := h prev groups
  refine ⟨prev', ?_⟩
  show (run r _).map _ = _
  rw [hrun, List.map_singleton, take_read, List.append_assoc]

protected theorem Fails.group {r : Regex α γ} {rest : List α} (h : Fails r rest) (g : γ) :
    Fails (group g r) rest := by
  intro prev groups
  show (run r _).map _ = _
  rw [h prev groups, List.map_nil]

/-- A group that holds no other group. -/
theorem Exact.named {r : Regex α γ} {u rest : List α} (h : Exact r u [] rest) (g : γ) :
    Exact (Regex.group g r) u [(g, u)] rest := h.group g

theorem exact_notAhead {p : α → Bool} {rest : List α}
    (h : ∀ c, rest.head? = some c → p c = false) : Exact (γ := γ) (notAhead p) [] [] rest := by
  intro prev groups
  refine ⟨prev, ?_⟩
  have hany : rest.head?.any p = false := by
    cases rest with
    | nil => rfl
    | cons c rest => exact h c rfl
  show (if rest.head?.any p then [] else [_]) = _
  rw [hany, List.append_nil]
  rfl

/-! ### Patterns of a fixed width -/

/-- Whatever is read is `n` characters long. -/
def Width (r : Regex α γ) (n : Nat) : Prop :=
  ∀ s, ∀ t ∈ run r s, n ≤ s.rest.length ∧ t.rest = s.rest.drop n

theorem width_empty : Width (empty : Regex α γ) 0 := by
  intro s t ht
  cases List.mem_singleton.mp ht
  exact ⟨Nat.zero_le _, List.drop_zero.symm⟩

theorem width_char (p : α → Bool) : Width (γ := γ) (char p) 1 := by
  rintro ⟨prev, rest, groups⟩ t ht
  cases rest with
  | nil => cases ht
  | cons c rest =>
      simp only [run] at ht
      split at ht
      · cases List.mem_singleton.mp ht
        exact ⟨Nat.le_add_left 1 _, rfl⟩
      · cases ht

protected theorem Width.seq {r t : Regex α γ} {n m : Nat} (hr : Width r n) (ht : Width t m) :
    Width (seq r t) (n + m) := by
  intro s z hz
  obtain ⟨y, hy, hz⟩ := List.mem_flatMap.mp hz
  obtain ⟨hn, hrest⟩ := hr s y hy
  obtain ⟨hm, hrest'⟩ := ht y z hz
  rw [hrest, List.length_drop] at hm
  refine ⟨by omega, ?_⟩
  rw [hrest', hrest, List.drop_drop]

protected theorem Width.alt {r t : Regex α γ} {n : Nat} (hr : Width r n) (ht : Width t n) :
    Width (alt r t) n := by
  intro s z hz
  rcases List.mem_append.mp hz with hz | hz
  · exact hr s z hz
  · exact ht s z hz

protected theorem Width.group {r : Regex α γ} {n : Nat} (hr : Width r n) (g : γ) :
    Width (group g r) n := by
  intro s z hz
  obtain ⟨y, hy, rfl⟩ := List.mem_map.mp hz
  exact hr s y hy

/-- A sequence fails where its second part fails. -/
theorem Width.seq_fails {r t : Regex α γ} {n : Nat} (hr : Width r n) {s : List α}
    (ht : Fails t (s.drop n)) : Fails (Regex.seq r t) s := by
  intro prev groups
  refine List.flatMap_eq_nil_iff.mpr fun y hy => ?_
  obtain ⟨yprev, yrest, ygroups⟩ := y
  have hrest : yrest = s.drop n := (hr _ _ hy).2
  rw [hrest]
  exact ht yprev ygroups

/-! ## The search of a word -/

section Search

variable {p : α → Bool} {r : Regex α γ}

/-- The groups that are found where the character before is not of a class. -/
def Searches (p : α → Bool) (r : Regex α γ) (s : List α) (o : Option (List (γ × List α))) : Prop :=
  ∀ prev : Option α, prev.any p = false →
    (searchFrom (seq (notBehind p) r) prev s).map Pos.groups = o

theorem Searches.search_eq {s : List α} {o : Option (List (γ × List α))}
    (h : Searches p r s o) : search (seq (notBehind p) r) s = o := h none rfl

theorem run_word {prev : Option α} (hprev : prev.any p = false) (s : List α)
    (groups : List (γ × List α)) :
    run (seq (notBehind p) r) ⟨prev, s, groups⟩ = run r ⟨prev, s, groups⟩ := by
  show (if prev.any p = true then [] else [_]).flatMap (run r) = _
  rw [hprev, if_neg Bool.false_ne_true, List.flatMap_singleton]

theorem run_inside {x : α} (hx : p x = true) (s : List α)
    (groups : List (γ × List α)) : run (seq (notBehind p) r) ⟨some x, s, groups⟩ = [] := by
  show (if p x = true then [] else [_]).flatMap (run r) = _
  rw [if_pos hx, List.flatMap_nil]

/-- **A match.** The search stops where the pattern reads. -/
theorem searches_here {u rest : List α} {c : List (γ × List α)} (h : Reads r u c rest) :
    Searches p r (u ++ rest) (some c) := by
  intro prev hprev
  obtain ⟨prev', hrun⟩ := h prev []
  rw [← run_word hprev] at hrun
  cases hs : u ++ rest with
  | nil =>
      rw [hs] at hrun
      rw [searchFrom, hrun]
      rfl
  | cons x s =>
      rw [hs] at hrun
      rw [searchFrom, hrun]
      rfl

/-- The pattern fails where the next character is not of the class. -/
def StartsIn (p : α → Bool) (r : Regex α γ) : Prop :=
  ∀ rest : List α, (∀ c, rest.head? = some c → p c = false) → Fails r rest

theorem searches_nil (hr : StartsIn p r) : Searches p r [] none := by
  intro prev hprev
  rw [searchFrom, run_word hprev, hr [] nofun prev []]
  rfl

/-- **Other characters** are passed over. -/
theorem searches_other (hr : StartsIn p r) {u : List α} (hu : ∀ c ∈ u, p c = false) {rest : List α}
    {o : Option (List (γ × List α))} (h : Searches p r rest o) : Searches p r (u ++ rest) o := by
  induction u with
  | nil => exact h
  | cons c u ih =>
      intro prev hprev
      have hc : p c = false := hu c List.mem_cons_self
      have hfails : Fails r (c :: (u ++ rest)) := hr _ fun d hd => by
        rw [← Option.some.inj hd]
        exact hc
      rw [List.cons_append, searchFrom, run_word hprev, hfails prev []]
      exact ih (fun d hd => hu d (List.mem_cons_of_mem c hd)) (some c) hc

/-- Inside a run of characters there is no match. -/
theorem searchFrom_inside {x : α} (hx : p x = true) {d : List α} (hd : ∀ c ∈ d, p c = true)
    (rest : List α) : ∃ y, p y = true ∧
      searchFrom (seq (notBehind p) r) (some x) (d ++ rest) =
        searchFrom (seq (notBehind p) r) (some y) rest := by
  induction d generalizing x with
  | nil => exact ⟨x, hx, rfl⟩
  | cons c d ih =>
      obtain ⟨y, hy, hrest⟩ := ih (hd c List.mem_cons_self) fun z hz =>
        hd z (List.mem_cons_of_mem c hz)
      refine ⟨y, hy, ?_⟩
      rw [List.cons_append, searchFrom, run_inside hx]
      exact hrest

/-- **A run of characters** where the pattern fails is passed over, up to what separates it from the
rest. -/
theorem searches_run {d : List α} (hd : ∀ c ∈ d, p c = true) {sep : α} (hsep : p sep = false)
    {rest : List α} (hfails : Fails r (d ++ sep :: rest)) {o : Option (List (γ × List α))}
    (h : Searches p r rest o) : Searches p r (d ++ sep :: rest) o := by
  intro prev hprev
  cases d with
  | nil =>
      rw [List.nil_append, searchFrom, run_word hprev, ← List.nil_append (sep :: rest),
        hfails prev []]
      exact h (some sep) hsep
  | cons x d =>
      obtain ⟨y, hy, hrest⟩ := searchFrom_inside (r := r) (hd x List.mem_cons_self)
        (fun c hc => hd c (List.mem_cons_of_mem x hc)) (sep :: rest)
      rw [List.cons_append, searchFrom, run_word hprev, ← List.cons_append, hfails prev []]
      show (searchFrom _ (some x) (d ++ sep :: rest)).map Pos.groups = o
      rw [hrest, searchFrom, run_inside hy]
      exact h (some sep) hsep

/-- The same at the end of the text. -/
theorem searches_run_end {d : List α} (hd : ∀ c ∈ d, p c = true) (hfails : Fails r d)
    (hr : StartsIn p r) : Searches p r d none := by
  intro prev hprev
  cases d with
  | nil => exact searches_nil hr prev hprev
  | cons x d =>
      obtain ⟨y, hy, hrest⟩ := searchFrom_inside (r := r) (hd x List.mem_cons_self)
        (fun c hc => hd c (List.mem_cons_of_mem x hc)) []
      rw [List.append_nil] at hrest
      rw [searchFrom, run_word hprev, hfails prev []]
      show (searchFrom _ (some x) d).map Pos.groups = none
      rw [hrest, searchFrom, run_inside hy]
      rfl

end Search

end Regex

end MesReunions
