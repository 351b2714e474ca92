import MesReunions.Shared.FilenameDatetime

/-!
# Dates that are written in the name of a file

The ways to write a date and a time that `filename_datetime.py` describes, and how its patterns
read them.

* `Rendering` — year first, compact, or day first, with their separators.
* **`reads_iso`**, **`reads_compact`**, **`reads_eu`** — each pattern reads its own rendering, and
  the groups are the numbers that were written.
-/

namespace MesReunions.FilenameDatetime

open Str Regex

/-! ## Renderings -/

/-- `f"{n:02d}"` and `f"{n:04d}"`, of numbers that are not longer. -/
def two (n : Nat) : Str := [digitChar (n / 10), digitChar (n % 10)]
def four (n : Nat) : Str := two (n / 100) ++ two (n % 100)

/-- A separator of a class. -/
abbrev Sep (cs : List Char) := {c : Char // c ∈ cs}

/-- What stands between the date and the time. -/
structure Gap where
  head : Char
  tail : Str
  mem : ∀ c ∈ head :: tail, c ∈ gapChars

def Gap.text (g : Gap) : Str := g.head :: g.tail

/-- One character. -/
def Gap.single (c : Char) (h : c ∈ gapChars) : Gap :=
  ⟨c, [], fun _ hd => List.mem_singleton.mp hd ▸ h⟩

/-- The ways to write a date and a time; the seconds are left out or not. -/
inductive Rendering where
  | iso (s s' : Sep isoSeps) (gap : Gap) (h : Sep hourSeps) (seconds : Option (Sep minuteSeps))
  | compact (s : Sep ['_', '-']) (seconds : Bool)
  | european (s s' : Sep euSeps) (gap : Gap) (accent : Option (Sep [' ', '_'])) (h : Sep hourSeps)
      (seconds : Option (Sep minuteSeps))

namespace Rendering

/-- The separator and the seconds. -/
def secondsText (t : Local) : Option (Sep minuteSeps) → Str
  | none => []
  | some s => s.1 :: two t.second

/-- The time. -/
def clockText (t : Local) (h : Sep hourSeps) (seconds : Option (Sep minuteSeps)) : Str :=
  two t.hour ++ h.1 :: (two t.minute ++ secondsText t seconds)

/-- `à`, and what follows it. -/
def accentText : Option (Sep [' ', '_']) → Str
  | none => []
  | some s => ['à', s.1]

/-- What is written. -/
def render (t : Local) : Rendering → Str
  | iso s s' gap h seconds =>
      four t.date.year ++ s.1 :: (two t.date.month ++ s'.1 :: (two t.date.day ++
        (gap.text ++ clockText t h seconds)))
  | compact s seconds =>
      four t.date.year ++ (two t.date.month ++ (two t.date.day ++ s.1 :: (two t.hour ++
        (two t.minute ++ if seconds then two t.second else []))))
  | european s s' gap accent h seconds =>
      two t.date.day ++ s.1 :: (two t.date.month ++ s'.1 :: (four t.date.year ++
        (gap.text ++ (accentText accent ++ clockText t h seconds))))

/-- The seconds are written. -/
def ShowsSeconds : Rendering → Prop
  | iso _ _ _ _ seconds => seconds.isSome = true
  | compact _ seconds => seconds = true
  | european _ _ _ _ _ seconds => seconds.isSome = true

end Rendering

/-! ## Numbers -/

theorem natOfDigits_two {n : Nat} (h : n < 100) : natOfDigits (two n) = n := by
  have hread := natOfDigits_map_digitChar [n % 10, n / 10] (by simp; omega)
  have hvalue : Nat.ofDigits 10 [n % 10, n / 10] = n := by
    simp only [Nat.ofDigits_cons, Nat.ofDigits_nil]
    omega
  exact hread.trans hvalue

theorem natOfDigits_four {n : Nat} (h : n < 10000) : natOfDigits (four n) = n := by
  have hread := natOfDigits_map_digitChar
    [n % 100 % 10, n % 100 / 10, n / 100 % 10, n / 100 / 10] (by simp; omega)
  have hvalue : Nat.ofDigits 10 [n % 100 % 10, n % 100 / 10, n / 100 % 10, n / 100 / 10] = n := by
    simp only [Nat.ofDigits_cons, Nat.ofDigits_nil]
    omega
  exact hread.trans hvalue

theorem isDigit_digitChar {n : Nat} (h : n < 10) : isDigit (digitChar n) = true :=
  isDigit_of_js (digitChar_js n h)

theorem digits_two {n : Nat} (h : n < 100) : ∀ c ∈ two n, isDigit c = true := by
  intro c hc
  rcases List.mem_cons.mp hc with rfl | hc
  · exact isDigit_digitChar (by omega)
  · rw [List.mem_singleton.mp hc]
    exact isDigit_digitChar (by omega)

theorem digits_four {n : Nat} (h : n < 10000) : ∀ c ∈ four n, isDigit c = true := by
  intro c hc
  rcases List.mem_append.mp hc with hc | hc
  · exact digits_two (by omega) c hc
  · exact digits_two (by omega) c hc

theorem intOf_two {n : Nat} (h : n < 100) : intOf (two n) = .ok n := by
  rw [intOf, if_pos ⟨List.cons_ne_nil _ _, List.all_eq_true.mpr (digits_two h)⟩, natOfDigits_two h]

theorem intOf_four {n : Nat} (h : n < 10000) : intOf (four n) = .ok n := by
  rw [intOf, if_pos ⟨List.cons_ne_nil _ _, List.all_eq_true.mpr (digits_four h)⟩,
    natOfDigits_four h]

/-! ## Fields -/

theorem exact_of_run {r : Pattern} {u rest : Str}
    (h : ∀ prev groups, ∃ prev', run r ⟨prev, u ++ rest, groups⟩ = [⟨prev', rest, groups⟩]) :
    Exact r u [] rest := by
  intro prev groups
  rw [List.append_nil]
  exact h prev groups

theorem exact_cls {cs : List Char} {c : Char} (h : c ∈ cs) (rest : Str) :
    Exact (cls cs) [c] [] rest :=
  exact_char (p := fun c => decide (c ∈ cs)) (decide_eq_true h) rest

theorem fails_cls {cs : List Char} {rest : Str} (h : ∀ c, rest.head? = some c → c ∉ cs) :
    Fails (cls cs) rest :=
  fails_char fun c hc => decide_eq_false (h c hc)

theorem exact_month {n : Nat} (h : 1 ≤ n ∧ n ≤ 12) (rest : Str) : Exact month (two n) [] rest := by
  obtain ⟨hlo, hhi⟩ := h
  refine exact_of_run fun prev groups => ?_
  interval_cases n <;> exact ⟨_, rfl⟩

theorem exact_day {n : Nat} (h : 1 ≤ n ∧ n ≤ 31) (rest : Str) : Exact day (two n) [] rest := by
  obtain ⟨hlo, hhi⟩ := h
  refine exact_of_run fun prev groups => ?_
  interval_cases n <;> exact ⟨_, rfl⟩

theorem exact_hour {n : Nat} (h : n < 24) (rest : Str) : Exact hour (two n) [] rest := by
  refine exact_of_run fun prev groups => ?_
  interval_cases n <;> exact ⟨_, rfl⟩

theorem exact_minute {n : Nat} (h : n < 60) (rest : Str) : Exact minute (two n) [] rest := by
  refine exact_of_run fun prev groups => ?_
  interval_cases n <;> exact ⟨_, rfl⟩

theorem fails_month {n : Nat} (h : ¬ (1 ≤ n ∧ n ≤ 12)) (hn : n < 24) (rest : Str) :
    Fails month (two n ++ rest) := by
  intro prev groups
  have hcases : n = 0 ∨ 13 ≤ n := by omega
  rcases hcases with rfl | hlo
  · rfl
  · interval_cases n <;> rfl

theorem fails_day {n : Nat} (h : ¬ (1 ≤ n ∧ n ≤ 31)) (hn : n < 60) (rest : Str) :
    Fails day (two n ++ rest) := by
  intro prev groups
  have hcases : n = 0 ∨ 32 ≤ n := by omega
  rcases hcases with rfl | hlo
  · rfl
  · interval_cases n <;> rfl

theorem four_eq {n : Nat} (h : 2000 ≤ n ∧ n ≤ 2099) :
    four n = ['2', '0', digitChar (n % 100 / 10), digitChar (n % 10)] := by
  have hcentury : n / 100 = 20 := by omega
  have hlast : n % 100 % 10 = n % 10 := by omega
  rw [four, hcentury, two, two, hlast]
  rfl

theorem exact_year {n : Nat} (h : 2000 ≤ n ∧ n ≤ 2099) (rest : Str) :
    Exact year (four n) [] rest := by
  rw [four_eq h]
  have hdigit : ∀ m < 10, ∀ rest, Exact digit [digitChar m] [] rest := fun m hm rest =>
    exact_char (isDigit_digitChar hm) rest
  have hlast : Exact (seqs [digit, digit]) [digitChar (n % 100 / 10), digitChar (n % 10)] [] rest :=
    Exact.seq (hdigit (n % 100 / 10) (by omega) _)
      (Exact.seq (hdigit (n % 10) (by omega) _) (exact_empty rest))
  exact Exact.seq (exact_cls List.mem_cons_self _)
    (Exact.seq (exact_cls List.mem_cons_self _) hlast)

/-! ### Separators are no digits -/

theorem not_digit {cs : List Char} (h : (cs.all fun c => !isDigit c) = true) {c : Char}
    (hc : c ∈ cs) : isDigit c = false := by
  have hall := List.all_eq_true.mp h c hc
  rwa [Bool.not_eq_true'] at hall

theorem sep_iso (s : Sep isoSeps) : isDigit s.1 = false := not_digit (by decide) s.2
theorem sep_eu (s : Sep euSeps) : isDigit s.1 = false := not_digit (by decide) s.2
theorem sep_hour (s : Sep hourSeps) : isDigit s.1 = false := not_digit (by decide) s.2
theorem sep_minute (s : Sep minuteSeps) : isDigit s.1 = false := not_digit (by decide) s.2
theorem sep_compact (s : Sep ['_', '-']) : isDigit s.1 = false := not_digit (by decide) s.2
theorem sep_accent (s : Sep [' ', '_']) : isDigit s.1 = false := not_digit (by decide) s.2

theorem sep_gap (g : Gap) : ∀ c ∈ g.text, isDigit c = false := fun c hc =>
  not_digit (by decide) (g.mem c hc)

/-- A digit is in no class of separators. -/
theorem not_mem_of_digit {cs : List Char} (h : (cs.all fun c => !isDigit c) = true) {c : Char}
    (hc : isDigit c = true) : c ∉ cs := by
  intro hmem
  rw [not_digit h hmem] at hc
  cases hc

/-! ## What the patterns read -/

namespace Rendering

/-- The groups of the time. -/
def clockGroups (t : Local) (seconds : Bool) : List (Name × Str) :=
  (Name.hour, two t.hour) :: (Name.minute, two t.minute) ::
    if seconds then [(Name.second, two t.second)] else []

theorem reads_clock (t : Local) (h : Sep hourSeps) (seconds : Option (Sep minuteSeps)) :
    Reads (seqs clock) (clockText t h seconds) (clockGroups t seconds.isSome) [] := by
  obtain ⟨hhour, hminute, hsecond, -⟩ := t.valid
  have hend : Reads (seqs [opt (seqs [cls minuteSeps, group .second minute])])
      (secondsText t seconds)
      (if seconds.isSome then [(Name.second, two t.second)] else []) [] := by
    cases seconds with
    | none =>
        have hskip : Fails (seqs [cls minuteSeps, group .second minute]) [] :=
          (fails_char_nil _).seq _
        exact Reads.cons hskip.opt.reads (exact_nil []).reads
    | some s =>
        have hseconds : Exact (seqs [cls minuteSeps, group .second minute])
            ([s.1] ++ (two t.second ++ [])) ([] ++ ([(Name.second, two t.second)] ++ [])) [] :=
          (exact_cls s.2 _).cons (((exact_minute hsecond _).named Name.second).cons (exact_nil []))
        exact Reads.cons (Reads.opt hseconds.reads) (exact_nil []).reads
  have hall : Reads (seqs clock)
      (two t.hour ++ ([h.1] ++ (two t.minute ++ secondsText t seconds)))
      ([(Name.hour, two t.hour)] ++ ([] ++ ([(Name.minute, two t.minute)] ++
        if seconds.isSome then [(Name.second, two t.second)] else []))) [] :=
    Reads.cons ((exact_hour hhour _).named Name.hour).reads
      (Reads.cons (exact_cls h.2 _).reads
        (Reads.cons ((exact_minute hminute _).named Name.minute).reads hend))
  exact hall

/-- What begins with a field does not begin with a separator. -/
theorem head_two {n : Nat} (hn : n < 100) {cs : List Char}
    (h : (cs.all fun c => !isDigit c) = true) (rest : Str) :
    ∀ c, (two n ++ rest).head? = some c → c ∉ cs := by
  intro c hc
  rw [← Option.some.inj hc]
  exact not_mem_of_digit h (isDigit_digitChar (by omega))

theorem reads_gap (g : Gap) {rest : Str} (h : ∀ c, rest.head? = some c → c ∉ gapChars) :
    Reads gap g.text [] rest :=
  reads_plus (p := fun c => decide (c ∈ gapChars)) (List.cons_ne_nil _ _)
    (fun c hc => decide_eq_true (g.mem c hc)) fun c hc => decide_eq_false (h c hc)

theorem reads_end : Reads (seqs [notAhead isDigit] : Pattern) [] [] [] := by
  have hnil : ∀ c, ([] : Str).head? = some c → isDigit c = false := nofun
  exact Reads.cons (u := []) (v := []) (exact_notAhead hnil).reads (exact_nil []).reads

section Patterns

variable {t : Local} (hyear : 2000 ≤ t.date.year ∧ t.date.year ≤ 2099)

theorem month_le (d : Date) : 1 ≤ d.month ∧ d.month ≤ 12 := ⟨d.valid.2.2.1, d.valid.2.2.2.1⟩

theorem day_le (d : Date) : 1 ≤ d.day ∧ d.day ≤ 31 := by
  have hlast := d.valid.2.2.2.2.2
  have hmonth : daysInMonth d.year d.month ≤ 31 := by
    unfold daysInMonth
    split
    · split <;> omega
    · split <;> omega
  exact ⟨d.valid.2.2.2.2.1, hlast.trans hmonth⟩

include hyear in
/-- Year first. -/
theorem reads_iso (s s' : Sep isoSeps) (gap : Gap) (h : Sep hourSeps)
    (seconds : Option (Sep minuteSeps)) :
    Reads isoBody (render t (iso s s' gap h seconds))
      ((Name.year, four t.date.year) :: (Name.month, two t.date.month) ::
        (Name.day, two t.date.day) :: clockGroups t seconds.isSome) [] := by
  have hgap : ∀ c, (clockText t h seconds ++ [] ++ []).head? = some c → c ∉ gapChars := by
    rw [List.append_nil, List.append_nil]
    exact head_two (by have := t.valid.1; omega) (by decide) _
  have htime : Reads (opt (seqs (FilenameDatetime.gap :: clock)))
      (gap.text ++ clockText t h seconds) ([] ++ clockGroups t seconds.isSome) [] :=
    (Reads.cons (reads_gap gap (by simpa using hgap)) (reads_clock t h seconds)).opt
  have htail := Reads.cons (v := []) htime reads_end
  have hall : Reads isoBody
      (four t.date.year ++ ([s.1] ++ (two t.date.month ++ ([s'.1] ++ (two t.date.day ++
        (gap.text ++ clockText t h seconds ++ []))))))
      ([(Name.year, four t.date.year)] ++ ([] ++ ([(Name.month, two t.date.month)] ++ ([] ++
        ([(Name.day, two t.date.day)] ++ ([] ++ clockGroups t seconds.isSome ++ [])))))) [] :=
    Reads.cons ((exact_year hyear _).named Name.year).reads <|
      Reads.cons (exact_cls s.2 _).reads <|
        Reads.cons ((exact_month (month_le t.date) _).named Name.month).reads <|
          Reads.cons (exact_cls s'.2 _).reads <|
            Reads.cons ((exact_day (day_le t.date) _).named Name.day).reads htail
  simpa [render] using hall

include hyear in
/-- Compact. -/
theorem reads_compact (s : Sep ['_', '-']) (seconds : Bool) :
    Reads compactBody (render t (compact s seconds))
      ((Name.year, four t.date.year) :: (Name.month, two t.date.month) ::
        (Name.day, two t.date.day) :: clockGroups t seconds) [] := by
  obtain ⟨hhour, hminute, hsecond, -⟩ := t.valid
  have hend : Reads (seqs [opt (group .second minute)]) (if seconds then two t.second else [])
      (if seconds then [(Name.second, two t.second)] else []) [] := by
    cases seconds with
    | false =>
        have hskip : Fails (group .second minute : Pattern) [] :=
          Fails.group ((fails_char_nil _).seq _) _
        exact Reads.cons hskip.opt.reads (exact_nil []).reads
    | true =>
        have hseconds : Exact (group .second minute) (two t.second)
            [(Name.second, two t.second)] [] := (exact_minute hsecond _).named Name.second
        exact Reads.cons (v := []) (Reads.opt hseconds.reads) (exact_nil []).reads
  have htime : Reads (opt (seqs [cls ['_', '-'], group .hour hour, group .minute minute,
      opt (group .second minute)]))
      ([s.1] ++ (two t.hour ++ (two t.minute ++ if seconds then two t.second else [])))
      ([] ++ ([(Name.hour, two t.hour)] ++ ([(Name.minute, two t.minute)] ++
        if seconds then [(Name.second, two t.second)] else []))) [] :=
    Reads.opt <| Reads.cons (exact_cls s.2 _).reads <|
      Reads.cons ((exact_hour hhour _).named Name.hour).reads <|
        Reads.cons ((exact_minute hminute _).named Name.minute).reads hend
  have htail := Reads.cons (v := []) htime reads_end
  have hall : Reads compactBody
      (four t.date.year ++ (two t.date.month ++ (two t.date.day ++ ([s.1] ++ (two t.hour ++
        (two t.minute ++ if seconds then two t.second else [])) ++ []))))
      ([(Name.year, four t.date.year)] ++ ([(Name.month, two t.date.month)] ++
        ([(Name.day, two t.date.day)] ++ ([] ++ ([(Name.hour, two t.hour)] ++
          ([(Name.minute, two t.minute)] ++
            if seconds then [(Name.second, two t.second)] else [])) ++ [])))) [] :=
    Reads.cons ((exact_year hyear _).named Name.year).reads <|
      Reads.cons ((exact_month (month_le t.date) _).named Name.month).reads <|
        Reads.cons ((exact_day (day_le t.date) _).named Name.day).reads htail
  simpa [render, clockGroups] using hall

include hyear in
/-- Day first. -/
theorem reads_eu (s s' : Sep euSeps) (gap : Gap) (accent : Option (Sep [' ', '_']))
    (h : Sep hourSeps) (seconds : Option (Sep minuteSeps)) :
    Reads euBody (render t (european s s' gap accent h seconds))
      ((Name.day, two t.date.day) :: (Name.month, two t.date.month) ::
        (Name.year, four t.date.year) :: clockGroups t seconds.isSome) [] := by
  have hhead : ∀ cs : List Char, (cs.all fun c => !isDigit c) = true →
      ∀ c, (clockText t h seconds).head? = some c → c ∉ cs := fun cs hcs =>
    head_two (by have := t.valid.1; omega) hcs _
  have hmark : Reads (opt (seqs [cls ['à'], cls [' ', '_']])) (accentText accent) []
      (clockText t h seconds) := by
    cases accent with
    | none =>
        have hskip : Fails (seqs [cls ['à'], cls [' ', '_']]) (clockText t h seconds) :=
          (fails_cls (hhead _ (by decide))).seq _
        exact hskip.opt.reads
    | some a =>
        have hread : Exact (seqs [cls ['à'], cls [' ', '_']]) (['à'] ++ ([a.1] ++ []))
            ([] ++ ([] ++ [])) (clockText t h seconds) :=
          (exact_cls List.mem_cons_self _).cons ((exact_cls a.2 _).cons (exact_nil _))
        exact Reads.opt hread.reads
  have hgap : ∀ c, (accentText accent ++ clockText t h seconds).head? = some c → c ∉ gapChars := by
    cases accent with
    | none => exact hhead gapChars (by decide)
    | some a =>
        intro c hc
        rw [← Option.some.inj hc]
        decide
  have htime : Reads
      (opt (seqs (FilenameDatetime.gap :: opt (seqs [cls ['à'], cls [' ', '_']]) :: clock)))
      (gap.text ++ (accentText accent ++ clockText t h seconds))
      ([] ++ ([] ++ clockGroups t seconds.isSome)) [] :=
    Reads.opt <| Reads.cons (reads_gap gap (by simpa using hgap)) <|
      Reads.cons (by simpa using hmark) (reads_clock t h seconds)
  have htail := Reads.cons (v := []) htime reads_end
  have hall : Reads euBody
      (two t.date.day ++ ([s.1] ++ (two t.date.month ++ ([s'.1] ++ (four t.date.year ++
        (gap.text ++ (accentText accent ++ clockText t h seconds) ++ []))))))
      ([(Name.day, two t.date.day)] ++ ([] ++ ([(Name.month, two t.date.month)] ++ ([] ++
        ([(Name.year, four t.date.year)] ++
          ([] ++ ([] ++ clockGroups t seconds.isSome) ++ [])))))) [] :=
    Reads.cons ((exact_day (day_le t.date) _).named Name.day).reads <|
      Reads.cons (exact_cls s.2 _).reads <|
        Reads.cons ((exact_month (month_le t.date) _).named Name.month).reads <|
          Reads.cons (exact_cls s'.2 _).reads <|
            Reads.cons ((exact_year hyear _).named Name.year).reads htail
  simpa [render] using hall

end Patterns

end Rendering

end MesReunions.FilenameDatetime
