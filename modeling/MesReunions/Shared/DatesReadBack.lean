import MesReunions.Shared.DateRenderings

/-!
# Dates are read back

What `extract_meeting_datetime` finds in a name that holds a date and a time.

* `Rendering.LooksIso` — a day-first date whose year, hour and minute look like a year-first date.
* `Rendering.Misread` — they are such a date, and it is accepted.
* **`searches_iso_eu`** — what the first pattern finds in a day-first date.
* **`readBack_iff`**, **`extract_exact`** — what is written is read back unless it is misread.
-/

namespace MesReunions.FilenameDatetime

open Str Regex

/-! ## Widths -/

theorem width_pair (p q : Char → Bool) : Width (seqs [.char p, .char q] : Pattern) 2 :=
  (width_char p).seq ((width_char q).seq width_empty)

theorem width_month : Width month 2 := (width_pair _ _).alt (width_pair _ _)
theorem width_day : Width day 2 := (width_pair _ _).alt ((width_pair _ _).alt (width_pair _ _))
theorem width_hour : Width hour 2 := (width_pair _ _).alt (width_pair _ _)

theorem width_year : Width year 4 :=
  (width_char _).seq ((width_char _).seq (width_pair _ _))

/-! ## Where a pattern fails -/

theorem fails_digits {cs : List Char} (hcs : (cs.all fun c => isDigit c) = true) {rest : Str}
    (h : ∀ c, rest.head? = some c → isDigit c = false) : Fails (cls cs) rest := by
  refine fails_cls fun c hc hmem => ?_
  have hdigit := List.all_eq_true.mp hcs c hmem
  rw [h c hc] at hdigit
  cases hdigit

theorem startsIn_year (rs : List Pattern) : StartsIn isDigit (seqs (group .year year :: rs)) := by
  intro rest h
  have hyear : Fails year rest := (fails_digits (by decide) h).seq _
  exact (hyear.group _).seq _

theorem startsIn_day (rs : List Pattern) : StartsIn isDigit (seqs (group .day day :: rs)) := by
  intro rest h
  have hday : Fails day rest :=
    Fails.alt ((fails_digits (by decide) h).seq _)
      (Fails.alt ((fails_digits (by decide) h).seq _) ((fails_digits (by decide) h).seq _))
  exact (hday.group _).seq _

/-- A year is longer than a field that a separator follows. -/
theorem fails_year_two {n : Nat} (sep : Char) (hsep : isDigit sep = false) (rest : Str)
    (rs : List Pattern) : Fails (seqs (group .year year :: rs)) (two n ++ sep :: rest) := by
  have hend : Fails (seqs [digit, digit]) (sep :: rest) := (fails_char_cons hsep rest).seq _
  have hyear : Fails year (two n ++ sep :: rest) :=
    (width_char _).seq_fails (s := two n ++ sep :: rest)
      ((width_char _).seq_fails (s := digitChar (n % 10) :: sep :: rest) hend)
  exact (hyear.group _).seq _

/-- The same at the end of the text. -/
theorem fails_year_end (n : Nat) (rs : List Pattern) :
    Fails (seqs (group .year year :: rs)) (two n) := by
  have hend : Fails (seqs [digit, digit]) [] := (fails_char_nil _).seq _
  have hyear : Fails year (two n) :=
    (width_char _).seq_fails (s := two n)
      ((width_char _).seq_fails (s := [digitChar (n % 10)]) hend)
  exact (hyear.group _).seq _

/-- After the year comes a separator. -/
theorem fails_iso_four {s : Str} (h : ∀ c, (s.drop 4).head? = some c → c ∉ isoSeps) :
    Fails isoBody s := (width_year.group _).seq_fails ((fails_cls h).seq _)

/-- After the day comes a separator. -/
theorem fails_eu_two {s : Str} (h : ∀ c, (s.drop 2).head? = some c → c ∉ euSeps) :
    Fails euBody s := (width_day.group _).seq_fails ((fails_cls h).seq _)

namespace Rendering

/-! ## A day-first date that looks like a year-first one -/

/-- Between the year, the hour and the minute stand separators of a year-first date, and the hour
and the minute are those of a month and of a day. -/
def LooksIso (t : Local) : Rendering → Prop
  | european _ _ gap none h _ =>
      (gap.tail = [] ∧ gap.head ∈ isoSeps ∧ h.1 ∈ isoSeps) ∧ (1 ≤ t.hour ∧ t.hour ≤ 12) ∧
        (1 ≤ t.minute ∧ t.minute ≤ 31)
  | _ => False

variable {t : Local}

/-- The groups of the year, the hour and the minute, under other names. -/
def misreadGroups (t : Local) : List (Name × Str) :=
  [(Name.year, four t.date.year), (Name.month, two t.hour), (Name.day, two t.minute)]

/-- The seconds are not read as a time. -/
theorem fails_seconds (seconds : Option (Sep minuteSeps)) (hsecond : t.second < 60) :
    Fails (seqs (gap :: clock)) (secondsText t seconds) := by
  cases seconds with
  | none => exact (fails_plus nofun).seq _
  | some s =>
      by_cases hs : s.1 ∈ gapChars
      · have hhead : ∀ c, (two t.second).head? = some c → decide (c ∈ gapChars) = false := by
          intro c hc
          refine decide_eq_false (head_two (n := t.second) (by omega) (by decide) [] c ?_)
          rwa [List.append_nil]
        have hclock : Fails (seqs clock) (two t.second) :=
          (width_hour.group _).seq_fails ((fails_char_nil _).seq _)
        have hgap : Exact gap [s.1] [] (two t.second) :=
          exact_plus (p := fun c => decide (c ∈ gapChars)) (decide_eq_true hs) hhead
        exact hgap.seq_fails hclock
      · have hhead : ∀ c, (s.1 :: two t.second).head? = some c →
            decide (c ∈ gapChars) = false := by
          intro c hc
          rw [← Option.some.inj hc]
          exact decide_eq_false hs
        exact (fails_plus hhead).seq _

/-- The year, the hour and the minute are read as a date. -/
theorem reads_misread (hyear : 2000 ≤ t.date.year ∧ t.date.year ≤ 2099) {g : Char}
    (hg : g ∈ isoSeps) {h : Sep hourSeps} (hh : h.1 ∈ isoSeps) (hhour : 1 ≤ t.hour ∧ t.hour ≤ 12)
    (hminute : 1 ≤ t.minute ∧ t.minute ≤ 31) (seconds : Option (Sep minuteSeps)) :
    Reads isoBody (four t.date.year ++ ([g] ++ (two t.hour ++ ([h.1] ++ (two t.minute ++ [])))))
      (misreadGroups t) (secondsText t seconds) := by
  have hsecond := t.valid.2.2.1
  have hstop : ∀ c, (secondsText t seconds).head? = some c → isDigit c = false := by
    cases seconds with
    | none => exact nofun
    | some s =>
        intro c hc
        rw [← Option.some.inj hc]
        exact sep_minute s
  have hend : Exact (seqs [notAhead isDigit] : Pattern) ([] ++ []) ([] ++ [])
      (secondsText t seconds) := (exact_notAhead hstop).cons (exact_nil _)
  have htail : Exact (seqs [opt (seqs (gap :: clock)), notAhead isDigit]) ([] ++ ([] ++ []))
      ([] ++ ([] ++ [])) (secondsText t seconds) :=
    (Fails.opt (fails_seconds seconds hsecond)).cons hend
  have hall : Exact isoBody
      (four t.date.year ++ ([g] ++ (two t.hour ++ ([h.1] ++ (two t.minute ++ [])))))
      ([(Name.year, four t.date.year)] ++ ([] ++ ([(Name.month, two t.hour)] ++ ([] ++
        ([(Name.day, two t.minute)] ++ []))))) (secondsText t seconds) :=
    ((exact_year hyear _).named Name.year).cons <| (exact_cls hg _).cons <|
      ((exact_month hhour _).named Name.month).cons <| (exact_cls hh _).cons <|
        ((exact_day hminute _).named Name.day).cons htail
  exact hall.reads

/-- Otherwise the year does not begin a date. -/
theorem fails_iso_eu (s s' : Sep euSeps) (gap : Gap) (accent : Option (Sep [' ', '_']))
    (h : Sep hourSeps) (seconds : Option (Sep minuteSeps))
    (hlooks : ¬ LooksIso t (european s s' gap accent h seconds)) :
    Fails isoBody (four t.date.year ++ gap.head :: (gap.tail ++
      (accentText accent ++ clockText t h seconds))) := by
  obtain ⟨hhour, hminute, -, -⟩ := t.valid
  refine (width_year.group _).seq_fails ?_
  show Fails _ (gap.head :: (gap.tail ++ (accentText accent ++ clockText t h seconds)))
  by_cases hhead : gap.head ∈ isoSeps
  swap
  · refine (fails_cls fun c hc => ?_).seq _
    rwa [← Option.some.inj hc]
  refine (width_char _).seq_fails ?_
  show Fails _ (gap.tail ++ (accentText accent ++ clockText t h seconds))
  -- What follows the separator begins with a digit, or there is no month.
  have hmonth : ∀ (c : Char) (rest : Str), isDigit c = false → Fails month (c :: rest) :=
    fun c rest hc => by
      have hstart : ∀ d, (c :: rest).head? = some d → isDigit d = false := fun d hd => by
        rwa [← Option.some.inj hd]
      exact Fails.alt ((fails_digits (by decide) hstart).seq _)
        ((fails_digits (by decide) hstart).seq _)
  cases htail : gap.tail with
  | cons c tail =>
      have hc : c ∈ gap.text := by
        rw [Gap.text, htail]
        exact List.mem_cons_of_mem _ List.mem_cons_self
      exact ((hmonth c _ (sep_gap gap c hc)).group _).seq _
  | nil =>
      cases accent with
      | some a => exact ((hmonth 'à' _ (by decide)).group _).seq _
      | none =>
          by_cases hmonths : 1 ≤ t.hour ∧ t.hour ≤ 12
          swap
          · exact ((fails_month hmonths hhour _).group _).seq _
          refine (width_month.group _).seq_fails ?_
          by_cases hsep : h.1 ∈ isoSeps
          swap
          · refine (fails_cls fun c hc => ?_).seq _
            have hc' : h.1 = c := Option.some.inj hc
            rwa [← hc']
          refine (width_char _).seq_fails ?_
          have hdays : ¬ (1 ≤ t.minute ∧ t.minute ≤ 31) := fun hdays =>
            hlooks ⟨⟨htail, hhead, hsep⟩, hmonths, hdays⟩
          exact ((fails_day hdays hminute _).group _).seq _

/-! ## What the patterns find -/

variable {pre : Str}

/-- **Year first**: the first pattern finds it. -/
theorem searches_iso (hpre : ∀ c ∈ pre, isDigit c = false)
    (hyear : 2000 ≤ t.date.year ∧ t.date.year ≤ 2099) (s s' : Sep isoSeps) (gap : Gap)
    (h : Sep hourSeps) (seconds : Option (Sep minuteSeps)) :
    search isoPattern (pre ++ render t (iso s s' gap h seconds)) =
      some ((Name.year, four t.date.year) :: (Name.month, two t.date.month) ::
        (Name.day, two t.date.day) :: clockGroups t seconds.isSome) := by
  have hhere := searches_here (p := isDigit) (reads_iso hyear s s' gap h seconds)
  rw [List.append_nil] at hhere
  exact (searches_other (startsIn_year _) hpre hhere).search_eq

/-- **Day first**: the first pattern finds a date when there seems to be one. -/
theorem searches_iso_eu (hpre : ∀ c ∈ pre, isDigit c = false)
    (hyear : 2000 ≤ t.date.year ∧ t.date.year ≤ 2099) (s s' : Sep euSeps) (gap : Gap)
    (accent : Option (Sep [' ', '_'])) (h : Sep hourSeps) (seconds : Option (Sep minuteSeps)) :
    (LooksIso t (european s s' gap accent h seconds) →
      search isoPattern (pre ++ render t (european s s' gap accent h seconds)) =
        some (misreadGroups t)) ∧
    (¬ LooksIso t (european s s' gap accent h seconds) →
      search isoPattern (pre ++ render t (european s s' gap accent h seconds)) = none) := by
  have hstart : StartsIn isDigit isoBody := startsIn_year _
  have hday := day_le t.date
  have hmonth := month_le t.date
  obtain ⟨hhour, hminute, hsecond, -⟩ := t.valid
  -- The day and the month are too short to be a year.
  have hskip : ∀ o, Searches isDigit isoBody (four t.date.year ++ (gap.text ++
      (accentText accent ++ clockText t h seconds))) o →
      search isoPattern (pre ++ render t (european s s' gap accent h seconds)) = o := by
    intro o ho
    have hmonths := searches_run (digits_two (n := t.date.month) (by omega)) (sep_eu s')
      (fails_year_two s'.1 (sep_eu s') _ _) ho
    have hdays := searches_run (digits_two (n := t.date.day) (by omega)) (sep_eu s)
      (fails_year_two s.1 (sep_eu s) _ _) hmonths
    exact (searches_other hstart hpre hdays).search_eq
  constructor
  · intro hlooks
    refine hskip _ ?_
    cases accent with
    | some a => exact hlooks.elim
    | none =>
        obtain ⟨⟨htail, hhead, hsep⟩, hmonths, hdays⟩ := hlooks
        have hread := searches_here (p := isDigit)
          (reads_misread hyear hhead hsep hmonths hdays seconds)
        simpa [Gap.text, htail, accentText, clockText] using hread
  · intro hlooks
    refine hskip none ?_
    have hminutes : Searches isDigit isoBody (two t.minute ++ secondsText t seconds) none := by
      cases hs : seconds with
      | none =>
          rw [secondsText, List.append_nil]
          exact searches_run_end (digits_two (by omega)) (fails_year_end t.minute _) hstart
      | some m =>
          have hfields : Searches isDigit isoBody (two t.second) none :=
            searches_run_end (digits_two (by omega)) (fails_year_end t.second _) hstart
          exact searches_run (digits_two (by omega)) (sep_minute m)
            (fails_year_two m.1 (sep_minute m) _ _) hfields
    have hclock : Searches isDigit isoBody (clockText t h seconds) none :=
      searches_run (digits_two (by omega)) (sep_hour h) (fails_year_two h.1 (sep_hour h) _ _)
        hminutes
    have haccent : ∀ c ∈ gap.tail ++ accentText accent, isDigit c = false := by
      intro c hc
      rcases List.mem_append.mp hc with hc | hc
      · exact sep_gap gap c (List.mem_cons_of_mem _ hc)
      · cases accent with
        | none => cases hc
        | some a =>
            rcases List.mem_cons.mp hc with rfl | hc
            · decide
            · rw [List.mem_singleton.mp hc]
              exact sep_accent a
    have hrest := searches_other hstart haccent hclock
    rw [List.append_assoc] at hrest
    exact searches_run (digits_four (by omega)) (sep_gap gap gap.head List.mem_cons_self)
      (fails_iso_eu s s' gap accent h seconds hlooks) hrest

/-- **Day first**: the second pattern finds it. -/
theorem searches_eu (hpre : ∀ c ∈ pre, isDigit c = false)
    (hyear : 2000 ≤ t.date.year ∧ t.date.year ≤ 2099) (s s' : Sep euSeps) (gap : Gap)
    (accent : Option (Sep [' ', '_'])) (h : Sep hourSeps) (seconds : Option (Sep minuteSeps)) :
    search euPattern (pre ++ render t (european s s' gap accent h seconds)) =
      some ((Name.day, two t.date.day) :: (Name.month, two t.date.month) ::
        (Name.year, four t.date.year) :: clockGroups t seconds.isSome) := by
  have hhere := searches_here (p := isDigit) (reads_eu hyear s s' gap accent h seconds)
  rw [List.append_nil] at hhere
  exact (searches_other (startsIn_day _) hpre hhere).search_eq

/-- **Compact**: no other pattern finds a date. -/
theorem searches_compact (hpre : ∀ c ∈ pre, isDigit c = false)
    (hyear : 2000 ≤ t.date.year ∧ t.date.year ≤ 2099) (s : Sep ['_', '-']) (seconds : Bool) :
    search isoPattern (pre ++ render t (compact s seconds)) = none ∧
    search euPattern (pre ++ render t (compact s seconds)) = none ∧
    search compactPattern (pre ++ render t (compact s seconds)) =
      some ((Name.year, four t.date.year) :: (Name.month, two t.date.month) ::
        (Name.day, two t.date.day) :: clockGroups t seconds) := by
  have hday := day_le t.date
  have hmonth := month_le t.date
  obtain ⟨hhour, hminute, hsecond, -⟩ := t.valid
  have hdate : ∀ c ∈ four t.date.year ++ (two t.date.month ++ two t.date.day),
      isDigit c = true := by
    intro c hc
    rcases List.mem_append.mp hc with hc | hc
    · exact digits_four (by omega) c hc
    · rcases List.mem_append.mp hc with hc | hc
      · exact digits_two (by omega) c hc
      · exact digits_two (by omega) c hc
  have htime : ∀ c ∈ two t.hour ++ (two t.minute ++ if seconds then two t.second else []),
      isDigit c = true := by
    intro c hc
    rcases List.mem_append.mp hc with hc | hc
    · exact digits_two (by omega) c hc
    · rcases List.mem_append.mp hc with hc | hc
      · exact digits_two (by omega) c hc
      · cases seconds with
        | false => cases hc
        | true => exact digits_two (by omega) c hc
  have hseconds : ∀ c, ((if seconds then two t.second else []) : Str).head? = some c →
      c ∉ isoSeps := by
    cases seconds with
    | false => exact nofun
    | true => exact fun c hc => head_two (n := t.second) (by omega) (by decide) [] c hc
  -- No year and no day ends where these two runs of digits could be cut.
  have hnone : ∀ body : Pattern, StartsIn isDigit body →
      Fails body (four t.date.year ++ (two t.date.month ++ two t.date.day) ++
        s.1 :: (two t.hour ++ (two t.minute ++ if seconds then two t.second else []))) →
      Fails body (two t.hour ++ (two t.minute ++ if seconds then two t.second else [])) →
      search (seq (notBehind isDigit) body) (pre ++ render t (compact s seconds)) = none := by
    intro body hstart hfirst hsecond
    have hend := searches_run_end htime hsecond hstart
    have hall := searches_other hstart hpre (searches_run hdate (sep_compact s) hfirst hend)
    have hrender : render t (compact s seconds) =
        four t.date.year ++ (two t.date.month ++ two t.date.day) ++
          s.1 :: (two t.hour ++ (two t.minute ++ if seconds then two t.second else [])) := by
      simp [render]
    rw [hrender]
    exact hall.search_eq
  refine ⟨?_, ?_, ?_⟩
  · refine hnone isoBody (startsIn_year _) (fails_iso_four fun c hc => ?_)
      (fails_iso_four fun c hc => hseconds c hc)
    exact head_two (n := t.date.month) (by omega) (by decide) _ c hc
  · refine hnone euBody (startsIn_day _) (fails_eu_two fun c hc => ?_)
      (fails_eu_two fun c hc => ?_)
    · have hhead : ∀ c, (two (t.date.year % 100)).head? = some c → c ∉ euSeps :=
        fun c hc => head_two (n := t.date.year % 100) (by omega) (by decide) [] c hc
      exact hhead c hc
    · exact head_two (n := t.minute) (by omega) (by decide) _ c hc
  · have hhere := searches_here (p := isDigit) (reads_compact hyear s seconds)
    rw [List.append_nil] at hhere
    exact (searches_other (startsIn_year _) hpre hhere).search_eq

end Rendering

/-! ## The numbers that are read -/

theorem numbersOf_eq {groups : List (Name × Str)} {n : Numbers} (hyear : n.year < 10000)
    (hmonth : n.month < 100) (hday : n.day < 100)
    (hyears : groupOf groups .year = some (four n.year))
    (hmonths : groupOf groups .month = some (two n.month))
    (hdays : groupOf groups .day = some (two n.day))
    (hhour : orZero groups .hour = .ok n.hour) (hminute : orZero groups .minute = .ok n.minute)
    (hsecond : orZero groups .second = .ok n.second) : numbersOf groups = .ok n := by
  have hy : required groups .year = .ok n.year := by rw [required, hyears]; exact intOf_four hyear
  have hm : required groups .month = .ok n.month := by
    rw [required, hmonths]
    exact intOf_two hmonth
  have hd : required groups .day = .ok n.day := by rw [required, hdays]; exact intOf_two hday
  rw [numbersOf, hy, hm, hd, hhour, hminute, hsecond]
  rfl

theorem orZero_two {groups : List (Name × Str)} {name : Name} {n : Nat} (hn : n < 100)
    (h : groupOf groups name = some (two n)) : orZero groups name = .ok n := by
  rw [orZero, h]
  exact (if_neg (List.cons_ne_nil _ _)).trans (intOf_two hn)

theorem orZero_none {groups : List (Name × Str)} {name : Name} (h : groupOf groups name = none) :
    orZero groups name = .ok 0 := by
  rw [orZero, h]

/-- The numbers of a datetime. -/
def numbers (t : Local) : Numbers :=
  ⟨t.date.year, t.date.month, t.date.day, t.hour, t.minute, t.second⟩

theorem datetime_numbers {t : Local} (h : t.microsecond = 0) : datetime (numbers t) = .ok t := by
  obtain ⟨⟨y, m, d, hdate⟩, hh, mi, s, us, htime⟩ := t
  cases h
  exact dif_pos ⟨hdate, htime⟩

theorem datetimeOf_eq (tz : Zone) (now : Int) {groups : List (Name × Str)} {n : Numbers}
    {dt : Local} (hn : numbersOf groups = .ok n) (hdt : datetime n = .ok dt) :
    datetimeOf tz now groups = .ok (if Valid tz now dt then some dt else none) := by
  have hbuild : buildDt n = .ok (some dt) := by rw [buildDt, hdt]
  rw [datetimeOf, hn]
  dsimp only
  rw [hbuild]
  show Except.ok (Option.filter _ (some dt)) = _
  by_cases hvalid : Valid tz now dt
  · rw [if_pos hvalid, Option.filter_some, if_pos (decide_eq_true hvalid)]
  · rw [if_neg hvalid, Option.filter_some, if_neg (by simpa using hvalid)]

/-- The groups of a date, and of its time. -/
theorem datetimeOf_groups (tz : Zone) (now : Int) {t : Local} (hmicro : t.microsecond = 0)
    {seconds : Bool} (hseconds : seconds = false → t.second = 0)
    {groups : List (Name × Str)}
    (hyears : groupOf groups .year = some (four t.date.year))
    (hmonths : groupOf groups .month = some (two t.date.month))
    (hdays : groupOf groups .day = some (two t.date.day))
    (hclock : ∀ name, name = .hour ∨ name = .minute ∨ name = .second →
      groupOf groups name = groupOf (Rendering.clockGroups t seconds) name) :
    datetimeOf tz now groups = .ok (if Valid tz now t then some t else none) := by
  obtain ⟨hhour, hminute, hsecond, -⟩ := t.valid
  have hyear := t.date.valid.2.1
  have hmonth := Rendering.month_le t.date
  have hday := Rendering.day_le t.date
  have hnumbers : numbersOf groups = .ok (numbers t) := by
    refine numbersOf_eq (n := numbers t) (by show t.date.year < 10000; omega)
      (by show t.date.month < 100; omega) (by show t.date.day < 100; omega) hyears hmonths hdays
      ?_ ?_ ?_
    · exact orZero_two (n := t.hour) (by omega) (hclock .hour (Or.inl rfl))
    · exact orZero_two (n := t.minute) (by omega) (hclock .minute (Or.inr (Or.inl rfl)))
    · have hgroup := hclock .second (Or.inr (Or.inr rfl))
      cases seconds with
      | false =>
          show orZero groups .second = .ok t.second
          rw [hseconds rfl]
          exact orZero_none hgroup
      | true => exact orZero_two (n := t.second) (by omega) hgroup
  exact datetimeOf_eq tz now hnumbers (datetime_numbers hmicro)

/-! ## The loop over the patterns -/

theorem stem_extension (s : Str) {ext : Str} (hext : '.' ∉ ext) : stem (s ++ '.' :: ext) = s := by
  have hmem : '.' ∈ s ++ '.' :: ext := List.mem_append_right s List.mem_cons_self
  have hdrop : (s ++ '.' :: ext).rdropWhile (· ≠ '.') = s ++ ['.'] := by
    have hall : ∀ c ∈ ext.reverse, decide (c ≠ '.') = true := fun c hc =>
      decide_eq_true fun hdot => hext (hdot ▸ List.mem_reverse.mp hc)
    rw [List.rdropWhile, List.reverse_append, List.reverse_cons, List.append_assoc,
      List.dropWhile_append_of_pos hall]
    simp
  rw [stem, if_pos hmem, hdrop, List.dropLast_concat]

section Loop

variable (tz : Zone) (now : Int) {base : Str} {pattern : Pattern} (patterns : List Pattern)

theorem firstDatetime_none (h : search pattern base = none) :
    firstDatetime tz now base (pattern :: patterns) = firstDatetime tz now base patterns := by
  rw [firstDatetime, h]

theorem firstDatetime_found {groups : List (Name × Str)} {dt : Local}
    (h : search pattern base = some groups)
    (hdt : datetimeOf tz now groups = .ok (some dt)) :
    firstDatetime tz now base (pattern :: patterns) = .ok (some dt) := by
  rw [firstDatetime, h]
  dsimp only
  rw [hdt]

theorem firstDatetime_refused {groups : List (Name × Str)} (h : search pattern base = some groups)
    (hdt : datetimeOf tz now groups = .ok none) :
    firstDatetime tz now base (pattern :: patterns) = firstDatetime tz now base patterns := by
  rw [firstDatetime, h]
  dsimp only
  rw [hdt]

end Loop

/-! ## Dates are read back -/

/-- A date and a time of the range that is supported: no fraction of a second, and no second when
the seconds are not written. -/
structure Supported (tz : Zone) (now : Int) (t : Local) (r : Rendering) : Prop where
  year : 2000 ≤ t.date.year ∧ t.date.year ≤ 2099
  valid : Valid tz now t
  microsecond : t.microsecond = 0
  second : ¬ r.ShowsSeconds → t.second = 0

/-- The year, the hour and the minute are a date that is accepted. -/
def Rendering.Misread (tz : Zone) (now : Int) (t : Local) (r : Rendering) : Prop :=
  r.LooksIso t ∧ ∃ h : ValidDate t.date.year t.hour t.minute,
    Valid tz now ⟨⟨t.date.year, t.hour, t.minute, h⟩, 0, 0, 0, 0, by decide⟩

theorem datetimeOf_misread (tz : Zone) (now : Int) (t : Local) :
    datetimeOf tz now (Rendering.misreadGroups t) = .ok (
      if h : ValidDate t.date.year t.hour t.minute then
        if Valid tz now ⟨⟨t.date.year, t.hour, t.minute, h⟩, 0, 0, 0, 0, by decide⟩ then
          some ⟨⟨t.date.year, t.hour, t.minute, h⟩, 0, 0, 0, 0, by decide⟩ else none
      else none) := by
  obtain ⟨hhour, hminute, -, -⟩ := t.valid
  have hyear := t.date.valid.2.1
  have hnumbers : numbersOf (Rendering.misreadGroups t) =
      .ok ⟨t.date.year, t.hour, t.minute, 0, 0, 0⟩ :=
    numbersOf_eq (n := ⟨t.date.year, t.hour, t.minute, 0, 0, 0⟩)
      (by show t.date.year < 10000; omega) (by show t.hour < 100; omega)
      (by show t.minute < 100; omega) rfl rfl rfl (orZero_none rfl) (orZero_none rfl)
      (orZero_none rfl)
  have hmidnight : ValidTime 0 0 0 0 := by decide
  by_cases hdate : ValidDate t.date.year t.hour t.minute
  · have hdt : datetime ⟨t.date.year, t.hour, t.minute, 0, 0, 0⟩ =
        .ok ⟨⟨t.date.year, t.hour, t.minute, hdate⟩, 0, 0, 0, 0, by decide⟩ :=
      dif_pos ⟨hdate, hmidnight⟩
    rw [datetimeOf_eq tz now hnumbers hdt, dif_pos hdate]
  · have hdt : datetime ⟨t.date.year, t.hour, t.minute, 0, 0, 0⟩ = .error .valueError :=
      dif_neg fun h => hdate h.1
    rw [datetimeOf, hnumbers, dif_neg hdate]
    dsimp only
    rw [buildDt, hdt]
    rfl

variable {tz : Zone} {now : Int} {t : Local} {pre ext : Str}

/-- What the second pattern reads. -/
theorem datetimeOf_eu {seconds : Bool} (hmicro : t.microsecond = 0) (hvalid : Valid tz now t)
    (hseconds : seconds = false → t.second = 0) :
    datetimeOf tz now ((Name.day, two t.date.day) :: (Name.month, two t.date.month) ::
      (Name.year, four t.date.year) :: Rendering.clockGroups t seconds) = .ok (some t) := by
  rw [datetimeOf_groups tz now hmicro hseconds rfl rfl rfl
    (by rintro name (rfl | rfl | rfl) <;> rfl), if_pos hvalid]

/-- What the first and the third pattern read. -/
theorem datetimeOf_iso {seconds : Bool} (hmicro : t.microsecond = 0) (hvalid : Valid tz now t)
    (hseconds : seconds = false → t.second = 0) :
    datetimeOf tz now ((Name.year, four t.date.year) :: (Name.month, two t.date.month) ::
      (Name.day, two t.date.day) :: Rendering.clockGroups t seconds) = .ok (some t) := by
  rw [datetimeOf_groups tz now hmicro hseconds rfl rfl rfl
    (by rintro name (rfl | rfl | rfl) <;> rfl), if_pos hvalid]

open Rendering in
/-- **A name that holds a date** is read back when it is not misread, and only then. -/
theorem readBack_iff (hpre : ∀ c ∈ pre, isDigit c = false) (hext : '.' ∉ ext) (r : Rendering)
    (h : Supported tz now t r) :
    extractMeetingDatetime tz now (pre ++ r.render t ++ '.' :: ext) = .ok (some t) ↔
      ¬ r.Misread tz now t := by
  have hne : pre ++ r.render t ++ '.' :: ext ≠ [] := by simp
  rw [extractMeetingDatetime, if_neg hne, stem_extension _ hext]
  obtain ⟨hyear, hvalid, hmicro, hsecond⟩ := h
  cases r with
  | iso s s' gap clock seconds =>
      have hseconds : seconds.isSome = false → t.second = 0 := fun hnone =>
        hsecond (by rw [ShowsSeconds, hnone]; exact Bool.false_ne_true)
      refine iff_of_true ?_ fun hmisread => hmisread.1
      exact firstDatetime_found tz now _ (searches_iso hpre hyear s s' gap clock seconds)
        (datetimeOf_iso hmicro hvalid hseconds)
  | compact s seconds =>
      have hseconds : seconds = false → t.second = 0 := fun hnone =>
        hsecond (by rw [ShowsSeconds, hnone]; exact Bool.false_ne_true)
      obtain ⟨hiso, heu, hcompact⟩ := searches_compact hpre hyear s seconds
      refine iff_of_true ?_ fun hmisread => hmisread.1
      rw [firstDatetime_none tz now _ hiso, firstDatetime_none tz now _ heu]
      exact firstDatetime_found tz now _ hcompact (datetimeOf_iso hmicro hvalid hseconds)
  | european s s' gap accent clock seconds =>
      have hseconds : seconds.isSome = false → t.second = 0 := fun hnone =>
        hsecond (by rw [ShowsSeconds, hnone]; exact Bool.false_ne_true)
      obtain ⟨hfound, hnone⟩ := searches_iso_eu hpre hyear s s' gap accent clock seconds
      have hsecondPattern : firstDatetime tz now
          (pre ++ render t (european s s' gap accent clock seconds)) [euPattern, compactPattern] =
          .ok (some t) :=
        firstDatetime_found tz now _ (searches_eu hpre hyear s s' gap accent clock seconds)
          (datetimeOf_eu hmicro hvalid hseconds)
      by_cases hlooks : LooksIso t (european s s' gap accent clock seconds)
      · have hmisread := datetimeOf_misread tz now t
        by_cases hdate : ∃ h : ValidDate t.date.year t.hour t.minute,
            Valid tz now ⟨⟨t.date.year, t.hour, t.minute, h⟩, 0, 0, 0, 0, by decide⟩
        · obtain ⟨hd, hv⟩ := hdate
          rw [dif_pos hd, if_pos hv] at hmisread
          refine iff_of_false ?_ fun hnot => hnot ⟨hlooks, hd, hv⟩
          rw [firstDatetime_found tz now _ (hfound hlooks) hmisread]
          intro heq
          -- The hour would be midnight, but it is the number of a month.
          have hhour : (0 : Nat) = t.hour :=
            congrArg Local.hour (Option.some.inj (Except.ok.inj heq))
          have hmonth : 1 ≤ t.hour := hd.2.2.1
          omega
        · refine iff_of_true ?_ fun hbad => hdate hbad.2
          have hrefused : datetimeOf tz now (misreadGroups t) = .ok none := by
            rw [hmisread]
            split
            · rename_i hd
              rw [if_neg fun hv => hdate ⟨hd, hv⟩]
            · rfl
          rw [firstDatetime_refused tz now _ (hfound hlooks) hrefused]
          exact hsecondPattern
      · refine iff_of_true ?_ fun hbad => hlooks hbad.1
        rw [firstDatetime_none tz now _ (hnone hlooks)]
        exact hsecondPattern

/-- **Dates in file names.** No string raises; and a date and a time that are written between a text
without digits and an extension are read back exactly when they are not misread. -/
theorem extract_exact (tz : Zone) (now : Int) :
    (∀ filename, ∃ o, extractMeetingDatetime tz now filename = .ok o) ∧
    ∀ (pre ext : Str) (t : Local) (r : Rendering), (∀ c ∈ pre, isDigit c = false) → '.' ∉ ext →
      Supported tz now t r →
      (extractMeetingDatetime tz now (pre ++ r.render t ++ '.' :: ext) = .ok (some t) ↔
        ¬ r.Misread tz now t) :=
  ⟨extract_total tz now, fun _ _ _ r hpre hext h => readBack_iff hpre hext r h⟩

/-! ## A morning in May -/

/-- The 21st of May 2026, at half past ten, and a day of December. -/
def halfPastTen : Local := ⟨⟨2026, 5, 21, by decide⟩, 10, 30, 0, 0, by decide⟩
def inDecember : Local := ⟨⟨2026, 12, 1, by decide⟩, 0, 0, 0, 0, by decide⟩

/-- `2026-05-21 10:30` and `21-05-2026_10-30` -/
def yearFirst : Rendering :=
  .iso ⟨'-', by decide⟩ ⟨'-', by decide⟩ (.single ' ' (by decide)) ⟨':', by decide⟩ none
def dayFirst : Rendering :=
  .european ⟨'-', by decide⟩ ⟨'-', by decide⟩ (.single '_' (by decide)) none ⟨'-', by decide⟩ none

theorem supported_halfPastTen (r : Rendering) :
    Supported (fun _ => 0) inDecember.micros halfPastTen r :=
  ⟨by decide, by decide +kernel, rfl, fun _ => rfl⟩

/-- Year first, the date is read back. -/
theorem extract_exact_yearFirst :
    extractMeetingDatetime (fun _ => 0) inDecember.micros
      ([] ++ yearFirst.render halfPastTen ++ '.' :: ['m', '4', 'a']) = .ok (some halfPastTen) :=
  ((extract_exact (fun _ => 0) inDecember.micros).2 [] ['m', '4', 'a'] halfPastTen yearFirst nofun
    (by decide) (supported_halfPastTen yearFirst)).mpr fun h => h.1

/-- **Day first**, it becomes the 30th of October. -/
theorem dayFirst_misread : ¬ ∀ (tz : Zone) (now : Int) (pre ext : Str) (t : Local) (r : Rendering),
    (∀ c ∈ pre, isDigit c = false) → '.' ∉ ext → Supported tz now t r →
    extractMeetingDatetime tz now (pre ++ r.render t ++ '.' :: ext) = .ok (some t) := by
  intro h
  have hread := h (fun _ => 0) inDecember.micros [] ['m', '4', 'a'] halfPastTen dayFirst nofun
    (by decide) (supported_halfPastTen dayFirst)
  have hmisread : dayFirst.Misread (fun _ => 0) inDecember.micros halfPastTen :=
    ⟨⟨⟨rfl, by decide, by decide⟩, by decide, by decide⟩, by decide, by decide +kernel⟩
  have hnil : ∀ c ∈ ([] : Str), isDigit c = false := nofun
  exact (readBack_iff hnil (by decide) dayFirst (supported_halfPastTen dayFirst)).mp hread hmisread

end MesReunions.FilenameDatetime
