import MesReunions.Base.Calendar
import MesReunions.Base.Num
import MesReunions.Base.Regex

/-!
# The date of a meeting in the name of a file

`extract_meeting_datetime` of `filename_datetime.py`.

* `isoPattern`, `compactPattern`, `euPattern` — the three patterns, and `extractMeetingDatetime`,
  the first of them whose groups are a date and a time that are accepted.
* **`extract_total`** — no string raises.
-/

namespace MesReunions.FilenameDatetime

open Str Regex

/-! ## The patterns -/

/-- The names of the groups. -/
inductive Name where
  | year
  | month
  | day
  | hour
  | minute
  | second
  deriving DecidableEq

abbrev Pattern := Regex Char Name

/-- `[…]` -/
def cls (cs : List Char) : Pattern := .char fun c => decide (c ∈ cs)

/-- `\d` -/
def digit : Pattern := .char isDigit

/-- The digits of a class such as `[1-9]`. -/
def oneToNine : List Char := ['1', '2', '3', '4', '5', '6', '7', '8', '9']
def zeroToFive : List Char := ['0', '1', '2', '3', '4', '5']

/-- `20\d{2}` -/
def year : Pattern := seqs [cls ['2'], cls ['0'], digit, digit]

/-- `0[1-9]|1[0-2]` -/
def month : Pattern := alt (seqs [cls ['0'], cls oneToNine]) (seqs [cls ['1'], cls ['0', '1', '2']])

/-- `0[1-9]|[12]\d|3[01]` -/
def day : Pattern :=
  alt (seqs [cls ['0'], cls oneToNine])
    (alt (seqs [cls ['1', '2'], digit]) (seqs [cls ['3'], cls ['0', '1']]))

/-- `[01]\d|2[0-3]` -/
def hour : Pattern :=
  alt (seqs [cls ['0', '1'], digit]) (seqs [cls ['2'], cls ['0', '1', '2', '3']])

/-- `[0-5]\d` -/
def minute : Pattern := seqs [cls zeroToFive, digit]

/-- The separators of the date, of the date and the time, and of the time. -/
def isoSeps : List Char := ['-', '_', '/']
def euSeps : List Char := ['-', '/', '_', '.']
def gapChars : List Char := [' ', 'T', '_', '-']
def hourSeps : List Char := ['-', '_', 'h', ':']
def minuteSeps : List Char := ['-', '_', ':']

/-- `[ T_-]+` -/
def gap : Pattern := plus fun c => decide (c ∈ gapChars)

/-- `(?P<hour>…)[-_h:](?P<minute>…)(?:[-_:](?P<second>…))?` -/
def clock : List Pattern :=
  [group .hour hour, cls hourSeps, group .minute minute,
    opt (seqs [cls minuteSeps, group .second minute])]

/-- What follows `(?<!\d)` in a pattern. -/
def isoBody : Pattern :=
  seqs [group .year year, cls isoSeps, group .month month, cls isoSeps, group .day day,
    opt (seqs (gap :: clock)), notAhead isDigit]

def compactBody : Pattern :=
  seqs [group .year year, group .month month, group .day day,
    opt (seqs [cls ['_', '-'], group .hour hour, group .minute minute,
      opt (group .second minute)]), notAhead isDigit]

def euBody : Pattern :=
  seqs [group .day day, cls euSeps, group .month month, cls euSeps, group .year year,
    opt (seqs (gap :: opt (seqs [cls ['à'], cls [' ', '_']]) :: clock)), notAhead isDigit]

/-- `_ISO_DATETIME_RE`, `_COMPACT_DATETIME_RE`, `_EU_DATETIME_RE` -/
def isoPattern : Pattern := .seq (notBehind isDigit) isoBody
def compactPattern : Pattern := .seq (notBehind isDigit) compactBody
def euPattern : Pattern := .seq (notBehind isDigit) euBody

/-! ## The extraction -/

/-- What the groups of a match are read as. -/
structure Numbers where
  year : Nat
  month : Nat
  day : Nat
  hour : Nat
  minute : Nat
  second : Nat

/-- `m.group(name)` -/
def groupOf (groups : List (Name × Str)) (name : Name) : Option Str :=
  (groups.find? fun g => g.1 = name).map Prod.snd

/-- `int(s)`, of the digits that a group reads. -/
def intOf (s : Str) : Except PyError Nat :=
  if s ≠ [] ∧ s.all isDigit = true then .ok (natOfDigits s) else .error .valueError

/-- `int(m.group(name))` -/
def required (groups : List (Name × Str)) (name : Name) : Except PyError Nat :=
  match groupOf groups name with
  | none => .error .typeError
  | some s => intOf s

/-- `int(m.group(name) or 0)` -/
def orZero (groups : List (Name × Str)) (name : Name) : Except PyError Nat :=
  match groupOf groups name with
  | none => .ok 0
  | some s => if s = [] then .ok 0 else intOf s

def numbersOf (groups : List (Name × Str)) : Except PyError Numbers := do
  let year ← required groups .year
  let month ← required groups .month
  let day ← required groups .day
  let hour ← orZero groups .hour
  let minute ← orZero groups .minute
  let second ← orZero groups .second
  .ok ⟨year, month, day, hour, minute, second⟩

/-- `datetime(year, month, day, hour, minute, second, tzinfo=tz)` -/
def datetime (n : Numbers) : Except PyError Local :=
  if h : ValidDate n.year n.month n.day ∧ ValidTime n.hour n.minute n.second 0 then
    .ok ⟨⟨n.year, n.month, n.day, h.1⟩, n.hour, n.minute, n.second, 0, h.2⟩
  else .error .valueError

/-- `_build_dt(…)` -/
def buildDt (n : Numbers) : Except PyError (Option Local) :=
  match datetime n with
  | .error .valueError => .ok none
  | .error e => .error e
  | .ok dt => .ok (some dt)

/-- The offset of a zone, at each of its datetimes. -/
abbrev Zone := Local → Int

/-- `_validate(dt)`, at an instant `now` of the clock. -/
def Valid (tz : Zone) (now : Int) (dt : Local) : Prop :=
  2000 ≤ dt.date.year ∧ dt.micros - tz dt ≤ now + wholeDay

instance (tz : Zone) (now : Int) (dt : Local) : Decidable (Valid tz now dt) :=
  inferInstanceAs (Decidable (_ ∧ _))

/-- What a match gives: no datetime when an exception is caught. -/
def datetimeOf (tz : Zone) (now : Int) (groups : List (Name × Str)) :
    Except PyError (Option Local) :=
  match numbersOf groups with
  | .error .typeError => .ok none
  | .error .valueError => .ok none
  | .error e => .error e
  | .ok n => (buildDt n).map fun dt => dt.filter fun dt => decide (Valid tz now dt)

/-- The loop over the patterns. -/
def firstDatetime (tz : Zone) (now : Int) (base : Str) :
    List Pattern → Except PyError (Option Local)
  | [] => .ok none
  | pattern :: patterns =>
      match search pattern base with
      | none => firstDatetime tz now base patterns
      | some groups =>
          match datetimeOf tz now groups with
          | .error e => .error e
          | .ok (some dt) => .ok (some dt)
          | .ok none => firstDatetime tz now base patterns

/-- `filename.rsplit(".", 1)[0] if "." in filename else filename` -/
def stem (filename : Str) : Str :=
  if '.' ∈ filename then (filename.rdropWhile (· ≠ '.')).dropLast else filename

/-- `extract_meeting_datetime(filename, tz)` -/
def extractMeetingDatetime (tz : Zone) (now : Int) (filename : Str) :
    Except PyError (Option Local) :=
  if filename = [] then .ok none
  else firstDatetime tz now (stem filename) [isoPattern, euPattern, compactPattern]

/-! ## No string raises -/

theorem intOf_error {s : Str} {e : PyError} (h : intOf s = .error e) : e = .valueError := by
  rw [intOf] at h
  split at h
  · cases h
  · cases h
    rfl

theorem required_error {groups : List (Name × Str)} {name : Name} {e : PyError}
    (h : required groups name = .error e) : e = .typeError ∨ e = .valueError := by
  rw [required] at h
  split at h
  · cases h
    exact Or.inl rfl
  · exact Or.inr (intOf_error h)

theorem orZero_error {groups : List (Name × Str)} {name : Name} {e : PyError}
    (h : orZero groups name = .error e) : e = .valueError := by
  rw [orZero] at h
  split at h
  · cases h
  · split at h
    · cases h
    · exact intOf_error h

theorem bind_error {α β : Type} {x : Except PyError α} {k : α → Except PyError β} {e : PyError}
    (h : x >>= k = .error e) : x = .error e ∨ ∃ a, k a = .error e := by
  cases x with
  | error e' =>
      cases h
      exact Or.inl rfl
  | ok a => exact Or.inr ⟨a, h⟩

theorem numbersOf_error {groups : List (Name × Str)} {e : PyError}
    (h : numbersOf groups = .error e) : e = .typeError ∨ e = .valueError := by
  rcases bind_error h with h | ⟨_, h⟩
  · exact required_error h
  rcases bind_error h with h | ⟨_, h⟩
  · exact required_error h
  rcases bind_error h with h | ⟨_, h⟩
  · exact required_error h
  rcases bind_error h with h | ⟨_, h⟩
  · exact Or.inr (orZero_error h)
  rcases bind_error h with h | ⟨_, h⟩
  · exact Or.inr (orZero_error h)
  rcases bind_error h with h | ⟨_, h⟩
  · exact Or.inr (orZero_error h)
  · cases h

theorem buildDt_ok (n : Numbers) : ∃ o, buildDt n = .ok o := by
  rw [buildDt, datetime]
  split
  · exact ⟨none, rfl⟩
  · rename_i h hne heq
    split at heq
    · cases heq
    · cases heq
      exact absurd rfl hne
  · exact ⟨_, rfl⟩

theorem datetimeOf_ok (tz : Zone) (now : Int) (groups : List (Name × Str)) :
    ∃ o, datetimeOf tz now groups = .ok o := by
  cases h : numbersOf groups with
  | error e =>
      rw [datetimeOf, h]
      rcases numbersOf_error h with rfl | rfl
      · exact ⟨none, rfl⟩
      · exact ⟨none, rfl⟩
  | ok n =>
      obtain ⟨o, ho⟩ := buildDt_ok n
      rw [datetimeOf, h]
      dsimp only
      rw [ho]
      exact ⟨_, rfl⟩

theorem firstDatetime_ok (tz : Zone) (now : Int) (base : Str) (patterns : List Pattern) :
    ∃ o, firstDatetime tz now base patterns = .ok o := by
  induction patterns with
  | nil => exact ⟨none, rfl⟩
  | cons pattern patterns ih =>
      rw [firstDatetime]
      cases search pattern base with
      | none => exact ih
      | some groups =>
          obtain ⟨o, ho⟩ := datetimeOf_ok tz now groups
          dsimp only
          rw [ho]
          cases o with
          | none => exact ih
          | some dt => exact ⟨some dt, rfl⟩

/-- **No string raises.** -/
theorem extract_total (tz : Zone) (now : Int) (filename : Str) :
    ∃ o, extractMeetingDatetime tz now filename = .ok o := by
  rw [extractMeetingDatetime]
  split
  · exact ⟨none, rfl⟩
  · exact firstDatetime_ok tz now _ _

end MesReunions.FilenameDatetime
