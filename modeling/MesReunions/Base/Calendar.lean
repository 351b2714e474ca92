import Mathlib

/-!
# Dates and times

`datetime.date`, `datetime.datetime` and their order: the proleptic Gregorian calendar, from year 1
to year 9999, and times in microseconds.

* `Date`, `Local`, `Aware` — a date, with a time of day, with an offset from UTC.
* `Date.ordinal` — `toordinal()`; day `1` is a Monday.
* `Aware.instant` — the order of aware datetimes.
-/

namespace MesReunions

/-! ## Dates -/

def isLeap (year : Nat) : Bool := year % 4 == 0 && (year % 100 != 0 || year % 400 == 0)

def daysInMonth (year month : Nat) : Nat :=
  if month = 2 then (if isLeap year then 29 else 28)
  else if month = 4 ∨ month = 6 ∨ month = 9 ∨ month = 11 then 30
  else 31

/-- `datetime.date(year, month, day)` does not raise. -/
def ValidDate (year month day : Nat) : Prop :=
  1 ≤ year ∧ year ≤ 9999 ∧ 1 ≤ month ∧ month ≤ 12 ∧ 1 ≤ day ∧ day ≤ daysInMonth year month

instance (year month day : Nat) : Decidable (ValidDate year month day) :=
  inferInstanceAs (Decidable (_ ∧ _))

/-- `datetime.date` -/
structure Date where
  year : Nat
  month : Nat
  day : Nat
  valid : ValidDate year month day
  deriving DecidableEq

namespace Date

/-- The days before a year. -/
def daysBeforeYear (year : Nat) : Nat :=
  (year - 1) * 365 + (year - 1) / 4 - (year - 1) / 100 + (year - 1) / 400

/-- The days of a year before a month. -/
def daysBeforeMonth (year month : Nat) : Nat :=
  ((List.range (month - 1)).map fun m => daysInMonth year (m + 1)).sum

/-- `d.toordinal()` -/
def ordinal (d : Date) : Int :=
  daysBeforeYear d.year + daysBeforeMonth d.year d.month + d.day

/-- `d.weekday()`: Monday is `0`. -/
def weekday (d : Date) : Int := (d.ordinal + 6) % 7

/-- The Mondays before a date, or on it. -/
def week (d : Date) : Int := (d.ordinal + 6) / 7

/-- The months before a date. -/
def months (d : Date) : Int := 12 * (d.year : Int) + d.month

end Date

/-! ## Times -/

/-- The second, and the day, in microseconds. -/
def second : Int := 1000000
def wholeDay : Int := 86400 * second

/-- `datetime.time(hour, minute, second, microsecond)` does not raise. -/
def ValidTime (hour minute second microsecond : Nat) : Prop :=
  hour < 24 ∧ minute < 60 ∧ second < 60 ∧ microsecond < 1000000

instance (hour minute second microsecond : Nat) :
    Decidable (ValidTime hour minute second microsecond) :=
  inferInstanceAs (Decidable (_ ∧ _))

theorem validTime_midnight : ValidTime 0 0 0 0 := by decide

/-- A naive `datetime.datetime`. -/
structure Local where
  date : Date
  hour : Nat
  minute : Nat
  second : Nat
  microsecond : Nat
  valid : ValidTime hour minute second microsecond
  deriving DecidableEq

/-- The microseconds of a time of day. -/
def timeOfDay (hour minute second : Int) : Int :=
  ((hour * 60 + minute) * 60 + second) * MesReunions.second

/-- The microseconds before a datetime. -/
def Local.micros (t : Local) : Int :=
  t.date.ordinal * wholeDay + timeOfDay t.hour t.minute t.second + t.microsecond

/-- An aware `datetime.datetime`; the offset from UTC is in microseconds. -/
structure Aware where
  wall : Local
  offset : Int
  deriving DecidableEq

/-- Aware datetimes are compared by their instants. -/
def Aware.instant (t : Aware) : Int := t.wall.micros - t.offset

/-- `datetime.max` -/
def maxLocal : Local := ⟨⟨9999, 12, 31, by decide⟩, 23, 59, 59, 999999, by decide⟩

end MesReunions
