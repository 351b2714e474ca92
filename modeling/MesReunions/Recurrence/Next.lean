import MesReunions.Base.NextAfter
import MesReunions.Recurrence.Rule

/-!
# The next occurrence

`compute_next_occurrence` of `recurrence.py`: the occurrence that is announced with a preparation.

* `Rule.Occurs` — the occurrences of a rule, from the day of a start on.
* `Kwargs.Occurs` — what `dateutil` enumerates for the arguments of `rrule`.
* `computeNextOccurrence` — the search, after the current instant plus one second.
* **`occurs_kwargsOf`** — the arguments describe the rule.
* **`next_iff`** — the next occurrence is found unless one falls in the second that is skipped.
-/

namespace MesReunions.Recurrence

open Str Json

/-! ## Occurrences -/

/-- `Monday is 0` -/
def Weekday.number : Weekday → Int
  | mo => 0
  | tu => 1
  | we => 2
  | th => 3
  | fr => 4
  | sa => 5
  | su => 6

/-- A day of one of the weekdays. -/
def onWeekday (byweekday : List Weekday) (d : Date) : Bool :=
  byweekday.any fun w => w.number = d.weekday

/-- The days of a frequency; weeks begin on a Monday, and a month without the day is left out. -/
def OnDay (freq : Freq) (interval : Int) (byweekday : List Weekday) (start d : Date) : Prop :=
  match freq with
  | .daily =>
      interval ∣ d.ordinal - start.ordinal ∧ (byweekday = [] ∨ onWeekday byweekday d = true)
  | .weekly =>
      interval ∣ d.week - start.week ∧
        if byweekday = [] then d.weekday = start.weekday else onWeekday byweekday d = true
  | .monthly =>
      interval ∣ d.months - start.months ∧
        if byweekday = [] then d.day = start.day else onWeekday byweekday d = true

instance (freq : Freq) (interval : Int) (byweekday : List Weekday) (start d : Date) :
    Decidable (OnDay freq interval byweekday start d) :=
  match freq with
  | .daily => inferInstanceAs (Decidable (_ ∧ _))
  | .weekly => inferInstanceAs (Decidable (_ ∧ _))
  | .monthly => inferInstanceAs (Decidable (_ ∧ _))

/-- The wall shows a time, to the second. -/
def AtTime (hour minute second : Int) (t : Local) : Prop :=
  (t.hour : Int) = hour ∧ (t.minute : Int) = minute ∧ (t.second : Int) = second ∧
    t.microsecond = 0

instance (hour minute second : Int) (t : Local) : Decidable (AtTime hour minute second t) :=
  inferInstanceAs (Decidable (_ ∧ _))

/-- The last second of a day, in UTC. -/
def endOfDay (d : Date) : Aware := ⟨⟨d, 23, 59, 59, 0, by decide⟩, 0⟩

/-- `_coerce_until(norm.get("until"))` -/
def coerceUntil (b : Builtins) (until? : Option Str) : Option Aware :=
  until?.bind fun s => (b.date (s.take 10)).map endOfDay

/-- **The occurrences of a rule** that starts at an instant: on its days, from the day of the start
on, at its time, or at the time of the start, and until the end of its last day. -/
structure Rule.Occurs (b : Builtins) (r : Rule) (start x : Aware) : Prop where
  day : OnDay r.freq r.interval r.byweekday start.wall.date x.wall.date
  time : AtTime (r.byhour.getD start.wall.hour) (r.byminute.getD start.wall.minute)
    (if r.byhour = none ∧ r.byminute = none then start.wall.second else 0) x.wall
  zone : x.offset = start.offset
  start : start.wall.date.ordinal ≤ x.wall.date.ordinal
  until? : ∀ s d, r.until? = some s → b.date s = some d → x.instant ≤ (endOfDay d).instant

/-! ## The arguments of `rrule` -/

/-- `kwargs`; no weekday stands for an absent key. -/
structure Kwargs where
  freq : Freq
  interval : Int
  dtstart : Aware
  byweekday : List Weekday
  byhour : Option Int
  byminute : Option Int
  until? : Option Aware
  deriving DecidableEq

/-- The occurrences: what an absent argument leaves open is read from `dtstart`, whose microseconds
are dropped. -/
def Kwargs.Occurs (k : Kwargs) (x : Aware) : Prop :=
  OnDay k.freq k.interval k.byweekday k.dtstart.wall.date x.wall.date ∧
    AtTime (k.byhour.getD k.dtstart.wall.hour) (k.byminute.getD k.dtstart.wall.minute)
      k.dtstart.wall.second x.wall ∧
    x.offset = k.dtstart.offset ∧
    k.dtstart.instant - k.dtstart.wall.microsecond ≤ x.instant ∧
    ∀ u ∈ k.until?, x.instant ≤ u.instant

instance (k : Kwargs) (x : Aware) : Decidable (k.Occurs x) := inferInstanceAs (Decidable (_ ∧ _))

/-- `dateutil.rrule`: `rrule(**kwargs).after(t, inc=False)` is the first occurrence after `t`. -/
structure Rrule where
  after : Kwargs → Int → Option Aware
  spec : ∀ k t, NextAfter {x | k.Occurs x} Aware.instant t (after k t)

/-! ## The search -/

/-- A `datetime` with a zone or without. -/
inductive Moment where
  | aware (t : Aware)
  | naive (t : Local)

/-- `dt.replace(tzinfo=timezone.utc)` when there is no zone. -/
def Moment.toAware : Moment → Aware
  | aware t => t
  | naive t => ⟨t, 0⟩

/-- What a reference can be. -/
inductive Reference where
  | moment (m : Moment)
  | date (d : Date)
  | text (s : Str)
  | other

/-- The readings of `datetime.now(timezone.utc)`: for the start and for the search. -/
structure Clock where
  start : Aware
  current : Aware

/-- `value.replace("Z", "+00:00")` -/
def zuluOffset (s : Str) : Str := s.flatMap fun c => if c = 'Z' then "+00:00".toList else [c]

/-- `_coerce_dtstart(value)` -/
def coerceDtstart (fromisoformat : Str → Option Moment) (clock : Aware) : Option Reference → Aware
  | some (.moment m) => m.toAware
  | some (.date d) => ⟨⟨d, 0, 0, 0, 0, validTime_midnight⟩, 0⟩
  | some (.text s) =>
      if s = [] then clock else ((fromisoformat (zuluOffset s)).map Moment.toAware).getD clock
  | some .other => clock
  | none => clock

/-- `dt.replace(hour=hour, minute=minute, second=0, microsecond=0)` -/
def atTime (t : Aware) (hour minute : Int) : Except PyError Aware :=
  if h : 0 ≤ hour ∧ 0 ≤ minute ∧ ValidTime hour.toNat minute.toNat 0 0 then
    .ok ⟨⟨t.wall.date, hour.toNat, minute.toNat, 0, 0, h.2.2⟩, t.offset⟩
  else .error .valueError

/-- `dtstart`, at the hour and the minute of the rule. -/
def anchored (r : Rule) (t : Aware) : Except PyError Aware :=
  if r.byhour = none ∧ r.byminute = none then .ok t
  else atTime t (r.byhour.getD t.wall.hour) (r.byminute.getD t.wall.minute)

/-- `kwargs` -/
def kwargsOf (b : Builtins) (r : Rule) (dtstart : Aware) : Except PyError Kwargs :=
  (anchored r dtstart).map fun dtstart =>
    ⟨r.freq, r.interval, dtstart, r.byweekday, r.byhour, r.byminute, coerceUntil b r.until?⟩

/-- `now + timedelta(seconds=1)` is not past `datetime.max`. -/
def FitsSecond (now : Aware) : Prop := now.wall.micros + second ≤ maxLocal.micros

instance (now : Aware) : Decidable (FitsSecond now) := inferInstanceAs (Decidable (_ ≤ _))

/-- The instant of `threshold`. -/
def threshold (now : Aware) : Except PyError Int :=
  if FitsSecond now then .ok (now.instant + second) else .error .overflowError

/-- `now`, or the clock. -/
def currentOf (clock : Clock) (now : Option Moment) : Aware :=
  (now.map Moment.toAware).getD clock.current

/-- `_coerce_dtstart(reference if reference is not None else now)` -/
def startOf (fromisoformat : Str → Option Moment) (clock : Clock) (reference : Option Reference)
    (now : Option Moment) : Aware :=
  coerceDtstart fromisoformat clock.start (reference.or (now.map .moment))

/-- `r.after(threshold, inc=False)` -/
def search (dateutil : Rrule) (kwargs : Except PyError Kwargs) (threshold : Except PyError Int) :
    Except PyError (Option Aware) := do
  let kwargs ← kwargs
  let threshold ← threshold
  .ok (dateutil.after kwargs threshold)

/-- `compute_next_occurrence(rule, reference, now=now)` -/
def computeNextOccurrence (b : Builtins) (fromisoformat : Str → Option Moment) (dateutil : Rrule)
    (clock : Clock) (rule : Json) (reference : Option Reference) (now : Option Moment) :
    Except PyError (Option Aware) :=
  match normalizeRule b rule with
  | .error e => .error e
  | .ok none => .ok none
  | .ok (some norm) =>
      search dateutil (kwargsOf b norm (startOf fromisoformat clock reference now))
        (threshold (currentOf clock now))

theorem search_ok (dateutil : Rrule) (k : Kwargs) (t : Int) :
    search dateutil (.ok k) (.ok t) = .ok (dateutil.after k t) := rfl

theorem search_error (dateutil : Rrule) (k : Kwargs) (e : PyError) :
    search dateutil (.ok k) (.error e) = .error e := rfl

/-! ## The arguments describe the rule -/

theorem anchored_eq {b : Builtins} {r : Rule} (h : WellFormed b r) (t : Aware) :
    ∃ dtstart, anchored r t = .ok dtstart ∧ dtstart.wall.date = t.wall.date ∧
      dtstart.offset = t.offset ∧
      r.byhour.getD dtstart.wall.hour = r.byhour.getD t.wall.hour ∧
      r.byminute.getD dtstart.wall.minute = r.byminute.getD t.wall.minute ∧
      (dtstart.wall.hour : Int) = r.byhour.getD t.wall.hour ∧
      (dtstart.wall.minute : Int) = r.byminute.getD t.wall.minute ∧
      (dtstart.wall.second : Int) =
        if r.byhour = none ∧ r.byminute = none then (t.wall.second : Int) else 0 := by
  by_cases hnone : r.byhour = none ∧ r.byminute = none
  · refine ⟨t, if_pos hnone, rfl, rfl, rfl, rfl, ?_, ?_, ?_⟩
    · rw [hnone.1, Option.getD_none]
    · rw [hnone.2, Option.getD_none]
    · rw [if_pos hnone]
  · have hhour : 0 ≤ r.byhour.getD t.wall.hour ∧ r.byhour.getD t.wall.hour < 24 := by
      have hvalid := t.wall.valid.1
      cases hb : r.byhour with
      | none =>
          rw [Option.getD_none]
          omega
      | some n =>
          have hn := h.byhour n hb
          rw [Option.getD_some]
          omega
    have hminute : 0 ≤ r.byminute.getD t.wall.minute ∧ r.byminute.getD t.wall.minute < 60 := by
      have hvalid := t.wall.valid.2.1
      cases hb : r.byminute with
      | none =>
          rw [Option.getD_none]
          omega
      | some n =>
          have hn := h.byminute n hb
          rw [Option.getD_some]
          omega
    have hvalid : ValidTime (r.byhour.getD t.wall.hour).toNat
        (r.byminute.getD t.wall.minute).toNat 0 0 := by
      refine ⟨?_, ?_, by decide, by decide⟩ <;> omega
    have hhour' : (((r.byhour.getD t.wall.hour).toNat : Nat) : Int) = r.byhour.getD t.wall.hour :=
      Int.toNat_of_nonneg hhour.1
    have hminute' : (((r.byminute.getD t.wall.minute).toNat : Nat) : Int) =
        r.byminute.getD t.wall.minute :=
      Int.toNat_of_nonneg hminute.1
    refine ⟨⟨⟨t.wall.date, _, _, 0, 0, hvalid⟩, t.offset⟩, ?_, rfl, rfl, ?_, ?_, hhour', hminute',
      ?_⟩
    · rw [anchored, if_neg hnone, atTime, dif_pos ⟨hhour.1, hminute.1, hvalid⟩]
    · show r.byhour.getD (((r.byhour.getD t.wall.hour).toNat : Nat) : Int) = _
      rw [hhour']
      cases r.byhour <;> rfl
    · show r.byminute.getD (((r.byminute.getD t.wall.minute).toNat : Nat) : Int) = _
      rw [hminute']
      cases r.byminute <;> rfl
    · rw [if_neg hnone]
      rfl

/-- At one time of day and in one zone, instants are ordered by their days. -/
theorem instant_le_iff {s x : Aware} (hzone : x.offset = s.offset)
    (htime : AtTime s.wall.hour s.wall.minute s.wall.second x.wall) :
    s.instant - s.wall.microsecond ≤ x.instant ↔ s.wall.date.ordinal ≤ x.wall.date.ordinal := by
  obtain ⟨hhour, hminute, hsecond, hmicro⟩ := htime
  simp only [Aware.instant, Local.micros, timeOfDay, wholeDay, MesReunions.second, hzone, hhour,
    hminute, hsecond, hmicro]
  omega

theorem until_coerceUntil {b : Builtins} {r : Rule} (h : WellFormed b r) (x : Aware) :
    (∀ u ∈ coerceUntil b r.until?, x.instant ≤ u.instant) ↔
      ∀ s d, r.until? = some s → b.date s = some d → x.instant ≤ (endOfDay d).instant := by
  have htake : ∀ s, r.until? = some s → s.take 10 = s := fun s hs =>
    List.take_of_length_le (h.until? s hs).2.1
  constructor
  · intro hu s d hs hd
    refine hu (endOfDay d) ?_
    rw [coerceUntil, hs, Option.bind_some, htake s hs, hd]
    rfl
  · intro hu u hmem
    rw [coerceUntil, Option.mem_def, Option.bind_eq_some_iff] at hmem
    obtain ⟨s, hs, hmap⟩ := hmem
    rw [htake s hs, Option.map_eq_some_iff] at hmap
    obtain ⟨d, hd, rfl⟩ := hmap
    exact hu s d hs hd

/-- **The arguments describe the rule.** -/
theorem occurs_kwargsOf {b : Builtins} {r : Rule} (h : WellFormed b r) (start : Aware) :
    ∃ k, kwargsOf b r start = .ok k ∧ ∀ x, k.Occurs x ↔ r.Occurs b start x := by
  obtain ⟨s, hs, hdate, hoffset, hhour, hminute, hhour', hminute', hsecond⟩ := anchored_eq h start
  refine ⟨⟨r.freq, r.interval, s, r.byweekday, r.byhour, r.byminute, coerceUntil b r.until?⟩, ?_,
    fun x => ?_⟩
  · rw [kwargsOf, hs]
    rfl
  · show (OnDay r.freq r.interval r.byweekday s.wall.date x.wall.date ∧
      AtTime (r.byhour.getD s.wall.hour) (r.byminute.getD s.wall.minute) s.wall.second x.wall ∧
      x.offset = s.offset ∧ s.instant - s.wall.microsecond ≤ x.instant ∧
      ∀ u ∈ coerceUntil b r.until?, x.instant ≤ u.instant) ↔ _
    rw [hdate, hhour, hminute, hsecond, hoffset, until_coerceUntil h]
    have hiff : x.offset = start.offset →
        AtTime (r.byhour.getD start.wall.hour) (r.byminute.getD start.wall.minute)
          (if r.byhour = none ∧ r.byminute = none then (start.wall.second : Int) else 0) x.wall →
        (s.instant - s.wall.microsecond ≤ x.instant ↔
          start.wall.date.ordinal ≤ x.wall.date.ordinal) := by
      intro hzone htime
      rw [← hdate]
      refine instant_le_iff (hzone.trans hoffset.symm) ?_
      rw [hhour', hminute', hsecond]
      exact htime
    constructor
    · rintro ⟨hday, htime, hzone, hstart, huntil⟩
      exact ⟨hday, htime, hzone, (hiff hzone htime).mp hstart, huntil⟩
    · rintro ⟨hday, htime, hzone, hstart, huntil⟩
      exact ⟨hday, htime, hzone, (hiff hzone htime).mpr hstart, huntil⟩

/-! ## The next occurrence -/

section Next

variable (b : Builtins) (fromisoformat : Str → Option Moment) (dateutil : Rrule) (clock : Clock)
  (reference : Option Reference) (now : Option Moment)

/-- The search returns the first occurrence after `now` plus one second. -/
theorem computeNextOccurrence_toJson {r : Rule} (h : WellFormed b r) :
    (¬ FitsSecond (currentOf clock now) ∧
      computeNextOccurrence b fromisoformat dateutil clock r.toJson reference now =
        .error .overflowError) ∨
    (FitsSecond (currentOf clock now) ∧ ∃ o,
      computeNextOccurrence b fromisoformat dateutil clock r.toJson reference now = .ok o ∧
      NextAfter {x | r.Occurs b (startOf fromisoformat clock reference now) x} Aware.instant
        ((currentOf clock now).instant + second) o) := by
  obtain ⟨k, hk, hoccurs⟩ := occurs_kwargsOf h (startOf fromisoformat clock reference now)
  have hrun : computeNextOccurrence b fromisoformat dateutil clock r.toJson reference now =
      search dateutil (.ok k) (threshold (currentOf clock now)) := by
    rw [computeNextOccurrence, normalizeRule_toJson h]
    exact congrArg (fun kwargs => search dateutil kwargs (threshold (currentOf clock now))) hk
  rw [hrun, threshold]
  by_cases hfits : FitsSecond (currentOf clock now)
  · refine Or.inr ⟨hfits, dateutil.after k ((currentOf clock now).instant + second), ?_, ?_⟩
    · rw [if_pos hfits, search_ok]
    · have hset : {x | r.Occurs b (startOf fromisoformat clock reference now) x} =
          {x | k.Occurs x} :=
        Set.ext fun x => (hoccurs x).symm
      rw [hset]
      exact dateutil.spec k _
  · exact Or.inl ⟨hfits, by rw [if_neg hfits, search_error]⟩

/-- **The next occurrence.** The first occurrence of the rule after the current instant is returned,
none when there is none, exactly when no occurrence falls in the second that follows the current
instant, and the calendar does not end in it. -/
theorem next_iff {r : Rule} (h : WellFormed b r) :
    (∃ o, computeNextOccurrence b fromisoformat dateutil clock r.toJson reference now = .ok o ∧
      NextAfter {x | r.Occurs b (startOf fromisoformat clock reference now) x} Aware.instant
        (currentOf clock now).instant o) ↔
      FitsSecond (currentOf clock now) ∧
        ∀ x, r.Occurs b (startOf fromisoformat clock reference now) x →
          (currentOf clock now).instant < x.instant →
          (currentOf clock now).instant + second < x.instant := by
  have hle : (currentOf clock now).instant ≤ (currentOf clock now).instant + second :=
    Int.le_add_of_nonneg_right (by rw [second]; omega)
  rcases computeNextOccurrence_toJson b fromisoformat dateutil clock reference now h with
    ⟨hfits, herror⟩ | ⟨hfits, o, hok, hnext⟩
  · constructor
    · rintro ⟨o, hok, -⟩
      rw [herror] at hok
      cases hok
    · rintro ⟨hfits', -⟩
      exact absurd hfits' hfits
  · have hiff := nextAfter_iff hle hnext
    constructor
    · rintro ⟨o', hok', hnext'⟩
      rw [hok] at hok'
      cases hok'
      exact ⟨hfits, hiff.mp hnext'⟩
    · rintro ⟨-, hgap⟩
      exact ⟨o, hok, hiff.mpr hgap⟩

end Next

/-! ## An enumeration -/

/-- The days of the calendar. -/
def allDates : List Date :=
  (List.range 10000).flatMap fun year => (List.range 13).flatMap fun month =>
    (List.range 32).filterMap fun day =>
      if h : ValidDate year month day then some ⟨year, month, day, h⟩ else none

theorem daysInMonth_le (year month : Nat) : daysInMonth year month ≤ 31 := by
  unfold daysInMonth
  split
  · split <;> omega
  · split <;> omega

theorem mem_allDates (d : Date) : d ∈ allDates := by
  obtain ⟨year, month, day, hvalid⟩ := d
  obtain ⟨-, hyear, -, hmonth, -, hday⟩ := hvalid
  have hday' := daysInMonth_le year month
  have hyears : year < 10000 := by omega
  have hmonths : month < 13 := by omega
  have hdays : day < 32 := by omega
  simp only [allDates, List.mem_flatMap, List.mem_filterMap, List.mem_range]
  exact ⟨year, hyears, month, hmonths, day, hdays, dif_pos _⟩

-- The list is too long to be evaluated.
attribute [irreducible] allDates

/-- The occurrence of a day. -/
def occurrenceOn (k : Kwargs) (d : Date) : Option Aware :=
  if h : ValidTime (k.byhour.getD k.dtstart.wall.hour).toNat
      (k.byminute.getD k.dtstart.wall.minute).toNat k.dtstart.wall.second 0 then
    some ⟨⟨d, _, _, _, _, h⟩, k.dtstart.offset⟩
  else none

/-- All the occurrences, day after day. -/
def occurrences (k : Kwargs) : List Aware :=
  (allDates.filterMap (occurrenceOn k)).filter fun x => k.Occurs x

theorem mem_occurrences {k : Kwargs} {x : Aware} : x ∈ occurrences k ↔ k.Occurs x := by
  rw [occurrences, List.mem_filter, decide_eq_true_eq]
  refine and_iff_right_of_imp fun h => ?_
  obtain ⟨-, ⟨hhour, hminute, hsecond, hmicro⟩, hzone, -, -⟩ := h
  refine List.mem_filterMap.mpr ⟨x.wall.date, mem_allDates _, ?_⟩
  obtain ⟨⟨date, hour, minute, second, microsecond, hvalid⟩, offset⟩ := x
  have hh : (k.byhour.getD k.dtstart.wall.hour).toNat = hour := by
    rw [← hhour]
    rfl
  have hm : (k.byminute.getD k.dtstart.wall.minute).toNat = minute := by
    rw [← hminute]
    rfl
  have hs : k.dtstart.wall.second = second := (Int.ofNat.inj hsecond).symm
  cases hmicro
  cases hzone
  subst hh hm hs
  exact dif_pos hvalid

/-- The enumeration of the occurrences, and the search in it. -/
def enumeration : Rrule where
  after k t := firstAfter (occurrences k) Aware.instant t
  spec k t := by
    have hset : {x | k.Occurs x} = {x | x ∈ occurrences k} :=
      Set.ext fun x => mem_occurrences.symm
    rw [hset]
    exact nextAfter_firstAfter (occurrences k) Aware.instant t

/-! ## A rule for every day -/

/-- Every day, at the time of the start. -/
def everyDay : Rule := ⟨.daily, 1, [], none, none, none⟩

theorem wellFormed_everyDay : WellFormed asciiBuiltins everyDay :=
  ⟨by decide +kernel, List.nodup_nil, nofun, nofun, nofun⟩

/-- A morning in May, and half a second before. -/
def nine : Aware := ⟨⟨⟨2026, 5, 18, by decide⟩, 9, 0, 0, 0, by decide⟩, 0⟩
def beforeNine : Aware := ⟨⟨⟨2026, 5, 18, by decide⟩, 8, 59, 59, 500000, by decide⟩, 0⟩

theorem occurs_nine : everyDay.Occurs asciiBuiltins nine nine :=
  ⟨by decide, by decide, rfl, le_rfl, nofun⟩

/-- The occurrences are a day apart. -/
theorem next_day {x : Aware} (hx : everyDay.Occurs asciiBuiltins nine x)
    (hafter : nine.instant < x.instant) : nine.instant + second < x.instant := by
  obtain ⟨hhour, hminute, hsecond, hmicro⟩ := hx.time
  have hhour' : (x.wall.hour : Int) = 9 := hhour
  have hminute' : (x.wall.minute : Int) = 0 := hminute
  have hsecond' : (x.wall.second : Int) = 0 := hsecond
  have hzone : x.offset = 0 := hx.zone
  have hx' : x.instant = x.wall.date.ordinal * wholeDay + 9 * 3600 * second := by
    simp only [Aware.instant, Local.micros, timeOfDay, wholeDay, second, hzone, hhour', hminute',
      hsecond', hmicro]
    omega
  have hnine : nine.instant = nine.wall.date.ordinal * wholeDay + 9 * 3600 * second := by
    decide +kernel
  rw [hx', hnine] at hafter ⊢
  simp only [wholeDay, second] at hafter ⊢
  omega

/-- At the instant of an occurrence, the one of the next day comes next. -/
theorem next_iff_nine : ∃ o,
    computeNextOccurrence asciiBuiltins (fun _ => none) enumeration ⟨nine, nine⟩ everyDay.toJson
        (some (.moment (.aware nine))) (some (.aware nine)) = .ok o ∧
      NextAfter {x | everyDay.Occurs asciiBuiltins nine x} Aware.instant nine.instant o :=
  (next_iff asciiBuiltins (fun _ => none) enumeration ⟨nine, nine⟩
    (some (.moment (.aware nine))) (some (.aware nine)) wellFormed_everyDay).mpr
    ⟨by decide +kernel, fun _ hx hafter => next_day hx hafter⟩

/-- **The second that is skipped.** Half a second before an occurrence, it is passed over. -/
theorem skipped_occurrence : ¬ ∀ (b : Builtins) (fromisoformat : Str → Option Moment)
    (dateutil : Rrule) (clock : Clock) (reference : Option Reference) (now : Option Moment)
    (r : Rule), WellFormed b r →
    ∃ o, computeNextOccurrence b fromisoformat dateutil clock r.toJson reference now = .ok o ∧
      NextAfter {x | r.Occurs b (startOf fromisoformat clock reference now) x} Aware.instant
        (currentOf clock now).instant o := by
  intro h
  obtain ⟨o, hok, hnext⟩ := h asciiBuiltins (fun _ => none) enumeration ⟨nine, nine⟩
    (some (.moment (.aware nine))) (some (.aware beforeNine)) everyDay wellFormed_everyDay
  rcases computeNextOccurrence_toJson asciiBuiltins (fun _ => none) enumeration ⟨nine, nine⟩
    (some (.moment (.aware nine))) (some (.aware beforeNine)) wellFormed_everyDay with
    ⟨-, herror⟩ | ⟨-, o', hok', hnext'⟩
  · rw [hok] at herror
    cases herror
  · rw [hok] at hok'
    cases hok'
    have hle : beforeNine.instant ≤ beforeNine.instant + second := by decide +kernel
    have hbefore : beforeNine.instant < nine.instant := by decide +kernel
    have hskipped : ¬ beforeNine.instant + second < nine.instant := by decide +kernel
    exact hskipped ((nextAfter_iff hle hnext').mp hnext nine occurs_nine hbefore)

end MesReunions.Recurrence
