import MesReunions.Base.Calendar
import MesReunions.Base.Fields
import MesReunions.Base.Float

/-!
# Recurrence rules

`normalize_rule` of `recurrence.py`: what is kept of a rule that comes as a JSON value.

* `Rule` — a normalised rule, and `Rule.toJson`, the document that is stored.
* `normalizeRule` — the rule, none when the value cannot be used, or the exception.
* `WellFormed` — what a rule is after it is normalised.
* **`wellFormed_normalizeRule`** — a rule that is returned is well formed.
* **`normalizeRule_toJson`** — a well-formed rule is left as it is.
* **`normalized`** — both, and the exceptions.
-/

namespace MesReunions.Recurrence

open Str Json

/-! ## The built-in functions -/

/-- What the built-in functions make of texts: `str(v)` of what is not a string (`none` for the
`ValueError` of an integer past the digit limit), `int(s)` and `date.fromisoformat(s)`, `none` for
their exceptions. Capital letters are their own capitals. -/
structure Builtins where
  upper : Str → Str
  upper_capitals : ∀ s, (s.all fun c => 65 ≤ c.toNat && c.toNat ≤ 90) = true → upper s = s
  str : Json → Option Str
  int : Str → Option Int
  date : Str → Option Date

/-- `date.fromisoformat(s)` returns. -/
def Builtins.isDate (b : Builtins) (s : Str) : Bool := (b.date s).isSome

/-- `str(v)` -/
def strOf (b : Builtins) : Json → Except PyError Str
  | .str s => .ok s
  | v =>
      match b.str v with
      | some s => .ok s
      | none => .error .valueError

/-- `int(v)` -/
def intOf (b : Builtins) : Json → Except PyError Int
  | .int n => .ok n
  | .bool v => .ok (if v then 1 else 0)
  | .float x => x.toInt
  | .str s =>
      match b.int s with
      | some n => .ok n
      | none => .error .valueError
  | _ => .error .typeError

/-- `try: … except (TypeError, ValueError): default` -/
def caught {α : Type} (default : α) : Except PyError α → Except PyError α
  | .error .typeError => .ok default
  | .error .valueError => .ok default
  | r => r

/-! ## Rules -/

/-- The keys of `_FREQ_MAP`. -/
inductive Freq where
  | daily
  | weekly
  | monthly
  deriving DecidableEq

def Freq.code : Freq → Str
  | daily => ['D', 'A', 'I', 'L', 'Y']
  | weekly => ['W', 'E', 'E', 'K', 'L', 'Y']
  | monthly => ['M', 'O', 'N', 'T', 'H', 'L', 'Y']

def Freq.all : List Freq := [daily, weekly, monthly]

/-- `freq in _FREQ_MAP` -/
def freqOf (s : Str) : Option Freq := Freq.all.find? fun f => f.code = s

/-- The keys of `_WEEKDAY_MAP`. -/
inductive Weekday where
  | mo
  | tu
  | we
  | th
  | fr
  | sa
  | su
  deriving DecidableEq

namespace Weekday

def code : Weekday → Str
  | mo => ['M', 'O']
  | tu => ['T', 'U']
  | we => ['W', 'E']
  | th => ['T', 'H']
  | fr => ['F', 'R']
  | sa => ['S', 'A']
  | su => ['S', 'U']

def all : List Weekday := [mo, tu, we, th, fr, sa, su]

end Weekday

/-- `c in _WEEKDAY_MAP` -/
def weekdayOf (s : Str) : Option Weekday := Weekday.all.find? fun d => d.code = s

/-- A normalised rule; no weekday stands for an absent key. -/
structure Rule where
  freq : Freq
  interval : Int
  byweekday : List Weekday
  byhour : Option Int
  byminute : Option Int
  until? : Option Str
  deriving DecidableEq

/-- A key that is present or not. -/
def entry {α : Type} (key : String) (value : Option α) (toJson : α → Json) : List (Str × Json) :=
  (value.map fun v => (key.toList, toJson v)).toList

/-- The `dict` of a rule. -/
def Rule.toJson (r : Rule) : Json :=
  .obj ([("freq".toList, .str r.freq.code), ("interval".toList, .int r.interval)] ++
    entry "byweekday" (if r.byweekday = [] then none else some r.byweekday)
      (fun days => .list (days.map fun d => .str d.code)) ++
    entry "byhour" r.byhour .int ++ entry "byminute" r.byminute .int ++
    entry "until" r.until? .str)

/-! ## The normalisation -/

/-- `rule.get(key)` -/
def field (fields : List (Str × Json)) (key : String) : Json :=
  (get? fields key.toList).getD .null

/-- `str(rule.get("freq") or "").upper().strip()` -/
def freqText (b : Builtins) (v : Json) : Except PyError Str :=
  (if v.truthy then strOf b v else .ok []).map fun text => strip (b.upper text)

/-- `interval` -/
def intervalOf (b : Builtins) (v : Json) : Except PyError Int :=
  caught 1 ((intOf b (if v.truthy then v else .int 1)).map fun n =>
    if n < 1 then 1 else if 365 < n then 365 else n)

/-- The codes of the weekdays of a list, one after the other. -/
def codesOf (b : Builtins) : List Json → Except PyError (List Weekday)
  | [] => .ok []
  | x :: items => do
      let text ← strOf b x
      let rest ← codesOf b items
      .ok (if strip text = [] then rest
        else (weekdayOf ((strip (b.upper text)).take 2)).toList ++ rest)

/-- `seen` and `ordered`: the first of equal codes is kept. -/
def ordered (codes : List Weekday) : List Weekday :=
  codes.foldl (fun kept c => if c ∈ kept then kept else kept ++ [c]) []

/-- `byweekday` -/
def weekdaysOf (b : Builtins) : Json → Except PyError (List Weekday)
  | .list items => (codesOf b items).map ordered
  | _ => .ok []

/-- `byhour` and `byminute`, from `0` to `hi`. -/
def boundedOf (b : Builtins) (hi : Int) (v : Json) : Except PyError (Option Int) :=
  match v with
  | .null => .ok none
  | .str [] => .ok none
  | v => caught none ((intOf b v).map fun n => if 0 ≤ n ∧ n ≤ hi then some n else none)

/-- `until` -/
def untilOf (b : Builtins) : Json → Option Str
  | .str s => if s ≠ [] ∧ b.isDate (s.take 10) = true then some (s.take 10) else none
  | _ => none

/-- `normalize_rule(rule)` -/
def normalizeRule (b : Builtins) : Json → Except PyError (Option Rule)
  | .obj fields => do
      let text ← freqText b (field fields "freq")
      match freqOf text with
      | none => .ok none
      | some freq =>
          let interval ← intervalOf b (field fields "interval")
          let byweekday ← weekdaysOf b (field fields "byweekday")
          let byhour ← boundedOf b 23 (field fields "byhour")
          let byminute ← boundedOf b 59 (field fields "byminute")
          .ok (some ⟨freq, interval, byweekday, byhour, byminute, untilOf b (field fields "until")⟩)
  | _ => .ok none

/-! ## What is returned -/

/-- A rule after it is normalised. -/
structure WellFormed (b : Builtins) (r : Rule) : Prop where
  interval : 1 ≤ r.interval ∧ r.interval ≤ 365
  byweekday : r.byweekday.Nodup
  byhour : ∀ n, r.byhour = some n → 0 ≤ n ∧ n ≤ 23
  byminute : ∀ n, r.byminute = some n → 0 ≤ n ∧ n ≤ 59
  until? : ∀ s, r.until? = some s → s ≠ [] ∧ s.length ≤ 10 ∧ b.isDate s = true

/-- An infinite number. -/
def isInfinite : Json → Bool
  | .float (.inf _) => true
  | _ => false

/-- One of the fields that are read as integers is an infinite number. -/
def HasInfinite (v : Json) : Prop :=
  ∃ fields, v = .obj fields ∧ ∃ key ∈ ["interval", "byhour", "byminute"],
    isInfinite (field fields key) = true

/-! ## Exceptions -/

theorem bind_eq_error {α β : Type} {x : Except PyError α} {k : α → Except PyError β} {e : PyError}
    (h : x >>= k = .error e) : x = .error e ∨ ∃ a, x = .ok a ∧ k a = .error e := by
  cases x with
  | error e' =>
      cases h
      exact Or.inl rfl
  | ok a => exact Or.inr ⟨a, rfl, h⟩

theorem bind_eq_ok {α β : Type} {x : Except PyError α} {k : α → Except PyError β} {v : β}
    (h : x >>= k = .ok v) : ∃ a, x = .ok a ∧ k a = .ok v := by
  cases x with
  | error e => cases h
  | ok a => exact ⟨a, rfl, h⟩

theorem strOf_error {b : Builtins} {v : Json} {e : PyError} (h : strOf b v = .error e) :
    e = .valueError := by
  cases v with
  | str s => cases h
  | _ =>
      rw [strOf] at h
      · split at h
        · cases h
        · cases h
          rfl
      · exact nofun

/-- An integer overflows when it is read from an infinite number. -/
theorem intOf_error {b : Builtins} {v : Json} {e : PyError} (h : intOf b v = .error e) :
    e = .typeError ∨ e = .valueError ∨ isInfinite v = true := by
  cases v with
  | float x =>
      cases x with
      | fin q => cases h
      | inf _ => exact Or.inr (Or.inr rfl)
      | nan =>
          cases h
          exact Or.inr (Or.inl rfl)
  | str s =>
      rw [intOf] at h
      split at h
      · cases h
      · cases h
        exact Or.inr (Or.inl rfl)
  | int n => cases h
  | bool v => cases h
  | _ =>
      cases h
      exact Or.inl rfl

theorem caught_error {α : Type} {default : α} {r : Except PyError α} {e : PyError}
    (h : caught default r = .error e) : r = .error e ∧ e ≠ .typeError ∧ e ≠ .valueError := by
  cases r with
  | ok a => cases h
  | error e' =>
      cases e' with
      | typeError => cases h
      | valueError => cases h
      | overflowError =>
          cases h
          exact ⟨rfl, nofun, nofun⟩
      | attributeError =>
          cases h
          exact ⟨rfl, nofun, nofun⟩

/-- What is not caught comes from an infinite number. -/
theorem isInfinite_of_caught {α : Type} {default : α} {b : Builtins} {v : Json} {f : Int → α}
    {e : PyError} (h : caught default ((intOf b v).map f) = .error e) : isInfinite v = true := by
  obtain ⟨hmap, htype, hvalue⟩ := caught_error h
  cases hint : intOf b v with
  | ok n =>
      rw [hint] at hmap
      cases hmap
  | error e' =>
      rw [hint] at hmap
      cases hmap
      exact ((intOf_error hint).resolve_left htype).resolve_left hvalue

theorem intervalOf_error {b : Builtins} {v : Json} {e : PyError} (h : intervalOf b v = .error e) :
    isInfinite v = true := by
  have hinfinite := isInfinite_of_caught h
  by_cases htruthy : v.truthy = true
  · rwa [if_pos htruthy] at hinfinite
  · rw [if_neg htruthy] at hinfinite
    cases hinfinite

theorem boundedOf_error {b : Builtins} {hi : Int} {v : Json} {e : PyError}
    (h : boundedOf b hi v = .error e) : isInfinite v = true := by
  unfold boundedOf at h
  split at h
  · cases h
  · cases h
  · exact isInfinite_of_caught h

theorem codesOf_error {b : Builtins} {items : List Json} {e : PyError}
    (h : codesOf b items = .error e) : e = .valueError := by
  induction items with
  | nil => cases h
  | cons x items ih =>
      rcases bind_eq_error h with h | ⟨text, -, h⟩
      · exact strOf_error h
      · rcases bind_eq_error h with h | ⟨rest, -, h⟩
        · exact ih h
        · cases h

theorem weekdaysOf_error {b : Builtins} {v : Json} {e : PyError} (h : weekdaysOf b v = .error e) :
    e = .valueError := by
  cases v with
  | list items =>
      cases hcodes : codesOf b items with
      | ok codes =>
          rw [weekdaysOf, hcodes] at h
          cases h
      | error e' =>
          rw [weekdaysOf, hcodes] at h
          cases h
          exact codesOf_error hcodes
  | _ => cases h

theorem freqText_error {b : Builtins} {v : Json} {e : PyError} (h : freqText b v = .error e) :
    e = .valueError := by
  rw [freqText] at h
  split at h
  · cases hstr : strOf b v with
    | ok text =>
        rw [hstr] at h
        cases h
    | error e' =>
        rw [hstr] at h
        cases h
        exact strOf_error hstr
  · cases h

/-- **The exceptions.** What is raised is a `ValueError`, unless a number is infinite. -/
theorem normalizeRule_error {b : Builtins} {v : Json} {e : PyError}
    (h : normalizeRule b v = .error e) : e = .valueError ∨ HasInfinite v := by
  cases v with
  | obj fields =>
      rcases bind_eq_error h with h | ⟨text, -, h⟩
      · exact Or.inl (freqText_error h)
      · cases hfreq : freqOf text with
        | none =>
            rw [hfreq] at h
            cases h
        | some freq =>
            rw [hfreq] at h
            rcases bind_eq_error h with h | ⟨interval, -, h⟩
            · exact Or.inr ⟨fields, rfl, "interval", by simp, intervalOf_error h⟩
            rcases bind_eq_error h with h | ⟨byweekday, -, h⟩
            · exact Or.inl (weekdaysOf_error h)
            rcases bind_eq_error h with h | ⟨byhour, -, h⟩
            · exact Or.inr ⟨fields, rfl, "byhour", by simp, boundedOf_error h⟩
            rcases bind_eq_error h with h | ⟨byminute, -, h⟩
            · exact Or.inr ⟨fields, rfl, "byminute", by simp, boundedOf_error h⟩
            · cases h
  | _ => cases h

/-! ## A rule that is returned -/

theorem ordered_spec (codes kept : List Weekday) (h : kept.Nodup) :
    (codes.foldl (fun kept c => if c ∈ kept then kept else kept ++ [c]) kept).Nodup ∧
      ((kept ++ codes).Nodup →
        codes.foldl (fun kept c => if c ∈ kept then kept else kept ++ [c]) kept =
          kept ++ codes) := by
  induction codes generalizing kept with
  | nil => exact ⟨h, fun _ => (List.append_nil _).symm⟩
  | cons c codes ih =>
      rw [List.foldl_cons]
      by_cases hc : c ∈ kept
      · rw [if_pos hc]
        refine ⟨(ih kept h).1, fun hnodup => ?_⟩
        exact absurd rfl ((List.nodup_append.mp hnodup).2.2 c hc c List.mem_cons_self)
      · rw [if_neg hc]
        have hkept : (kept ++ [c]).Nodup := by
          refine List.nodup_append.mpr ⟨h, List.nodup_singleton c, fun d hd d' hd' => ?_⟩
          rw [List.mem_singleton.mp hd']
          rintro rfl
          exact hc hd
        obtain ⟨hnodup, hsame⟩ := ih (kept ++ [c]) hkept
        have happend : kept ++ c :: codes = kept ++ [c] ++ codes := List.append_cons _ _ _
        rw [happend]
        exact ⟨hnodup, hsame⟩

theorem ordered_of_nodup {codes : List Weekday} (h : codes.Nodup) : ordered codes = codes :=
  (ordered_spec codes [] List.nodup_nil).2 h

theorem caught_map_ok {α : Type} {default : α} {r : Except PyError Int} {f : Int → α} {a : α}
    (h : caught default (r.map f) = .ok a) : a = default ∨ ∃ n, a = f n := by
  cases r with
  | ok n =>
      cases h
      exact Or.inr ⟨n, rfl⟩
  | error e =>
      cases e with
      | typeError =>
          cases h
          exact Or.inl rfl
      | valueError =>
          cases h
          exact Or.inl rfl
      | overflowError => cases h
      | attributeError => cases h

theorem intervalOf_ok {b : Builtins} {v : Json} {n : Int} (h : intervalOf b v = .ok n) :
    1 ≤ n ∧ n ≤ 365 := by
  rcases caught_map_ok h with rfl | ⟨m, rfl⟩
  · omega
  · split
    · omega
    · split <;> omega

theorem boundedOf_ok {b : Builtins} {hi : Int} {v : Json} {o : Option Int}
    (h : boundedOf b hi v = .ok o) (n : Int) (hn : o = some n) : 0 ≤ n ∧ n ≤ hi := by
  subst hn
  unfold boundedOf at h
  split at h
  · cases h
  · cases h
  · rcases caught_map_ok h with h | ⟨m, h⟩
    · cases h
    · split at h
      · rename_i hm
        cases h
        exact hm
      · cases h

theorem weekdaysOf_ok {b : Builtins} {v : Json} {days : List Weekday}
    (h : weekdaysOf b v = .ok days) : days.Nodup := by
  cases v with
  | list items =>
      cases hcodes : codesOf b items with
      | ok codes =>
          rw [weekdaysOf, hcodes] at h
          cases h
          exact (ordered_spec codes [] List.nodup_nil).1
      | error e =>
          rw [weekdaysOf, hcodes] at h
          cases h
  | _ =>
      cases h
      exact List.nodup_nil

theorem untilOf_some {b : Builtins} {v : Json} {s : Str} (h : untilOf b v = some s) :
    s ≠ [] ∧ s.length ≤ 10 ∧ b.isDate s = true := by
  cases v with
  | str t =>
      rw [untilOf] at h
      split at h
      · rename_i ht
        cases h
        refine ⟨fun hnil => ht.1 ?_, List.length_take_le 10 t, ht.2⟩
        exact (List.take_eq_nil_iff.mp hnil).resolve_left (by omega)
      · cases h
  | _ => cases h

/-- **A rule that is returned** is well formed. -/
theorem wellFormed_normalizeRule {b : Builtins} {v : Json} {r : Rule}
    (h : normalizeRule b v = .ok (some r)) : WellFormed b r := by
  cases v with
  | obj fields =>
      obtain ⟨text, -, h⟩ := bind_eq_ok h
      cases hfreq : freqOf text with
      | none =>
          rw [hfreq] at h
          cases h
      | some freq =>
          rw [hfreq] at h
          obtain ⟨interval, hinterval, h⟩ := bind_eq_ok h
          obtain ⟨byweekday, hbyweekday, h⟩ := bind_eq_ok h
          obtain ⟨byhour, hbyhour, h⟩ := bind_eq_ok h
          obtain ⟨byminute, hbyminute, h⟩ := bind_eq_ok h
          cases h
          exact ⟨intervalOf_ok hinterval, weekdaysOf_ok hbyweekday, boundedOf_ok hbyhour,
            boundedOf_ok hbyminute, fun s hs => untilOf_some hs⟩
  | _ => cases h

/-! ## Normalising again -/

/-- The fields of the document of a rule. -/
theorem field_toJson (r : Rule) : ∃ fields, r.toJson = .obj fields ∧
    field fields "freq" = .str r.freq.code ∧ field fields "interval" = .int r.interval ∧
    field fields "byweekday" = (if r.byweekday = [] then .null
      else .list (r.byweekday.map fun d => .str d.code)) ∧
    field fields "byhour" = (r.byhour.map Json.int).getD .null ∧
    field fields "byminute" = (r.byminute.map Json.int).getD .null ∧
    field fields "until" = (r.until?.map Json.str).getD .null := by
  obtain ⟨freq, interval, byweekday, byhour, byminute, until?⟩ := r
  refine ⟨_, rfl, ?_⟩
  by_cases hdays : byweekday = []
  · simp only [hdays, if_true]
    cases byhour <;> cases byminute <;> cases until? <;> exact ⟨rfl, rfl, rfl, rfl, rfl, rfl⟩
  · simp only [hdays, if_false]
    cases byhour <;> cases byminute <;> cases until? <;> exact ⟨rfl, rfl, rfl, rfl, rfl, rfl⟩

theorem freqText_code (b : Builtins) (f : Freq) : freqText b (.str f.code) = .ok f.code := by
  have hupper : b.upper f.code = f.code := b.upper_capitals _ (by cases f <;> decide)
  have htruthy : (Json.str f.code).truthy = true := by cases f <;> rfl
  have hstrip : strip f.code = f.code := by cases f <;> rfl
  rw [freqText, if_pos htruthy, strOf]
  show Except.ok (strip (b.upper f.code)) = _
  rw [hupper, hstrip]

theorem freqOf_code (f : Freq) : freqOf f.code = some f := by cases f <;> decide

theorem codesOf_codes (b : Builtins) (days : List Weekday) :
    codesOf b (days.map fun d => .str d.code) = .ok days := by
  induction days with
  | nil => rfl
  | cons d days ih =>
      have hupper : b.upper d.code = d.code := b.upper_capitals _ (by cases d <;> decide)
      have hstrip : strip d.code = d.code := by cases d <;> rfl
      have hne : d.code ≠ [] := by cases d <;> decide
      have hday : weekdayOf (d.code.take 2) = some d := by cases d <;> decide
      rw [List.map_cons, codesOf, strOf, ih]
      show Except.ok (if strip d.code = [] then days
        else (weekdayOf ((strip (b.upper d.code)).take 2)).toList ++ days) = _
      rw [hupper, hstrip, if_neg hne, hday]
      rfl

theorem intervalOf_int (b : Builtins) {n : Int} (h : 1 ≤ n ∧ n ≤ 365) :
    intervalOf b (.int n) = .ok n := by
  have htruthy : (Json.int n).truthy = true := by
    have hne : n ≠ 0 := by omega
    simpa [truthy] using hne
  rw [intervalOf, if_pos htruthy]
  show Except.ok (if n < 1 then 1 else if 365 < n then 365 else n) = _
  rw [if_neg (by omega), if_neg (by omega)]

theorem boundedOf_int (b : Builtins) {hi : Int} {o : Option Int}
    (h : ∀ n, o = some n → 0 ≤ n ∧ n ≤ hi) :
    boundedOf b hi ((o.map Json.int).getD .null) = .ok o := by
  cases o with
  | none => rfl
  | some n =>
      show Except.ok (if 0 ≤ n ∧ n ≤ hi then some n else none) = _
      rw [if_pos (h n rfl)]

theorem untilOf_str {b : Builtins} {o : Option Str}
    (h : ∀ s, o = some s → s ≠ [] ∧ s.length ≤ 10 ∧ b.isDate s = true) :
    untilOf b ((o.map Json.str).getD .null) = o := by
  cases o with
  | none => rfl
  | some s =>
      obtain ⟨hne, hlength, hdate⟩ := h s rfl
      show (if s ≠ [] ∧ b.isDate (s.take 10) = true then some (s.take 10) else none) = _
      rw [List.take_of_length_le hlength, if_pos ⟨hne, hdate⟩]

/-- **A well-formed rule** is left as it is. -/
theorem normalizeRule_toJson {b : Builtins} {r : Rule} (h : WellFormed b r) :
    normalizeRule b r.toJson = .ok (some r) := by
  obtain ⟨fields, hjson, hfreq, hinterval, hbyweekday, hbyhour, hbyminute, huntil⟩ := field_toJson r
  have hdays : weekdaysOf b (field fields "byweekday") = .ok r.byweekday := by
    rw [hbyweekday]
    split
    · rename_i hnil
      rw [hnil]
      rfl
    · rw [weekdaysOf, codesOf_codes]
      exact congrArg Except.ok (ordered_of_nodup h.byweekday)
  rw [hjson, normalizeRule, hfreq, freqText_code]
  show (match freqOf r.freq.code with | none => _ | some freq => _) = _
  rw [freqOf_code, hinterval, intervalOf_int b h.interval, hdays, hbyhour,
    boundedOf_int b h.byhour, hbyminute, boundedOf_int b h.byminute, huntil, untilOf_str h.until?]
  rfl

/-- **Recurrence rules.** Whatever the value is, what is raised is a `ValueError`, unless a number
is infinite; and a rule that is returned is left as it is when it is normalised again. -/
theorem normalized (b : Builtins) (v : Json) :
    (∀ e, normalizeRule b v = .error e → e = .valueError ∨ HasInfinite v) ∧
      ∀ r, normalizeRule b v = .ok (some r) → normalizeRule b r.toJson = .ok (some r) :=
  ⟨fun _ h => normalizeRule_error h, fun _ h => normalizeRule_toJson (wellFormed_normalizeRule h)⟩

/-! ## A value that cannot be used -/

theorem toUpper_capital {c : Char} (h : c.toNat ≤ 90) : c.toUpper = c := by
  have hz : ¬ ('a'.val ≤ c.val) := fun ha => by
    have hle : 97 ≤ c.toNat := UInt32.le_iff_toNat_le.mp ha
    omega
  rw [Char.toUpper, dif_neg fun hlow => hz hlow.1]

/-- The built-in functions on the capital and small letters of ASCII; no text is a date. -/
def asciiBuiltins : Builtins where
  upper := List.map Char.toUpper
  upper_capitals s hs := by
    refine (List.map_congr_left fun c hc => ?_).trans (List.map_id s)
    have hcapital := List.all_eq_true.mp hs c hc
    simp only [Bool.and_eq_true, decide_eq_true_eq] at hcapital
    exact toUpper_capital hcapital.2
  str _ := none
  int _ := none
  date _ := none

/-- **A value that cannot be used.** No rule comes back, and no exception. -/
theorem unusable_value : ¬ ∀ (b : Builtins) (v : Json),
    (∃ r, normalizeRule b v = .ok (some r)) ∨ normalizeRule b v = .error .valueError := by
  intro h
  rcases h asciiBuiltins .null with ⟨r, hr⟩ | hr
  · cases hr
  · cases hr

end MesReunions.Recurrence
