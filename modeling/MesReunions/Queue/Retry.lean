import MesReunions.Base.Json

/-!
# The retry counter

`libs/shared/app/queue_helper.py`, `next_retry_decision`: the counter lives in
the `x-retry-count` header of the message, is read with `int(...)`, and a
reading that raises `TypeError` or `ValueError` counts as zero.

* **`intOf`** — `int(v)` on every value an AMQP table can hold. It raises on
  most of them, and not always with one of those two exceptions: an infinite
  float gives `OverflowError`.
* **`nextRetryDecision`** — the decision, with the exception it lets through.
-/

namespace MesReunions.Queue

open MesReunions.Str

/-- A header value, as the client library decodes AMQP field tables. -/
inductive HeaderValue where
  | none
  | bool (b : Bool)
  | int (n : Int)
  | float (x : PyFloat)
  | decimal (q : ℚ)
  | str (s : Str)
  | bytes (b : Bytes)
  | timestamp (seconds : Int)
  | list (items : List HeaderValue)
  | table (fields : List (Str × HeaderValue))

/-- A header table: `dict` of header names to values. -/
abbrev Headers := AList fun _ : Str => HeaderValue

/-! ## `int(...)` -/

/-- Truncation toward zero. -/
def truncate (q : ℚ) : Int := if 0 ≤ q then ⌊q⌋ else ⌈q⌉

/-- The blanks `int` skips around a literal: those of `str.isspace`, less the
four ASCII separators. -/
def isIntSpace (c : Char) : Bool := isSpace c && !(28 ≤ c.toNat && c.toNat ≤ 31)

/-- A literal's sign and the text after it. -/
def splitSign : Str → Int × Str
  | '-' :: t => (-1, t)
  | '+' :: t => (1, t)
  | t => (1, t)

/-- `int(s)`: blanks around, one sign, digits of any script with single `_`
between them, at most `maxStrDigits` digits. -/
def intOfStr (s : Str) : Except PyError Int :=
  let signed := splitSign ((s.dropWhile isIntSpace).rdropWhile isIntSpace)
  let groups := signed.2.splitOn '_'
  if groups.all fun g => g ≠ [] && g.all isDigit then
    if maxStrDigits < groups.flatten.length then .error .valueError
    else .ok (signed.1 * natOfDigits groups.flatten)
  else .error .valueError

/-- `int(b)`: as on a `str`, with ASCII characters only. -/
def intOfBytes (b : Bytes) : Except PyError Int :=
  if b.all (· < 128) then intOfStr (b.map fun x => Char.ofNat x.toNat)
  else .error .valueError

/-- `int(v)` -/
def intOf : HeaderValue → Except PyError Int
  | .bool b => .ok (if b then 1 else 0)
  | .int n => .ok n
  | .float (.fin q) => .ok (truncate q)
  | .float (.inf _) => .error .overflowError
  | .float .nan => .error .valueError
  | .decimal q => .ok (truncate q)
  | .str s => intOfStr s
  | .bytes b => intOfBytes b
  | .none | .timestamp _ | .list _ | .table _ => .error .typeError

/-! ## The decision -/

def retryHeader : Str := "x-retry-count".toList

/-- `current.get(RETRY_HEADER, 0)` -/
def retryField (current : Headers) : HeaderValue :=
  (current.lookup retryHeader).getD (.int 0)

/-- `retry_count`, read under `except (TypeError, ValueError)`. -/
def readRetryCount (current : Headers) : Except PyError Int :=
  match intOf (retryField current) with
  | .ok n => .ok n
  | .error .typeError => .ok 0
  | .error .valueError => .ok 0
  | .error e => .error e

/-- `next_retry_decision(headers, max_retries)`: whether to retry, the headers
to republish under, and the count reported. -/
def nextRetryDecision (headers : Option Headers) (maxRetries : Int) :
    Except PyError (Bool × Headers × Int) := do
  let current := headers.getD ∅
  let retryCount ← readRetryCount current
  if retryCount ≥ maxRetries then
    return (false, current, retryCount)
  let nextHeaders := current.insert retryHeader (.int (retryCount + 1))
  return (true, nextHeaders, retryCount + 1)

/-! ## What the decision comes to -/

/-- The header holds a float that is not finite but not a `nan` either: the one
kind of value whose reading escapes the guard. -/
def Overflows (headers : Option Headers) : Prop :=
  ∃ negative, retryField (headers.getD ∅) = .float (.inf negative)

/-- The counter's value: the integer the header reads as, zero when it reads as
none. -/
def countOf (headers : Option Headers) : Int :=
  match intOf (retryField (headers.getD ∅)) with
  | .ok n => n
  | .error _ => 0

/-- The headers of the republished copy. -/
def bumped (headers : Option Headers) : Headers :=
  (headers.getD ∅).insert retryHeader (.int (countOf headers + 1))

theorem intOfStr_error {s : Str} {e : PyError} (h : intOfStr s = .error e) :
    e = .valueError := by
  unfold intOfStr at h
  dsimp only at h
  split at h
  · split at h
    · injection h with h; exact h.symm
    · cases h
  · injection h with h; exact h.symm

theorem intOfBytes_error {b : Bytes} {e : PyError} (h : intOfBytes b = .error e) :
    e = .valueError := by
  unfold intOfBytes at h
  split at h
  · exact intOfStr_error h
  · injection h with h; exact h.symm

/-- Only an infinite float makes `int` raise anything but the two guarded
exceptions. -/
theorem intOf_error {v : HeaderValue} {e : PyError} (h : intOf v = .error e) :
    e = .typeError ∨ e = .valueError ∨
      (e = .overflowError ∧ ∃ negative, v = .float (.inf negative)) := by
  cases v with
  | none => injection h with h; exact Or.inl h.symm
  | bool b => cases h
  | int n => cases h
  | float x =>
      cases x with
      | fin q => cases h
      | inf negative => injection h with h; exact Or.inr (Or.inr ⟨h.symm, negative, rfl⟩)
      | nan => injection h with h; exact Or.inr (Or.inl h.symm)
  | decimal q => cases h
  | str s => exact Or.inr (Or.inl (intOfStr_error h))
  | bytes b => exact Or.inr (Or.inl (intOfBytes_error h))
  | timestamp t => injection h with h; exact Or.inl h.symm
  | list items => injection h with h; exact Or.inl h.symm
  | table fields => injection h with h; exact Or.inl h.symm

/-- **The escape.** An infinite float goes through the guard. -/
theorem nextRetryDecision_of_overflows {headers : Option Headers} {maxRetries : Int}
    (h : Overflows headers) :
    nextRetryDecision headers maxRetries = .error .overflowError := by
  obtain ⟨negative, hneg⟩ := h
  simp [nextRetryDecision, readRetryCount, hneg, intOf, bind, Except.bind]

theorem readRetryCount_of_not {headers : Option Headers} (h : ¬ Overflows headers) :
    readRetryCount (headers.getD ∅) = .ok (countOf headers) := by
  unfold readRetryCount countOf
  cases hv : intOf (retryField (headers.getD ∅)) with
  | ok n => rfl
  | error e =>
      rcases intOf_error hv with rfl | rfl | ⟨rfl, hinf⟩
      · rfl
      · rfl
      · exact absurd hinf h

/-- **The decision.** On every other header the decision is made, on the value
`countOf` reads. -/
theorem nextRetryDecision_of_not {headers : Option Headers} {maxRetries : Int}
    (h : ¬ Overflows headers) :
    nextRetryDecision headers maxRetries =
      if maxRetries ≤ countOf headers then
        .ok (false, headers.getD ∅, countOf headers)
      else .ok (true, bumped headers, countOf headers + 1) := by
  simp only [nextRetryDecision, readRetryCount_of_not h, bind, Except.bind]
  split <;> rfl

/-- The republished copy carries an integer, so its own reading never escapes. -/
theorem countOf_bumped (headers : Option Headers) :
    countOf (some (bumped headers)) = countOf headers + 1 := by
  simp [countOf, bumped, retryField, intOf]

theorem not_overflows_bumped (headers : Option Headers) :
    ¬ Overflows (some (bumped headers)) := by
  rintro ⟨negative, h⟩
  simp [bumped, retryField] at h

end MesReunions.Queue
