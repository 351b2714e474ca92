import MesReunions.Base.Json

/-!
# The fields of a document

What a language model answers is read with `(obj.get(key) or "").strip()`: a value that is neither
falsy nor a string raises.

* `stripOr` — the reading, and `isText`, the values it accepts.
* **`stripOr_eq`** — it is total on these values and on no others.
* **`iterOr_eq`** — the same of `for x in (v or [])`.
* **`mapM_guarded`** — a loop whose body raises on some elements.
-/

namespace MesReunions.Json

open Str

/-- `(v or default).strip()`, or `none` when it raises an `AttributeError`. -/
def stripOr (default : Str) (v : Option Json) : Option Str :=
  match v with
  | none => some (strip default)
  | some v =>
      if v.truthy then
        match v with
        | .str s => some (strip s)
        | _ => none
      else some (strip default)

/-- The value is missing, falsy, or a string. -/
def isText : Option Json → Bool
  | none => true
  | some (.str _) => true
  | some v => !v.truthy

/-- The text that is read. -/
def textOr (default : Str) : Option Json → Str
  | some (.str s) => if s = [] then strip default else strip s
  | _ => strip default

/-- **Reading a text.** -/
theorem stripOr_eq (default : Str) (v : Option Json) :
    stripOr default v = if isText v then some (textOr default v) else none := by
  cases v with
  | none => rfl
  | some v =>
      cases v with
      | str s => by_cases hs : s = [] <;> simp [stripOr, isText, textOr, truthy, hs]
      | null => rfl
      | bool b => cases b <;> rfl
      | int n => by_cases hn : n = 0 <;> simp [stripOr, isText, textOr, truthy, hn]
      | float x =>
          cases x with
          | fin q => by_cases hq : q = 0 <;> simp [stripOr, isText, textOr, truthy, hq]
          | inf _ => rfl
          | nan => rfl
      | list items => cases items <;> rfl
      | obj fields => cases fields <;> rfl

/-- What is done with a text that is read. -/
theorem stripOr_bind {β : Type*} (default : Str) (v : Option Json) (k : Str → Option β) :
    (stripOr default v).bind k = if isText v then k (textOr default v) else none := by
  rw [stripOr_eq]
  split <;> rfl

@[simp] theorem textOr_nil_str (s : Str) : textOr [] (some (.str s)) = strip s := by
  by_cases hs : s = [] <;> simp [textOr, hs]

/-- What is read of a text begins and ends with no blank. -/
theorem strip_textOr (default : Str) (v : Option Json) :
    strip (textOr default v) = textOr default v := by
  rw [textOr.eq_def]
  split
  · split <;> exact strip_strip _
  · exact strip_strip _

/-! ## Iterating -/

/-- `for x in (v or [])`: a text gives its characters and a dict its keys; `none` for the
`TypeError` of any other value. -/
def iterOr (v : Option Json) : Option (List Json) :=
  match v with
  | none => some []
  | some v =>
      if v.truthy then
        match v with
        | .list items => some items
        | .str s => some (s.map fun c => .str [c])
        | .obj fields => some (fields.map fun f => .str f.1)
        | _ => none
      else some []

/-- The value is missing, falsy, or one that can be iterated. -/
def isIterable : Option Json → Bool
  | none | some (.list _) | some (.str _) | some (.obj _) => true
  | some v => !v.truthy

/-- What the loop goes over. -/
def elements : Option Json → List Json
  | some (.list items) => items
  | some (.str s) => s.map fun c => .str [c]
  | some (.obj fields) => fields.map fun f => .str f.1
  | _ => []

/-- **Iterating.** -/
theorem iterOr_eq (v : Option Json) :
    iterOr v = if isIterable v then some (elements v) else none := by
  cases v with
  | none => rfl
  | some v =>
      cases v with
      | str s => cases s <;> rfl
      | null => rfl
      | bool b => cases b <;> rfl
      | int n => by_cases hn : n = 0 <;> simp [iterOr, isIterable, elements, truthy, hn]
      | float x =>
          cases x with
          | fin q => by_cases hq : q = 0 <;> simp [iterOr, isIterable, elements, truthy, hq]
          | inf _ => rfl
          | nan => rfl
      | list items => cases items <;> rfl
      | obj fields => cases fields <;> rfl

/-- **A loop.** It raises when its body raises on an element. -/
theorem mapM_guarded {α β : Type*} {f : α → Option β} {ok : α → Prop} [DecidablePred ok]
    {g : α → β} (h : ∀ x, f x = if ok x then some (g x) else none) (xs : List α) :
    xs.mapM f = if ∀ x ∈ xs, ok x then some (xs.map g) else none := by
  induction xs with
  | nil => simp
  | cons x xs ih =>
      rw [List.mapM_cons, h x, ih]
      by_cases hx : ok x
      · by_cases hxs : ∀ y ∈ xs, ok y
        · rw [if_pos hx, if_pos hxs, if_pos (List.forall_mem_cons.mpr ⟨hx, hxs⟩)]
          rfl
        · rw [if_pos hx, if_neg hxs, if_neg fun hall => hxs (List.forall_mem_cons.mp hall).2]
          rfl
      · rw [if_neg hx, if_neg fun hall => hx (List.forall_mem_cons.mp hall).1]
        rfl

/-- A value that is there when a condition holds. -/
theorem eq_ite_of_isSome {α : Type*} {o : Option α} {ok : Prop} [Decidable ok]
    (h : o.isSome = true ↔ ok) (default : α) :
    o = if ok then some (o.getD default) else none := by
  cases o with
  | none => rw [if_neg fun hok => by simpa using h.mpr hok]
  | some x => rw [if_pos (h.mp rfl)]; rfl

end MesReunions.Json
