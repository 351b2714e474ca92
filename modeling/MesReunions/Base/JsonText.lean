import MesReunions.Base.Json

/-!
# The text of a JSON value

What `json.dumps(v, separators=(",", ":"))` writes, and that the decoder reads it.

* `write` — the text of a value, given the text of its floats.
* `Readable` — values whose objects hold each key once, and whose floats are read back.
* **`scanString_escaped`**, **`scanNumber_strOfInt`** — strings and integers are read back.
* **`scan_write`** — so is every value, whatever follows it.
-/

namespace MesReunions.Json

open Str

/-! ## Writing -/

/-- The character of a hexadecimal digit. -/
def hexChar (d : Nat) : Char := if d < 10 then Char.ofNat (48 + d) else Char.ofNat (87 + d)

/-- `\u`, and four hexadecimal digits. -/
def unicodeEscape (n : Nat) : Str :=
  ['\\', 'u', hexChar (n / 4096), hexChar (n / 256 % 16), hexChar (n / 16 % 16), hexChar (n % 16)]

/-- What is written for a character of a string. -/
def escaped (c : Char) : Str :=
  if c = '"' then ['\\', '"']
  else if c = '\\' then ['\\', '\\']
  else if c = '\n' then ['\\', 'n']
  else if c = '\r' then ['\\', 'r']
  else if c = '\t' then ['\\', 't']
  else if c = '\x0C' then ['\\', 'f']
  else if c = '\x08' then ['\\', 'b']
  else if 32 ≤ c.toNat ∧ c.toNat ≤ 126 then [c]
  else if c.toNat < 0x10000 then unicodeEscape c.toNat
  else unicodeEscape (0xD800 + (c.toNat - 0x10000) / 0x400) ++
    unicodeEscape (0xDC00 + (c.toNat - 0x10000) % 0x400)

/-- A string literal. -/
def quoted (s : Str) : Str := '"' :: (s.flatMap escaped ++ ['"'])

mutual

/-- The text of a value, with the text of its numbers. -/
def write (repr : ℚ → Str) : Json → Str
  | null => ['n', 'u', 'l', 'l']
  | bool true => ['t', 'r', 'u', 'e']
  | bool false => ['f', 'a', 'l', 's', 'e']
  | int n => strOfInt n
  | float (.fin q) => repr q
  | float .nan => ['N', 'a', 'N']
  | float (.inf false) => ['I', 'n', 'f', 'i', 'n', 'i', 't', 'y']
  | float (.inf true) => ['-', 'I', 'n', 'f', 'i', 'n', 'i', 't', 'y']
  | str s => quoted s
  | list items => '[' :: (writeItems repr items ++ [']'])
  | obj fields => '{' :: (writeFields repr fields ++ ['}'])

def writeItems (repr : ℚ → Str) : List Json → Str
  | [] => []
  | [v] => write repr v
  | v :: w :: items => write repr v ++ ',' :: writeItems repr (w :: items)

def writeFields (repr : ℚ → Str) : List (Str × Json) → Str
  | [] => []
  | [(key, v)] => quoted key ++ ':' :: write repr v
  | (key, v) :: f :: fields => quoted key ++ ':' :: (write repr v ++
      ',' :: writeFields repr (f :: fields))

end

mutual

/-- The integers are within the digit limit. -/
def intsFit : Json → Bool
  | int n => (strOfNat n.natAbs).length ≤ maxStrDigits
  | list items => intsFitItems items
  | obj fields => intsFitFields fields
  | _ => true

def intsFitItems : List Json → Bool
  | [] => true
  | v :: items => intsFit v && intsFitItems items

def intsFitFields : List (Str × Json) → Bool
  | [] => true
  | (_, v) :: fields => intsFit v && intsFitFields fields

end

mutual

/-- How deep lists and objects are nested. -/
def depth : Json → Nat
  | list items => depthItems items + 1
  | obj fields => depthFields fields + 1
  | _ => 0

def depthItems : List Json → Nat
  | [] => 0
  | v :: items => max (depth v) (depthItems items)

def depthFields : List (Str × Json) → Nat
  | [] => 0
  | (_, v) :: fields => max (depth v) (depthFields fields)

end

/-! ## Strings -/

theorem hexVal_hexChar : ∀ d < 16, hexVal (hexChar d) = some d := by decide

theorem hex4_hexChars {n : Nat} (h : n < 0x10000) (rest : Str) :
    hex4 ([hexChar (n / 4096), hexChar (n / 256 % 16), hexChar (n / 16 % 16), hexChar (n % 16)] ++
      rest) = some (n, rest) := by
  have hvalue : ((n / 4096 * 16 + n / 256 % 16) * 16 + n / 16 % 16) * 16 + n % 16 = n := by omega
  show (do
    let n := (((← hexVal (hexChar (n / 4096))) * 16 + (← hexVal (hexChar (n / 256 % 16)))) * 16 +
      (← hexVal (hexChar (n / 16 % 16)))) * 16 + (← hexVal (hexChar (n % 16)))
    some (n, rest)) = _
  rw [hexVal_hexChar _ (by omega), hexVal_hexChar _ (by omega), hexVal_hexChar _ (by omega),
    hexVal_hexChar _ (by omega)]
  show some (_, rest) = _
  rw [hvalue]

theorem charOfCode_toNat (c : Char) : charOfCode c.toNat = c := by
  have hvalid : c.toNat.isValidChar := c.valid
  rw [charOfCode, if_pos hvalid, Char.ofNat_toNat]

/-- The pair that a code makes with the escape after it. -/
def surrogatePair (hi : Nat) (rest : Str) : Option (Nat × Str) :=
  (eat ['\\', 'u'] rest).bind fun t => (hex4 t).bind fun lo =>
    if 0xD800 ≤ hi ∧ hi < 0xDC00 ∧ 0xDC00 ≤ lo.1 ∧ lo.1 < 0xE000 then
      some (0x10000 + (hi - 0xD800) * 0x400 + (lo.1 - 0xDC00), lo.2)
    else none

/-- An escape is read with the one after it, or alone. -/
theorem scanString_code {n : Nat} (hn : n < 0x10000) (fuel : Nat) (rest : Str) :
    scanString (fuel + 1) (unicodeEscape n ++ rest) =
      (scanString fuel ((surrogatePair n rest).getD (n, rest)).2).map fun r =>
        (charOfCode ((surrogatePair n rest).getD (n, rest)).1 :: r.1, r.2) := by
  have hread : scanString (fuel + 1) (unicodeEscape n ++ rest) =
      (hex4 ([hexChar (n / 4096), hexChar (n / 256 % 16), hexChar (n / 16 % 16),
        hexChar (n % 16)] ++ rest)).bind fun hi =>
          (scanString fuel ((surrogatePair hi.1 hi.2).getD hi).2).bind fun r =>
            some (charOfCode ((surrogatePair hi.1 hi.2).getD hi).1 :: r.1, r.2) := rfl
  rw [hread, hex4_hexChars hn rest, Option.bind_some]
  cases scanString fuel ((surrogatePair n rest).getD (n, rest)).2 with
  | none => rfl
  | some r => rfl

/-- A code that does not begin a pair is read alone. -/
theorem scanString_unicode {n : Nat} (hn : n < 0x10000) (hpair : ¬ (0xD800 ≤ n ∧ n < 0xDC00))
    (fuel : Nat) (rest : Str) :
    scanString (fuel + 1) (unicodeEscape n ++ rest) =
      (scanString fuel rest).map fun r => (charOfCode n :: r.1, r.2) := by
  have hnone : surrogatePair n rest = none := by
    rw [surrogatePair]
    cases eat ['\\', 'u'] rest with
    | none => rfl
    | some t =>
        rw [Option.bind_some]
        cases hex4 t with
        | none => rfl
        | some lo => exact if_neg fun h => hpair ⟨h.1, h.2.1⟩
  rw [scanString_code hn, hnone, Option.getD_none]

/-- A pair is read as one character. -/
theorem scanString_pair {m : Nat} (hm : m < 0x100000) (fuel : Nat) (rest : Str) :
    scanString (fuel + 1)
        (unicodeEscape (0xD800 + m / 0x400) ++ unicodeEscape (0xDC00 + m % 0x400) ++ rest) =
      (scanString fuel rest).map fun r => (charOfCode (0x10000 + m) :: r.1, r.2) := by
  have hpair : surrogatePair (0xD800 + m / 0x400) (unicodeEscape (0xDC00 + m % 0x400) ++ rest) =
      some (0x10000 + m, rest) := by
    have hlo := hex4_hexChars (n := 0xDC00 + m % 0x400) (by omega) rest
    show (hex4 ([hexChar ((0xDC00 + m % 0x400) / 4096),
      hexChar ((0xDC00 + m % 0x400) / 256 % 16), hexChar ((0xDC00 + m % 0x400) / 16 % 16),
      hexChar ((0xDC00 + m % 0x400) % 16)] ++ rest)).bind _ = _
    rw [hlo, Option.bind_some, if_pos (by omega)]
    have hcode : 0x10000 + (0xD800 + m / 0x400 - 0xD800) * 0x400 + (0xDC00 + m % 0x400 - 0xDC00) =
        0x10000 + m := by omega
    rw [hcode]
  rw [List.append_assoc, scanString_code (by omega), hpair, Option.getD_some]

/-- A letter after a backslash. -/
theorem scanString_letter {e d : Char} (hd : escapeChar e = some d) (hu : e ≠ 'u') (fuel : Nat)
    (rest : Str) : scanString (fuel + 1) ('\\' :: e :: rest) =
      (scanString fuel rest).map fun r => (d :: r.1, r.2) := by
  rw [scanString, if_neg (by decide), if_neg (by decide), if_neg (by decide), hd]
  · show (scanString fuel rest).bind _ = _
    cases scanString fuel rest with
    | none => rfl
    | some r => rfl
  · exact hu

/-- A character of a string is read back. -/
theorem scanString_escape (c : Char) (fuel : Nat) (rest : Str) :
    scanString (fuel + 1) (escaped c ++ rest) =
      (scanString fuel rest).map fun r => (c :: r.1, r.2) := by
  unfold escaped
  split
  · rename_i h
    rw [h]
    exact scanString_letter rfl (by decide) fuel rest
  split
  · rename_i h
    rw [h]
    exact scanString_letter rfl (by decide) fuel rest
  split
  · rename_i h
    rw [h]
    exact scanString_letter rfl (by decide) fuel rest
  split
  · rename_i h
    rw [h]
    exact scanString_letter rfl (by decide) fuel rest
  split
  · rename_i h
    rw [h]
    exact scanString_letter rfl (by decide) fuel rest
  split
  · rename_i h
    rw [h]
    exact scanString_letter rfl (by decide) fuel rest
  split
  · rename_i h
    rw [h]
    exact scanString_letter rfl (by decide) fuel rest
  rename_i hquote hbackslash _ _ _ _ _
  split
  · rename_i hprint
    have hcontrol : ¬ c.toNat < 32 := by omega
    have hq : (c == '"') = false := beq_false_of_ne hquote
    have hb : (c != '\\') = true := bne_iff_ne.mpr hbackslash
    show scanString (fuel + 1) (c :: rest) = _
    rw [scanString.eq_def]
    dsimp only
    rw [hq, hb, if_neg Bool.false_ne_true, if_neg hcontrol, if_pos rfl]
    show (scanString fuel rest).bind _ = _
    cases scanString fuel rest with
    | none => rfl
    | some r => rfl
  split
  · rename_i hbmp
    have hpair : ¬ (0xD800 ≤ c.toNat ∧ c.toNat < 0xDC00) := by
      have hvalid : c.toNat.isValidChar := c.valid
      rcases hvalid with h | h
      · omega
      · omega
    rw [scanString_unicode hbmp hpair, charOfCode_toNat]
  · rename_i hbmp
    have hvalid : c.toNat < 0x110000 := by
      have hvalid : c.toNat.isValidChar := c.valid
      rcases hvalid with h | h
      · omega
      · omega
    have hcode : 0x10000 + (c.toNat - 0x10000) = c.toNat := by omega
    rw [scanString_pair (m := c.toNat - 0x10000) (by omega), hcode, charOfCode_toNat]

theorem escaped_ne_nil (c : Char) : 0 < (escaped c).length := by
  unfold escaped unicodeEscape
  repeat' split
  all_goals exact Nat.succ_pos _

/-- **A string literal** is read back, with enough fuel. -/
theorem scanString_escaped (s : Str) {fuel : Nat} (hfuel : (s.flatMap escaped).length < fuel)
    (rest : Str) : scanString fuel (s.flatMap escaped ++ '"' :: rest) = some (s, rest) := by
  induction s generalizing fuel with
  | nil =>
      cases fuel with
      | zero => exact absurd hfuel (Nat.not_lt_zero _)
      | succ fuel => rfl
  | cons c s ih =>
      rw [List.flatMap_cons, List.length_append] at hfuel
      have hpos := escaped_ne_nil c
      cases fuel with
      | zero => exact absurd hfuel (Nat.not_lt_zero _)
      | succ fuel =>
          rw [List.flatMap_cons, List.append_assoc, scanString_escape, ih (by omega)]
          rfl

/-! ## Integers -/

/-- What follows a value in a list or an object, or the end. -/
def Ends (rest : Str) : Prop := ∀ c, rest.head? = some c → c = ',' ∨ c = ']' ∨ c = '}'

/-- A number has no zero before its first digit. -/
theorem head?_strOfNat {n : Nat} (h : (strOfNat n).head? = some '0') : strOfNat n = ['0'] := by
  unfold strOfNat at h ⊢
  split at h
  · rename_i hn
    rw [if_pos hn]
  · rename_i hn
    have hne : Nat.digits 10 n ≠ [] := Nat.digits_ne_nil_iff_ne_zero.mpr hn
    rw [List.head?_map, List.head?_reverse, List.getLast?_eq_some_getLast hne,
      Option.map_some] at h
    have hlast := Nat.getLast_digit_ne_zero 10 hn
    have hlt : (Nat.digits 10 n).getLast hne < 10 :=
      Nat.digits_lt_base (by decide) (List.getLast_mem hne)
    have hzero : ∀ d < 10, digitChar d = '0' → d = 0 := by decide
    exact absurd (hzero _ hlt (Option.some.inj h)) hlast

theorem takeWhile_digits {ds rest : Str} (hds : ∀ c ∈ ds, isDigitJs c = true)
    (hrest : Ends rest) : (ds ++ rest).takeWhile isDigitJs = ds := by
  rw [List.takeWhile_append_of_pos hds]
  cases rest with
  | nil => exact List.append_nil ds
  | cons c rest =>
      have hc : isDigitJs c = false := by
        rcases hrest c rfl with rfl | rfl | rfl <;> rfl
      rw [List.takeWhile_cons_of_neg (by rw [hc]; exact Bool.false_ne_true), List.append_nil]

/-- The digits of a number, after its sign. -/
theorem scanNumber_digits {s rest : Str} {n : Nat} (negative : Bool)
    (hs : s = if negative then '-' :: (strOfNat n ++ rest) else strOfNat n ++ rest)
    (hfit : (strOfNat n).length ≤ maxStrDigits) (hrest : Ends rest) :
    scanNumber s = some (.int ((if negative then -1 else 1) * n), rest) := by
  have hdigits : ∀ c ∈ strOfNat n, isDigitJs c = true := fun c hc => js_of_mem_strOfNat hc
  have hne := strOfNat_ne_nil n
  have hhead : (s.head? == some '-') = negative := by
    cases negative with
    | true =>
        rw [hs]
        rfl
    | false =>
        obtain ⟨d, ds, hds⟩ := List.exists_cons_of_ne_nil hne
        have hd : isDigitJs d = true := hdigits d (by rw [hds]; exact List.mem_cons_self)
        have hminus : d ≠ '-' := fun heq => by
          rw [heq] at hd
          exact absurd hd (by decide)
        rw [hs, if_neg Bool.false_ne_true, hds]
        exact beq_false_of_ne fun heq => hminus (Option.some.inj heq)
  have hdrop : (if negative = true then s.drop 1 else s) = strOfNat n ++ rest := by
    rw [hs]
    cases negative <;> rfl
  have hvalue : natOfDigits (strOfNat n) = n := natOfDigits_strOfNat n
  have htake := takeWhile_digits hdigits hrest
  have hfit' : ¬ maxStrDigits < (strOfNat n).length := Nat.not_lt.mpr hfit
  unfold scanNumber
  by_cases hzero : (strOfNat n).head? = some '0'
  · have hone := head?_strOfNat hzero
    rw [hone] at hdrop htake hvalue
    have hread : natOfDigits ['0'] = 0 := rfl
    have hn : n = 0 := hvalue.symm.trans hread
    have hshort : ¬ maxStrDigits < 1 := by decide
    simp only [hhead, hdrop, htake, hn]
    cases rest with
    | nil => simp [hread, hshort]
    | cons c rest => rcases hrest c rfl with rfl | rfl | rfl <;> simp [hread, hshort]
  · have hbeq : ((strOfNat n).head? == some '0') = false := beq_false_of_ne hzero
    simp only [hhead, hdrop, htake, hbeq, hne, List.drop_left]
    cases rest with
    | nil => simp [hvalue, hfit']
    | cons c rest => rcases hrest c rfl with rfl | rfl | rfl <;> simp [hvalue, hfit']

/-- **An integer** is read back. -/
theorem scanNumber_strOfInt {n : Int} (hfit : (strOfNat n.natAbs).length ≤ maxStrDigits)
    {rest : Str} (hrest : Ends rest) : scanNumber (strOfInt n ++ rest) = some (.int n, rest) := by
  by_cases hn : n < 0
  · rw [scanNumber_digits true (by rw [strOfInt, if_pos hn]; rfl) hfit hrest]
    have hvalue : -1 * (n.natAbs : Int) = n := by omega
    rw [if_pos rfl, hvalue]
  · rw [scanNumber_digits false (by rw [strOfInt, if_neg hn]; rfl) hfit hrest]
    have hvalue : 1 * (n.natAbs : Int) = n := by omega
    rw [if_neg Bool.false_ne_true, hvalue]

/-! ## Values -/

/-- A number begins with a digit, or with a minus and a digit. -/
def StartsNumber (s : Str) : Prop :=
  ∃ c t, s = c :: t ∧ (isDigitJs c = true ∨ c = '-' ∧ ∃ d u, t = d :: u ∧ isDigitJs d = true)

/-- The text of a float is a number of ASCII characters that is read as the float. -/
structure ReadsBack (repr : ℚ → Str) (q : ℚ) : Prop where
  ascii : ∀ c ∈ repr q, c.toNat < 128
  starts : StartsNumber (repr q)
  scan : ∀ rest, Ends rest → scanNumber (repr q ++ rest) = some (.float (.fin q), rest)

mutual

/-- A value whose objects hold each key once, and the text of whose floats is read back. -/
def Readable (repr : ℚ → Str) : Json → Prop
  | float (.fin q) => ReadsBack repr q
  | list items => ReadableItems repr items
  | obj fields => (fields.map Prod.fst).Nodup ∧ ReadableFields repr fields
  | _ => True

def ReadableItems (repr : ℚ → Str) : List Json → Prop
  | [] => True
  | v :: items => Readable repr v ∧ ReadableItems repr items

def ReadableFields (repr : ℚ → Str) : List (Str × Json) → Prop
  | [] => True
  | (_, v) :: fields => Readable repr v ∧ ReadableFields repr fields

end

def isWs (c : Char) : Bool := c == ' ' || c == '\t' || c == '\n' || c == '\r'

theorem skipWs_cons {c : Char} (h : isWs c = false) (s : Str) : skipWs (c :: s) = c :: s :=
  List.dropWhile_cons_of_neg (by
    show ¬ isWs c = true
    rw [h]
    exact Bool.false_ne_true)

theorem eat_ne {a c : Char} (h : a ≠ c) (word s : Str) : eat (a :: word) (c :: s) = none := by
  have hprefix : (a :: word).isPrefixOf (c :: s) = false := by
    rw [List.isPrefixOf, beq_false_of_ne h, Bool.false_and]
  rw [eat, hprefix, if_neg Bool.false_ne_true]

theorem eat_second_ne {b d : Char} (h : b ≠ d) (a : Char) (word s : Str) :
    eat (a :: b :: word) (a :: d :: s) = none := by
  have hprefix : (a :: b :: word).isPrefixOf (a :: d :: s) = false := by
    rw [List.isPrefixOf, List.isPrefixOf, beq_false_of_ne h, Bool.false_and, Bool.and_false]
  rw [eat, hprefix, if_neg Bool.false_ne_true]

theorem infinity_toList : "Infinity".toList = ['I', 'n', 'f', 'i', 'n', 'i', 't', 'y'] := rfl

theorem minusInfinity_toList :
    "-Infinity".toList = ['-', 'I', 'n', 'f', 'i', 'n', 'i', 't', 'y'] := rfl

theorem digit_ne {c d : Char} (hc : isDigitJs c = true) (hd : isDigitJs d = false) : d ≠ c := by
  rintro rfl
  rw [hc] at hd
  cases hd

/-- What begins like a number is read as one. -/
theorem scanOnce_number {s : Str} (h : StartsNumber s) (fuel depth : Nat) (rest : Str) :
    scanOnce (fuel + 1) depth (s ++ rest) = scanNumber (s ++ rest) := by
  obtain ⟨c, t, rfl, hstart⟩ := h
  have hne : ∀ d ∈ ['"', '{', '[', 'n', 't', 'f', 'N', 'I'], d ≠ c := by
    intro d hd
    have hall : (['"', '{', '[', 'n', 't', 'f', 'N', 'I'].all fun d =>
        !isDigitJs d && d != '-') = true := by decide
    have hdigit := List.all_eq_true.mp hall d hd
    rw [Bool.and_eq_true, Bool.not_eq_true', bne_iff_ne] at hdigit
    rcases hstart with hc | ⟨rfl, -⟩
    · exact digit_ne hc hdigit.1
    · exact hdigit.2
  have hminus : eat ['-', 'I', 'n', 'f', 'i', 'n', 'i', 't', 'y'] (c :: (t ++ rest)) = none := by
    rcases hstart with hc | ⟨rfl, d, u, rfl, hd⟩
    · exact eat_ne (digit_ne hc (by decide)) _ _
    · exact eat_second_ne (digit_ne hd (by decide)) '-' _ _
  have hbeq : ∀ d ∈ ['"', '{', '['], (c == d) = false := fun d hd =>
    beq_false_of_ne fun heq => hne d (by simp only [List.mem_cons] at hd ⊢; tauto) heq.symm
  rw [List.cons_append, scanOnce.eq_def]
  dsimp only
  rw [infinity_toList, minusInfinity_toList, hbeq '"' (by simp), hbeq '{' (by simp),
    hbeq '[' (by simp), if_neg Bool.false_ne_true, if_neg Bool.false_ne_true,
    if_neg Bool.false_ne_true, eat_ne (hne 'n' (by simp)), eat_ne (hne 't' (by simp)),
    eat_ne (hne 'f' (by simp)), eat_ne (hne 'N' (by simp)), eat_ne (hne 'I' (by simp)), hminus]

theorem startsNumber_strOfInt (n : Int) : StartsNumber (strOfInt n) := by
  obtain ⟨d, ds, hds⟩ := List.exists_cons_of_ne_nil (strOfNat_ne_nil n.natAbs)
  have hd : isDigitJs d = true :=
    js_of_mem_strOfNat (n := n.natAbs) (by rw [hds]; exact List.mem_cons_self)
  unfold strOfInt
  split
  · exact ⟨'-', _, rfl, Or.inr ⟨rfl, d, ds, hds, hd⟩⟩
  · exact ⟨d, ds, hds, Or.inl hd⟩

theorem Ends.comma (rest : Str) : Ends (',' :: rest) := fun _ h =>
  Or.inl (Option.some.inj h).symm

theorem Ends.bracket (rest : Str) : Ends (']' :: rest) := fun _ h =>
  Or.inr (Or.inl (Option.some.inj h).symm)

theorem Ends.brace (rest : Str) : Ends ('}' :: rest) := fun _ h =>
  Or.inr (Or.inr (Option.some.inj h).symm)

/-- A value begins with no blank, and does not end a list. -/
theorem write_head {repr : ℚ → Str} {v : Json} (h : Readable repr v) :
    ∃ c s, write repr v = c :: s ∧ isWs c = false ∧ c ≠ ']' := by
  have hnumber : ∀ s, StartsNumber s → ∃ c t, s = c :: t ∧ isWs c = false ∧ c ≠ ']' := by
    rintro s ⟨c, t, rfl, hc | ⟨rfl, -⟩⟩
    · refine ⟨c, t, rfl, ?_, fun heq => ?_⟩
      · have hblank : ∀ d ∈ [' ', '\t', '\n', '\r'], (c == d) = false := fun d hd => by
          have hall : ([' ', '\t', '\n', '\r'].all fun d => !isDigitJs d) = true := by decide
          have hdigit := List.all_eq_true.mp hall d hd
          rw [Bool.not_eq_true'] at hdigit
          exact beq_false_of_ne fun heq => digit_ne hc hdigit heq.symm
        rw [isWs, hblank ' ' (by simp), hblank '\t' (by simp), hblank '\n' (by simp),
          hblank '\r' (by simp)]
        rfl
      · rw [heq] at hc
        exact absurd hc (by decide)
    · exact ⟨'-', t, rfl, by decide, by decide⟩
  cases v with
  | null => exact ⟨'n', _, rfl, by decide, by decide⟩
  | bool b =>
      cases b with
      | true => exact ⟨'t', _, rfl, by decide, by decide⟩
      | false => exact ⟨'f', _, rfl, by decide, by decide⟩
  | int n => exact hnumber _ (startsNumber_strOfInt n)
  | float x =>
      cases x with
      | fin q =>
          have hreads : ReadsBack repr q := h
          exact hnumber _ hreads.starts
      | nan => exact ⟨'N', _, rfl, by decide, by decide⟩
      | inf b =>
          cases b with
          | true => exact ⟨'-', _, rfl, by decide, by decide⟩
          | false => exact ⟨'I', _, rfl, by decide, by decide⟩
  | str s => exact ⟨'"', _, rfl, by decide, by decide⟩
  | list items => exact ⟨'[', _, rfl, by decide, by decide⟩
  | obj fields => exact ⟨'{', _, rfl, by decide, by decide⟩

theorem scanOnce_str (s : Str) {fuel depth : Nat} (hfuel : (quoted s).length < fuel) (rest : Str) :
    scanOnce fuel depth (quoted s ++ rest) = some (.str s, rest) := by
  cases fuel with
  | zero => exact absurd hfuel (Nat.not_lt_zero _)
  | succ fuel =>
      rw [quoted, List.length_cons, List.length_append] at hfuel
      have hscan : scanString fuel (s.flatMap escaped ++ '"' :: rest) = some (s, rest) :=
        scanString_escaped s (by omega) rest
      rw [quoted, List.cons_append, List.append_assoc, scanOnce.eq_def]
      dsimp only
      rw [if_pos (by decide), List.cons_append, List.nil_append, hscan]
      rfl

/-- A key, its colon, and what follows. -/
theorem scanKey (key : Str) {fuel : Nat} (hfuel : (key.flatMap escaped).length < fuel)
    (rest : Str) : (eat ['"'] (quoted key ++ ':' :: rest)).bind (scanString fuel) =
      some (key, ':' :: rest) := by
  have hscan := scanString_escaped key hfuel (':' :: rest)
  have heat : eat ['"'] (quoted key ++ ':' :: rest) =
      some (key.flatMap escaped ++ '"' :: ':' :: rest) := by
    rw [quoted, List.cons_append, List.append_assoc]
    rfl
  rw [heat]
  exact hscan

theorem insertField_new {fields : List (Str × Json)} {key : Str} {v : Json}
    (h : key ∉ fields.map Prod.fst) : insertField fields key v = fields ++ [(key, v)] := by
  have hany : (fields.any fun f => f.1 == key) = false := by
    refine List.any_eq_false.mpr fun f hf heq => h ?_
    rw [← beq_iff_eq.mp heq]
    exact List.mem_map_of_mem hf
  rw [insertField, hany, if_neg Bool.false_ne_true]

theorem key_new {acc fields : List (Str × Json)} {key : Str} {v : Json}
    (h : ((acc ++ (key, v) :: fields).map Prod.fst).Nodup) : key ∉ acc.map Prod.fst := by
  rw [List.map_append, List.map_cons] at h
  intro hmem
  exact (List.nodup_append.mp h).2.2 key hmem key List.mem_cons_self rfl

/-! ### One step of the decoder -/

theorem scanOnce_list {c : Char} (hws : isWs c = false) (hc : c ≠ ']') (fuel limit : Nat)
    (s : Str) : scanOnce (fuel + 1) (limit + 1) ('[' :: c :: s) = scanItems fuel limit [] (c :: s) := by
  rw [scanOnce.eq_def]
  dsimp only
  rw [if_neg (by decide), if_neg (by decide), if_pos (by decide), skipWs_cons hws]
  split
  · rename_i heq
    exact absurd (List.cons.inj heq).1 hc
  · rfl

theorem scanOnce_obj (fuel limit : Nat) (s : Str) :
    scanOnce (fuel + 1) (limit + 1) ('{' :: '"' :: s) = scanFields fuel limit [] ('"' :: s) := by
  rw [scanOnce.eq_def]
  dsimp only
  rw [if_neg (by decide), if_pos (by decide), skipWs_cons (by decide)]
  rfl

section Step

variable {fuel limit : Nat} {s t rest : Str} {v : Json}

theorem scanItems_last (acc : List Json) (h : scanOnce fuel limit s = some (v, ']' :: rest)) :
    scanItems (fuel + 1) limit acc s = some (.list (acc ++ [v]), rest) := by
  have hend : skipWs (']' :: rest) = ']' :: rest := skipWs_cons (by decide) rest
  rw [scanItems, h]
  simp only [Option.bind_eq_bind, Option.bind_some, hend]

theorem scanItems_next (acc : List Json) (h : scanOnce fuel limit s = some (v, ',' :: t))
    (ht : skipWs t = t) :
    scanItems (fuel + 1) limit acc s = scanItems fuel limit (acc ++ [v]) t := by
  have hcomma : skipWs (',' :: t) = ',' :: t := skipWs_cons (by decide) t
  rw [scanItems, h]
  simp only [Option.bind_eq_bind, Option.bind_some, hcomma, ht]

variable {key : Str} {acc : List (Str × Json)}

theorem scanFields_key (hkey : (eat ['"'] s).bind (scanString fuel) = some (key, ':' :: t))
    (ht : skipWs t = t) :
    scanFields (fuel + 1) limit acc s = (scanOnce fuel limit t).bind fun r =>
      match skipWs r.2 with
      | ',' :: s => scanFields fuel limit (insertField acc key r.1) (skipWs s)
      | '}' :: s => some (.obj (insertField acc key r.1), s)
      | _ => none := by
  obtain ⟨u, hu, hscan⟩ := Option.bind_eq_some_iff.mp hkey
  have hcolon : skipWs (':' :: t) = ':' :: t := skipWs_cons (by decide) t
  have heat : eat [':'] (':' :: t) = some t := rfl
  rw [scanFields, hu]
  cases hvalue : scanOnce fuel limit t with
  | none =>
      simp only [Option.bind_eq_bind, Option.bind_some, Option.bind_none, hscan, hcolon, heat, ht,
        hvalue]
  | some r =>
      simp only [Option.bind_eq_bind, Option.bind_some, hscan, hcolon, heat, ht, hvalue] <;> rfl

theorem scanFields_last (hkey : (eat ['"'] s).bind (scanString fuel) = some (key, ':' :: t))
    (ht : skipWs t = t) (hnew : key ∉ acc.map Prod.fst)
    (h : scanOnce fuel limit t = some (v, '}' :: rest)) :
    scanFields (fuel + 1) limit acc s = some (.obj (acc ++ [(key, v)]), rest) := by
  have hend : skipWs ('}' :: rest) = '}' :: rest := skipWs_cons (by decide) rest
  rw [scanFields_key hkey ht, h]
  simp only [Option.bind_some, hend, insertField_new hnew]

theorem scanFields_next {u : Str}
    (hkey : (eat ['"'] s).bind (scanString fuel) = some (key, ':' :: t))
    (ht : skipWs t = t) (hnew : key ∉ acc.map Prod.fst)
    (h : scanOnce fuel limit t = some (v, ',' :: u)) (hu : skipWs u = u) :
    scanFields (fuel + 1) limit acc s = scanFields fuel limit (acc ++ [(key, v)]) u := by
  have hcomma : skipWs (',' :: u) = ',' :: u := skipWs_cons (by decide) u
  rw [scanFields_key hkey ht, h]
  simp only [Option.bind_some, hcomma, insertField_new hnew, hu]

end Step

/-- The text of a value begins with no blank. -/
theorem skipWs_write {repr : ℚ → Str} {v : Json} (h : Readable repr v) (rest : Str) :
    skipWs (write repr v ++ rest) = write repr v ++ rest := by
  obtain ⟨c, s, hwrite, hws, -⟩ := write_head h
  rw [hwrite, List.cons_append]
  exact skipWs_cons hws _

/-- The same of the items of a list. -/
theorem writeItems_head {repr : ℚ → Str} {v : Json} {items : List Json}
    (h : ReadableItems repr (v :: items)) :
    ∃ c s, writeItems repr (v :: items) = c :: s ∧ isWs c = false ∧ c ≠ ']' := by
  obtain ⟨c, s, hwrite, hws, hc⟩ := write_head h.1
  cases items with
  | nil => exact ⟨c, s, hwrite, hws, hc⟩
  | cons w items => exact ⟨c, _, by rw [writeItems, hwrite]; rfl, hws, hc⟩

/-- The fields of an object begin with a quote. -/
theorem writeFields_head (repr : ℚ → Str) (f : Str × Json) (fields : List (Str × Json)) :
    ∃ s, writeFields repr (f :: fields) = '"' :: s := by
  cases fields with
  | nil => exact ⟨_, rfl⟩
  | cons g fields => exact ⟨_, rfl⟩

section Write

variable {repr : ℚ → Str}

mutual

/-- **A value** is read back, whatever follows it. -/
theorem scan_write : ∀ (v : Json), Readable repr v → intsFit v = true →
    ∀ {fuel limit : Nat} {rest : Str},
    (write repr v).length < fuel → depth v ≤ limit → Ends rest →
    scanOnce fuel limit (write repr v ++ rest) = some (v, rest)
  | _, _, _, 0, _, _, hfuel, _, _ => absurd hfuel (Nat.not_lt_zero _)
  | .null, _, _, _ + 1, _, _, _, _, _ => rfl
  | .bool true, _, _, _ + 1, _, _, _, _, _ => rfl
  | .bool false, _, _, _ + 1, _, _, _, _, _ => rfl
  | .float .nan, _, _, _ + 1, _, _, _, _, _ => rfl
  | .float (.inf false), _, _, _ + 1, _, _, _, _, _ => rfl
  | .float (.inf true), _, _, _ + 1, _, _, _, _, _ => rfl
  | .float (.fin q), h, _, fuel + 1, limit, rest, _, _, hrest => by
      have hreads : ReadsBack repr q := h
      show scanOnce (fuel + 1) limit (repr q ++ rest) = _
      rw [scanOnce_number hreads.starts, hreads.scan rest hrest]
  | .int n, _, hints, fuel + 1, limit, rest, _, _, hrest => by
      have hfit : (strOfNat n.natAbs).length ≤ maxStrDigits := of_decide_eq_true hints
      show scanOnce (fuel + 1) limit (strOfInt n ++ rest) = _
      rw [scanOnce_number (startsNumber_strOfInt n), scanNumber_strOfInt hfit hrest]
  | .str s, _, _, fuel + 1, limit, rest, hfuel, _, _ => scanOnce_str s hfuel rest
  | .list [], _, _, fuel + 1, limit, rest, _, hdepth, _ => by
      cases limit with
      | zero => exact absurd hdepth (by rw [depth]; omega)
      | succ limit => rfl
  | .list (v :: items), h, hints, fuel + 1, limit, rest, hfuel, hdepth, _ => by
      have hfit : intsFitItems (v :: items) = true := hints
      have hitems : ReadableItems repr (v :: items) := h
      cases limit with
      | zero => exact absurd hdepth (by rw [depth]; omega)
      | succ limit =>
          rw [write, List.length_cons, List.length_append] at hfuel
          rw [depth] at hdepth
          have hscan : scanItems fuel limit [] (writeItems repr (v :: items) ++ ']' :: rest) =
              some (.list ([] ++ v :: items), rest) :=
            scan_items (v :: items) (List.cons_ne_nil v items) hitems hfit
              (by rw [List.length_singleton] at hfuel; omega) (by omega)
          obtain ⟨c, s, hwrite, hws, hc⟩ := writeItems_head hitems
          rw [write, List.cons_append, List.append_assoc, List.singleton_append, hwrite,
            List.cons_append, scanOnce_list hws hc, ← List.cons_append, ← hwrite, hscan]
          rfl
  | .obj [], _, _, fuel + 1, limit, rest, _, hdepth, _ => by
      cases limit with
      | zero => exact absurd hdepth (by rw [depth]; omega)
      | succ limit => rfl
  | .obj (f :: fields), h, hints, fuel + 1, limit, rest, hfuel, hdepth, _ => by
      have hfit : intsFitFields (f :: fields) = true := hints
      have hfields : ((f :: fields).map Prod.fst).Nodup ∧ ReadableFields repr (f :: fields) := h
      cases limit with
      | zero => exact absurd hdepth (by rw [depth]; omega)
      | succ limit =>
          rw [write, List.length_cons, List.length_append] at hfuel
          rw [depth] at hdepth
          have hscan : scanFields fuel limit [] (writeFields repr (f :: fields) ++ '}' :: rest) =
              some (.obj ([] ++ f :: fields), rest) :=
            scan_fields (f :: fields) (List.cons_ne_nil f fields) hfields.2 hfit hfields.1
              (by rw [List.length_singleton] at hfuel; omega) (by omega)
          obtain ⟨s, hwrite⟩ := writeFields_head repr f fields
          rw [write, List.cons_append, List.append_assoc, List.singleton_append, hwrite,
            List.cons_append, scanOnce_obj, ← List.cons_append, ← hwrite, hscan]
          rfl

theorem scan_items : ∀ (items : List Json), items ≠ [] → ReadableItems repr items →
    intsFitItems items = true → ∀ {fuel limit : Nat} {acc : List Json} {rest : Str},
    (writeItems repr items).length + 1 < fuel → depthItems items ≤ limit →
    scanItems fuel limit acc (writeItems repr items ++ ']' :: rest) =
      some (.list (acc ++ items), rest)
  | [], hne, _, _, _, _, _, _, _, _ => absurd rfl hne
  | _ :: _, _, _, _, 0, _, _, _, hfuel, _ => absurd hfuel (Nat.not_lt_zero _)
  | [v], _, h, hints, fuel + 1, limit, acc, rest, hfuel, hdepth => by
      rw [depthItems, depthItems] at hdepth
      rw [writeItems] at hfuel ⊢
      rw [intsFitItems, Bool.and_eq_true] at hints
      exact scanItems_last acc (scan_write v h.1 hints.1 (by omega) (by omega) (Ends.bracket rest))
  | v :: w :: items, _, h, hints, fuel + 1, limit, acc, rest, hfuel, hdepth => by
      rw [depthItems] at hdepth
      rw [intsFitItems, Bool.and_eq_true] at hints
      rw [writeItems, List.length_append, List.length_cons] at hfuel
      have hvalue : scanOnce fuel limit
          (write repr v ++ ',' :: (writeItems repr (w :: items) ++ ']' :: rest)) =
          some (v, ',' :: (writeItems repr (w :: items) ++ ']' :: rest)) :=
        scan_write v h.1 hints.1 (by omega) (by omega) (Ends.comma _)
      have hrest : scanItems fuel limit (acc ++ [v]) (writeItems repr (w :: items) ++ ']' :: rest) =
          some (.list (acc ++ [v] ++ w :: items), rest) :=
        scan_items (w :: items) (List.cons_ne_nil w items) h.2 hints.2 (by omega) (by omega)
      have hskip : skipWs (writeItems repr (w :: items) ++ ']' :: rest) =
          writeItems repr (w :: items) ++ ']' :: rest := by
        obtain ⟨c, s, hwrite, hws, -⟩ := writeItems_head h.2
        rw [hwrite, List.cons_append]
        exact skipWs_cons hws _
      rw [writeItems, List.append_assoc, List.cons_append, scanItems_next acc hvalue hskip, hrest,
        List.append_assoc]
      rfl

theorem scan_fields : ∀ (fields : List (Str × Json)), fields ≠ [] → ReadableFields repr fields →
    intsFitFields fields = true → ∀ {fuel limit : Nat} {acc : List (Str × Json)} {rest : Str},
    ((acc ++ fields).map Prod.fst).Nodup →
    (writeFields repr fields).length + 1 < fuel → depthFields fields ≤ limit →
    scanFields fuel limit acc (writeFields repr fields ++ '}' :: rest) =
      some (.obj (acc ++ fields), rest)
  | [], hne, _, _, _, _, _, _, _, _, _ => absurd rfl hne
  | _ :: _, _, _, _, 0, _, _, _, _, hfuel, _ => absurd hfuel (Nat.not_lt_zero _)
  | [(key, v)], _, h, hints, fuel + 1, limit, acc, rest, hkeys, hfuel, hdepth => by
      rw [intsFitFields, Bool.and_eq_true] at hints
      have hnew : key ∉ acc.map Prod.fst := key_new hkeys
      rw [depthFields, depthFields] at hdepth
      rw [writeFields, List.length_append, List.length_cons, quoted, List.length_cons,
        List.length_append] at hfuel
      have hlength : (key.flatMap escaped).length < fuel := by omega
      have hkey := scanKey key hlength (write repr v ++ '}' :: rest)
      have hvalue : scanOnce fuel limit (write repr v ++ '}' :: rest) = some (v, '}' :: rest) :=
        scan_write v h.1 hints.1 (by omega) (by omega) (Ends.brace rest)
      rw [writeFields, List.append_assoc, List.cons_append]
      exact scanFields_last hkey (skipWs_write h.1 _) hnew hvalue
  | (key, v) :: f :: fields, _, h, hints, fuel + 1, limit, acc, rest, hkeys, hfuel, hdepth => by
      rw [intsFitFields, Bool.and_eq_true] at hints
      have hnew : key ∉ acc.map Prod.fst := key_new hkeys
      rw [depthFields] at hdepth
      rw [writeFields, quoted] at hfuel
      simp only [List.length_append, List.length_cons, List.length_nil] at hfuel
      have hlength : (key.flatMap escaped).length < fuel := by omega
      have hkey := scanKey key hlength
        (write repr v ++ ',' :: (writeFields repr (f :: fields) ++ '}' :: rest))
      have hvalue : scanOnce fuel limit
          (write repr v ++ ',' :: (writeFields repr (f :: fields) ++ '}' :: rest)) =
          some (v, ',' :: (writeFields repr (f :: fields) ++ '}' :: rest)) :=
        scan_write v h.1 hints.1 (by omega) (by omega) (Ends.comma _)
      have hrest : scanFields fuel limit (acc ++ [(key, v)])
          (writeFields repr (f :: fields) ++ '}' :: rest) =
          some (.obj (acc ++ [(key, v)] ++ f :: fields), rest) :=
        scan_fields (f :: fields) (List.cons_ne_nil f fields) h.2 hints.2
          (by rw [List.append_assoc]; exact hkeys) (by omega) (by omega)
      have hskip : skipWs (writeFields repr (f :: fields) ++ '}' :: rest) =
          writeFields repr (f :: fields) ++ '}' :: rest := by
        obtain ⟨s, hwrite⟩ := writeFields_head repr f fields
        rw [hwrite, List.cons_append]
        exact skipWs_cons (by decide) _
      rw [writeFields, List.append_assoc, List.cons_append, List.append_assoc, List.cons_append,
        scanFields_next hkey (skipWs_write h.1 _) hnew hvalue hskip, hrest, List.append_assoc]
      rfl

end

end Write

end MesReunions.Json
