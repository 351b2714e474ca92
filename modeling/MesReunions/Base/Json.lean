import MesReunions.Base.Num

/-!
# JSON as `json.loads` reads it

`loads` takes the raw bytes of a message: it guesses the encoding as
`json.detect_encoding` does, decodes, and runs the standard decoder (which also
accepts `NaN`, `Infinity` and `-Infinity`, keeps the last of two equal keys, and
refuses control characters inside strings). `none` stands for any exception:
undecodable bytes, a syntax error, an integer literal past the digit limit, or
nesting past the recursion limit.
-/

namespace MesReunions

abbrev Bytes := List UInt8

/-- A decoded JSON value. -/
inductive Json where
  | null
  | bool (b : Bool)
  | int (n : Int)
  | float (x : PyFloat)
  | str (s : Str)
  | list (items : List Json)
  | obj (fields : List (Str × Json))

namespace Json

/-- `isinstance(v, dict)` -/
def isObj : Json → Bool
  | obj _ => true
  | _ => false

/-- `d.get(key)` on the fields of an object. -/
def get? (fields : List (Str × Json)) (key : Str) : Option Json :=
  (fields.find? fun f => f.1 == key).map (·.2)

/-- `bool(v)` -/
def truthy : Json → Bool
  | null => false
  | bool b => b
  | int n => n != 0
  | float (.fin q) => q != 0
  | float _ => true
  | str s => s != []
  | list items => !items.isEmpty
  | obj fields => !fields.isEmpty

/-! ## Bytes to text -/

/-- A code point as a character; a lone surrogate, which no `Char` is, becomes
U+FFFD. -/
def charOfCode (n : Nat) : Char := if n.isValidChar then Char.ofNat n else '\uFFFD'

/-- UTF-8 with `surrogatepass`. `need` continuation octets are owed to a
sequence that must encode at least `least`; `acc` holds its bits so far. -/
def decodeUtf8 : (need acc least : Nat) → Bytes → Option (List Nat)
  | need, _, _, [] => if need = 0 then some [] else none
  | 0, _, _, b :: rest =>
      let n := b.toNat
      if n < 0x80 then (n :: ·) <$> decodeUtf8 0 0 0 rest
      else if 0xC2 ≤ n ∧ n ≤ 0xDF then decodeUtf8 1 (n - 0xC0) 0x80 rest
      else if 0xE0 ≤ n ∧ n ≤ 0xEF then decodeUtf8 2 (n - 0xE0) 0x800 rest
      else if 0xF0 ≤ n ∧ n ≤ 0xF4 then decodeUtf8 3 (n - 0xF0) 0x10000 rest
      else none
  | need + 1, acc, least, b :: rest =>
      let n := b.toNat
      let acc' := acc * 64 + (n - 0x80)
      if ¬ (0x80 ≤ n ∧ n ≤ 0xBF) then none
      else if need ≠ 0 then decodeUtf8 need acc' least rest
      else if least ≤ acc' ∧ acc' < 0x110000 then (acc' :: ·) <$> decodeUtf8 0 0 0 rest
      else none

/-- Big-endian or little-endian units of `size` octets; `none` on a cut unit. -/
def units (bigEndian : Bool) (size : Nat) (pending : List Nat) : Bytes → Option (List Nat)
  | [] => if pending = [] then some [] else none
  | b :: rest =>
      let unit := pending ++ [b.toNat]
      if unit.length < size then units bigEndian size unit rest
      else
        let value := (if bigEndian then unit else unit.reverse).foldl (· * 256 + ·) 0
        (value :: ·) <$> units bigEndian size [] rest

/-- Surrogate pairs of UTF-16 units joined. -/
def joinPairs : List Nat → List Nat
  | hi :: lo :: rest =>
      if 0xD800 ≤ hi ∧ hi < 0xDC00 ∧ 0xDC00 ≤ lo ∧ lo < 0xE000 then
        (0x10000 + (hi - 0xD800) * 0x400 + (lo - 0xDC00)) :: joinPairs rest
      else hi :: joinPairs (lo :: rest)
  | short => short

def decodeUtf16 (bigEndian : Bool) (b : Bytes) : Option (List Nat) :=
  joinPairs <$> units bigEndian 2 [] b

def decodeUtf32 (bigEndian : Bool) (b : Bytes) : Option (List Nat) := do
  let codes ← units bigEndian 4 [] b
  if codes.all (· < 0x110000) then some codes else none

/-- `json.detect_encoding` and the decoder it names. -/
def decodeBytes (b : Bytes) : Option (List Nat) :=
  match b with
  | 0x00 :: 0x00 :: 0xFE :: 0xFF :: rest => decodeUtf32 true rest
  | 0xFF :: 0xFE :: 0x00 :: 0x00 :: rest => decodeUtf32 false rest
  | 0xFE :: 0xFF :: rest => decodeUtf16 true rest
  | 0xFF :: 0xFE :: rest => decodeUtf16 false rest
  | 0xEF :: 0xBB :: 0xBF :: rest => decodeUtf8 0 0 0 rest
  | b0 :: b1 :: b2 :: b3 :: _ =>
      if b0 = 0 then (if b1 ≠ 0 then decodeUtf16 true b else decodeUtf32 true b)
      else if b1 = 0 then
        (if b2 ≠ 0 ∨ b3 ≠ 0 then decodeUtf16 false b else decodeUtf32 false b)
      else decodeUtf8 0 0 0 b
  | [b0, b1] =>
      if b0 = 0 then decodeUtf16 true b
      else if b1 = 0 then decodeUtf16 false b
      else decodeUtf8 0 0 0 b
  | _ => decodeUtf8 0 0 0 b

/-! ## The decoder -/

def skipWs (s : Str) : Str :=
  s.dropWhile fun c => c == ' ' || c == '\t' || c == '\n' || c == '\r'

/-- `s` without the prefix `word`. -/
def eat (word s : Str) : Option Str :=
  if word.isPrefixOf s then some (s.drop word.length) else none

def hexVal (c : Char) : Option Nat :=
  let n := c.toNat
  if 48 ≤ n ∧ n ≤ 57 then some (n - 48)
  else if 65 ≤ n ∧ n ≤ 70 then some (n - 55)
  else if 97 ≤ n ∧ n ≤ 102 then some (n - 87)
  else none

/-- The four hexadecimal digits of a `\u` escape. -/
def hex4 (s : Str) : Option (Nat × Str) :=
  match s with
  | a :: b :: c :: d :: rest => do
      let n := (((← hexVal a) * 16 + (← hexVal b)) * 16 + (← hexVal c)) * 16 + (← hexVal d)
      some (n, rest)
  | _ => none

def escapeChar : Char → Option Char
  | '"' => some '"'
  | '\\' => some '\\'
  | '/' => some '/'
  | 'b' => some '\x08'
  | 'f' => some '\x0C'
  | 'n' => some '\n'
  | 'r' => some '\r'
  | 't' => some '\t'
  | _ => none

/-- A string literal after its opening quote: its value and what follows. -/
def scanString : (fuel : Nat) → Str → Option (Str × Str)
  | 0, _ => none
  | _ + 1, [] => none
  | fuel + 1, c :: rest =>
      if c == '"' then some ([], rest)
      else if c.toNat < 32 then none
      else if c != '\\' then do
        let (s, rest) ← scanString fuel rest
        some (c :: s, rest)
      else match rest with
        | 'u' :: rest => do
            let (hi, rest) ← hex4 rest
            let pair : Option (Nat × Str) := do
              let rest ← eat ['\\', 'u'] rest
              let (lo, rest) ← hex4 rest
              if 0xD800 ≤ hi ∧ hi < 0xDC00 ∧ 0xDC00 ≤ lo ∧ lo < 0xE000 then
                some (0x10000 + (hi - 0xD800) * 0x400 + (lo - 0xDC00), rest)
              else none
            let (code, rest) := pair.getD (hi, rest)
            let (s, rest) ← scanString fuel rest
            some (charOfCode code :: s, rest)
        | e :: rest => do
            let e ← escapeChar e
            let (s, rest) ← scanString fuel rest
            some (e :: s, rest)
        | [] => none

/-- `-?(0|[1-9]\d*)(\.\d+)?([eE][-+]?\d+)?` with ASCII digits. -/
def scanNumber (s : Str) : Option (Json × Str) := do
  let negative := s.head? == some '-'
  let s := if negative then s.drop 1 else s
  let sign : Int := if negative then -1 else 1
  let run := s.takeWhile Str.isDigitJs
  let whole ← if run.head? == some '0' then some ['0'] else if run = [] then none else some run
  let s := s.drop whole.length
  let (frac, s) := match s with
    | '.' :: t =>
        let ds := t.takeWhile Str.isDigitJs
        if ds = [] then ([], s) else (ds, t.drop ds.length)
    | _ => ([], s)
  let (exp, s) : Option Int × Str := match s with
    | e :: t =>
        if e == 'e' || e == 'E' then
          let (esign, t) : Int × Str := match t with
            | '-' :: u => (-1, u)
            | '+' :: u => (1, u)
            | u => (1, u)
          let ds := t.takeWhile Str.isDigitJs
          if ds = [] then (none, s)
          else (some (esign * Str.natOfDigits ds), t.drop ds.length)
        else (none, s)
    | [] => (none, s)
  if frac = [] ∧ exp = none then
    if maxStrDigits < whole.length then none
    else some (.int (sign * Str.natOfDigits whole), s)
  else
    let mantissa : ℚ := sign * Str.natOfDigits (whole ++ frac)
    some (.float (.ofRat (mantissa * (10 : ℚ) ^ (exp.getD 0 - frac.length))), s)

/-- Setting a key of a dict keeps its place when it is already there. -/
def insertField (fields : List (Str × Json)) (key : Str) (v : Json) : List (Str × Json) :=
  if fields.any (fun f => f.1 == key) then
    fields.map fun f => if f.1 == key then (key, v) else f
  else fields ++ [(key, v)]

/- `depth` is what is left of the recursion limit; `fuel` only bounds the number
of calls, and one more than the length of the text is always enough. -/
mutual

/-- One value at the start of the text. -/
def scanOnce : (fuel depth : Nat) → Str → Option (Json × Str)
  | 0, _, _ => none
  | _ + 1, _, [] => none
  | fuel + 1, depth, c :: rest =>
      if c == '"' then do
        let (s, rest) ← scanString fuel rest
        some (.str s, rest)
      else if c == '{' then
        match depth with
        | 0 => none
        | depth + 1 =>
            match skipWs rest with
            | '}' :: rest => some (.obj [], rest)
            | rest => scanFields fuel depth [] rest
      else if c == '[' then
        match depth with
        | 0 => none
        | depth + 1 =>
            match skipWs rest with
            | ']' :: rest => some (.list [], rest)
            | rest => scanItems fuel depth [] rest
      else if let some t := eat ['n', 'u', 'l', 'l'] (c :: rest) then some (.null, t)
      else if let some t := eat ['t', 'r', 'u', 'e'] (c :: rest) then some (.bool true, t)
      else if let some t := eat ['f', 'a', 'l', 's', 'e'] (c :: rest) then some (.bool false, t)
      else if let some t := eat ['N', 'a', 'N'] (c :: rest) then some (.float .nan, t)
      else if let some t := eat "Infinity".toList (c :: rest) then some (.float (.inf false), t)
      else if let some t := eat "-Infinity".toList (c :: rest) then some (.float (.inf true), t)
      else scanNumber (c :: rest)

/-- The members of an object, from the quote of a key on. -/
def scanFields : (fuel depth : Nat) → List (Str × Json) → Str → Option (Json × Str)
  | 0, _, _, _ => none
  | fuel + 1, depth, fields, s => do
      let s ← eat ['"'] s
      let (key, s) ← scanString fuel s
      let s ← eat [':'] (skipWs s)
      let (v, s) ← scanOnce fuel depth (skipWs s)
      let fields := insertField fields key v
      match skipWs s with
      | ',' :: s => scanFields fuel depth fields (skipWs s)
      | '}' :: s => some (.obj fields, s)
      | _ => none

/-- The elements of an array, from the start of one on. -/
def scanItems : (fuel depth : Nat) → List Json → Str → Option (Json × Str)
  | 0, _, _, _ => none
  | fuel + 1, depth, items, s => do
      let (v, s) ← scanOnce fuel depth s
      let items := items ++ [v]
      match skipWs s with
      | ',' :: s => scanItems fuel depth items (skipWs s)
      | ']' :: s => some (.list items, s)
      | _ => none

end

/-- `json.loads(b)` under a recursion limit. -/
def loads (limit : Nat) (b : Bytes) : Option Json := do
  let codes ← decodeBytes b
  let s := skipWs (codes.map charOfCode)
  let (v, rest) ← scanOnce (s.length + 1) limit s
  if skipWs rest = [] then some v else none

end Json

end MesReunions
