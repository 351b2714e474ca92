import MesReunions.Base.Json

/-!
# Base64 with the URL alphabet

`base64.urlsafe_b64encode` and `base64.urlsafe_b64decode`, on the characters of a text. The decoder is
the lenient one: characters outside of the alphabet are passed over, `+` and `/` are read too, and
nothing is read after the padding.

* `encode`, `decode` — the two functions.
* `stripped` — the text without its padding, and `padded`, with the padding that its length asks for.
* **`decode_encode`** — what is encoded is decoded.
* **`decode_padded`** — also when the padding was removed and put back.
-/

namespace MesReunions.Base64

/-! ## The alphabet -/

/-- The character of six bits. -/
def symbol (v : Nat) : Char :=
  if v < 26 then Char.ofNat (65 + v)
  else if v < 52 then Char.ofNat (71 + v)
  else if v < 62 then Char.ofNat (v - 4)
  else if v = 62 then '-'
  else '_'

/-- The bits of a character, once `-_` are translated to `+/`. -/
def value (c : Char) : Option Nat :=
  let n := c.toNat
  if 65 ≤ n ∧ n ≤ 90 then some (n - 65)
  else if 97 ≤ n ∧ n ≤ 122 then some (n - 71)
  else if 48 ≤ n ∧ n ≤ 57 then some (n + 4)
  else if c = '+' ∨ c = '-' then some 62
  else if c = '/' ∨ c = '_' then some 63
  else none

theorem value_symbol : ∀ v < 64, value (symbol v) = some v := by decide

theorem symbol_ne_pad : ∀ v < 64, symbol v ≠ '=' := by decide

theorem symbol_ne_dot : ∀ v < 64, symbol v ≠ '.' := by decide

theorem ascii_symbol : ∀ v < 64, (symbol v).toNat < 128 := by decide

/-! ## Encoding -/

/-- Groups of three bytes; the last one is padded. -/
def encode : Bytes → Str
  | [] => []
  | [a] => [symbol (a.toNat / 4), symbol (a.toNat % 4 * 16), '=', '=']
  | [a, b] =>
      [symbol (a.toNat / 4), symbol (a.toNat % 4 * 16 + b.toNat / 16), symbol (b.toNat % 16 * 4),
        '=']
  | a :: b :: c :: rest =>
      symbol (a.toNat / 4) :: symbol (a.toNat % 4 * 16 + b.toNat / 16) ::
        symbol (b.toNat % 16 * 4 + c.toNat / 64) :: symbol (c.toNat % 64) :: encode rest

/-- `.rstrip("=")` -/
def stripped (s : Str) : Str := s.rdropWhile (· == '=')

/-- `s + "=" * (-len(s) % 4)` -/
def padded (s : Str) : Str := s ++ List.replicate ((4 - s.length % 4) % 4) '='

/-! ## Decoding -/

/-- `binascii.a2b_base64`: `quad` characters of a group were read, `left` are the bits that are left
of them, and `pads` padding characters followed. -/
def scan : (quad left pads : Nat) → Str → Option Bytes
  | quad, _, _, [] => if quad = 0 then some [] else none
  | quad, left, pads, c :: rest =>
      if c = '=' then
        if 2 ≤ quad then
          if 4 ≤ quad + (pads + 1) then some [] else scan quad left (pads + 1) rest
        else scan quad left pads rest
      else
        match value c with
        | none => scan quad left pads rest
        | some v =>
            match quad with
            | 0 => scan 1 v 0 rest
            | 1 => (scan 2 (v % 16) 0 rest).map (UInt8.ofNat (left * 4 + v / 16) :: ·)
            | 2 => (scan 3 (v % 4) 0 rest).map (UInt8.ofNat (left * 16 + v / 4) :: ·)
            | _ => (scan 0 0 0 rest).map (UInt8.ofNat (left * 64 + v) :: ·)

/-- `base64.urlsafe_b64decode(s)`; a character that is not ASCII is an error. -/
def decode (s : Str) : Option Bytes :=
  if (s.all fun c => c.toNat < 128) = true then scan 0 0 0 s else none

/-! ## What is encoded is decoded -/

section Group

variable {v : Nat} (hv : v < 64) (left pads : Nat) (rest : Str)

include hv

/-- The four characters of a group. -/
theorem scan_first : scan 0 left pads (symbol v :: rest) = scan 1 v 0 rest := by
  rw [scan, if_neg (symbol_ne_pad v hv), value_symbol v hv]
  rfl

theorem scan_second : scan 1 left pads (symbol v :: rest) =
    (scan 2 (v % 16) 0 rest).map (UInt8.ofNat (left * 4 + v / 16) :: ·) := by
  rw [scan, if_neg (symbol_ne_pad v hv), value_symbol v hv]
  rfl

theorem scan_third : scan 2 left pads (symbol v :: rest) =
    (scan 3 (v % 4) 0 rest).map (UInt8.ofNat (left * 16 + v / 4) :: ·) := by
  rw [scan, if_neg (symbol_ne_pad v hv), value_symbol v hv]
  rfl

theorem scan_fourth : scan 3 left pads (symbol v :: rest) =
    (scan 0 0 0 rest).map (UInt8.ofNat (left * 64 + v) :: ·) := by
  rw [scan, if_neg (symbol_ne_pad v hv), value_symbol v hv]
  rfl

end Group

theorem byte_eq {a : UInt8} {n : Nat} (h : n = a.toNat) : UInt8.ofNat n = a := by
  rw [h]
  exact UInt8.ofNat_toNat

theorem scan_encode (data : Bytes) : scan 0 0 0 (encode data) = some data := by
  induction data using encode.induct with
  | case1 => rfl
  | case2 a =>
      have ha := a.toNat_lt
      rw [encode, scan_first (by omega), scan_second (by omega), byte_eq (a := a) (by omega)]
      rfl
  | case3 a b =>
      have ha := a.toNat_lt
      have hb := b.toNat_lt
      rw [encode, scan_first (by omega), scan_second (by omega), scan_third (by omega),
        byte_eq (a := a) (by omega), byte_eq (a := b) (by omega)]
      rfl
  | case4 a b c rest ih =>
      have ha := a.toNat_lt
      have hb := b.toNat_lt
      have hc := c.toNat_lt
      rw [encode, scan_first (by omega), scan_second (by omega), scan_third (by omega),
        scan_fourth (by omega), ih, byte_eq (a := a) (by omega), byte_eq (a := b) (by omega),
        byte_eq (a := c) (by omega)]
      rfl

/-! ## The padding -/

/-- What is encoded, without its padding. -/
structure Core (data : Bytes) (core : Str) : Prop where
  encode : encode data = padded core
  symbols : ∀ c ∈ core, ∃ v < 64, c = symbol v

theorem exists_core (data : Bytes) : ∃ core, Core data core := by
  induction data using encode.induct with
  | case1 => exact ⟨[], rfl, nofun⟩
  | case2 a =>
      have ha := a.toNat_lt
      refine ⟨[symbol (a.toNat / 4), symbol (a.toNat % 4 * 16)], rfl, fun c hc => ?_⟩
      simp only [List.mem_cons, List.not_mem_nil, or_false] at hc
      rcases hc with rfl | rfl
      · exact ⟨_, by omega, rfl⟩
      · exact ⟨_, by omega, rfl⟩
  | case3 a b =>
      have ha := a.toNat_lt
      have hb := b.toNat_lt
      refine ⟨[symbol (a.toNat / 4), symbol (a.toNat % 4 * 16 + b.toNat / 16),
        symbol (b.toNat % 16 * 4)], rfl, fun c hc => ?_⟩
      simp only [List.mem_cons, List.not_mem_nil, or_false] at hc
      rcases hc with rfl | rfl | rfl
      · exact ⟨_, by omega, rfl⟩
      · exact ⟨_, by omega, rfl⟩
      · exact ⟨_, by omega, rfl⟩
  | case4 a b c rest ih =>
      obtain ⟨core, hencode, hsymbols⟩ := ih
      have ha := a.toNat_lt
      have hb := b.toNat_lt
      have hc := c.toNat_lt
      refine ⟨symbol (a.toNat / 4) :: symbol (a.toNat % 4 * 16 + b.toNat / 16) ::
        symbol (b.toNat % 16 * 4 + c.toNat / 64) :: symbol (c.toNat % 64) :: core, ?_,
        fun d hd => ?_⟩
      · rw [Base64.encode, hencode, padded, padded]
        have hlength : ∀ n, (4 - (n + 4) % 4) % 4 = (4 - n % 4) % 4 := fun n => by omega
        simp only [List.length_cons, List.cons_append]
        rw [show core.length + 1 + 1 + 1 + 1 = core.length + 4 from rfl, hlength]
      · simp only [List.mem_cons] at hd
        rcases hd with rfl | rfl | rfl | rfl | hd
        · exact ⟨_, by omega, rfl⟩
        · exact ⟨_, by omega, rfl⟩
        · exact ⟨_, by omega, rfl⟩
        · exact ⟨_, by omega, rfl⟩
        · exact hsymbols d hd

theorem stripped_padded {core : Str} (h : '=' ∉ core) : stripped (padded core) = core := by
  have hpads : ∀ c ∈ (List.replicate ((4 - core.length % 4) % 4) '=').reverse,
      (c == '=') = true := by
    intro c hc
    rw [List.reverse_replicate] at hc
    rw [List.eq_of_mem_replicate hc]
    rfl
  rw [stripped, padded, List.rdropWhile, List.reverse_append, List.dropWhile_append_of_pos hpads]
  cases hcore : core.reverse with
  | nil => rw [List.dropWhile_nil, ← hcore, List.reverse_reverse]
  | cons c rest =>
      have hc : c ∈ core := List.mem_reverse.mp (hcore ▸ List.mem_cons_self)
      have hne : (c == '=') = false := beq_false_of_ne fun heq => h (heq ▸ hc)
      rw [List.dropWhile_cons_of_neg (by rw [hne]; exact Bool.false_ne_true), ← hcore,
        List.reverse_reverse]

/-- What is encoded: characters of the alphabet, and their padding. -/
theorem stripped_encode (data : Bytes) : Core data (stripped (encode data)) := by
  obtain ⟨core, hencode, hsymbols⟩ := exists_core data
  have hpad : '=' ∉ core := by
    intro hmem
    obtain ⟨v, hv, heq⟩ := hsymbols '=' hmem
    exact symbol_ne_pad v hv heq.symm
  have hstripped : stripped (encode data) = core := by rw [hencode, stripped_padded hpad]
  rw [hstripped]
  exact ⟨hencode, hsymbols⟩

/-- **What is encoded is decoded.** -/
theorem decode_encode (data : Bytes) : decode (encode data) = some data := by
  have hcore := stripped_encode data
  have hascii : ((encode data).all fun c => c.toNat < 128) = true := by
    rw [hcore.encode, padded, List.all_append, Bool.and_eq_true]
    constructor
    · refine List.all_eq_true.mpr fun c hc => ?_
      obtain ⟨v, hv, rfl⟩ := hcore.symbols c hc
      exact decide_eq_true (ascii_symbol v hv)
    · refine List.all_eq_true.mpr fun c hc => ?_
      rw [List.eq_of_mem_replicate hc]
      decide
  rw [decode, if_pos hascii, scan_encode]

/-- **The padding is put back.** -/
theorem decode_padded (data : Bytes) : decode (padded (stripped (encode data))) = some data := by
  rw [← (stripped_encode data).encode, decode_encode]

/-! ## Characters that are passed over -/

/-- A character outside of the alphabet, between two groups or after them, changes nothing. -/
theorem scan_other {c : Char} (hc : c ≠ '=') (hvalue : value c = none) (quad left pads : Nat)
    (rest : Str) : scan quad left pads (c :: rest) = scan quad left pads rest := by
  rw [scan, if_neg hc, hvalue]

theorem scan_append_other {c : Char} (hc : c ≠ '=') (hvalue : value c = none) (s rest : Str)
    (quad left pads : Nat) : scan quad left pads (s ++ c :: rest) = scan quad left pads (s ++ rest) := by
  induction s generalizing quad left pads with
  | nil => exact scan_other hc hvalue quad left pads rest
  | cons d s ih =>
      rw [List.cons_append, List.cons_append, scan, scan]
      by_cases hd : d = '='
      · rw [if_pos hd, if_pos hd, ih, ih]
      · rw [if_neg hd, if_neg hd]
        cases value d with
        | none => exact ih quad left pads
        | some v =>
            dsimp only
            rcases quad with - | - | - | quad
            · exact ih 1 v 0
            · exact congrArg (Option.map (UInt8.ofNat (left * 4 + v / 16) :: ·)) (ih 2 (v % 16) 0)
            · exact congrArg (Option.map (UInt8.ofNat (left * 16 + v / 4) :: ·)) (ih 3 (v % 4) 0)
            · exact congrArg (Option.map (UInt8.ofNat (left * 64 + v) :: ·)) (ih 0 0 0)

/-- Four of them at the end ask for the same padding. -/
theorem decode_padded_others {c : Char} (hc : c ≠ '=') (hvalue : value c = none)
    (hascii : c.toNat < 128) (s : Str) :
    decode (padded (s ++ [c, c, c, c])) = decode (padded s) := by
  have hlength : (s ++ [c, c, c, c]).length % 4 = s.length % 4 := by
    rw [List.length_append]
    show (s.length + 4) % 4 = s.length % 4
    omega
  unfold decode padded
  rw [hlength, List.append_assoc]
  simp only [List.cons_append, List.nil_append, scan_append_other hc hvalue, List.all_append,
    List.all_cons, hascii, decide_true, Bool.true_and]

end MesReunions.Base64
