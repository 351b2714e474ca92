import MesReunions.Base.Json

/-!
# URLs as `urllib.parse` takes them apart

`urlparse`, the `hostname` of its result, and `parse_qs`.

* `urlparse` — scheme, host, path, query; tabs and line breaks are taken out first.
* `unquotePlus` — `%xx` as UTF-8, a wrong sequence as U+FFFD.
* **`mem_of_mem_path`** — a path is a part of what is left of the URL.
* **`unquotePlus_of_plain`** — what has nothing to decode is left alone.
-/

namespace MesReunions.Url

/-- Python's tables: `str.lower`, NFKC, and which hosts may stand in brackets. -/
structure Tables where
  lower : Str → Str
  nfkc : Str → Str
  bracketedHost : Str → Bool
  lower_ascii : ∀ s : Str, (∀ c ∈ s, c.toNat < 128) → lower s = s.map Char.toLower

/-! ## Parts of a string -/

/-- `s.partition(c)[0]` -/
def before (c : Char) (s : Str) : Str := s.takeWhile (· ≠ c)

/-- `s.partition(c)[2]` -/
def after (c : Char) (s : Str) : Str := (s.dropWhile (· ≠ c)).drop 1

/-- `s.rpartition(c)[2]` -/
def afterLast (c : Char) (s : Str) : Str := s.rtakeWhile (· ≠ c)

/-- `s.rpartition(c)[0] + c`, or nothing. -/
def throughLast (c : Char) (s : Str) : Str := s.rdropWhile (· ≠ c)

/-! ## `urlparse` -/

structure ParseResult where
  scheme : Str
  netloc : Str
  path : Str
  params : Str
  query : Str
  fragment : Str
  deriving DecidableEq

/-- `_WHATWG_C0_CONTROL_OR_SPACE` is stripped, `_UNSAFE_URL_BYTES_TO_REMOVE` are removed. -/
def cleaned (url : Str) : Str :=
  (url.dropWhile fun c => c.toNat ≤ 32).filter fun c => c ≠ '\t' ∧ c ≠ '\r' ∧ c ≠ '\n'

/-- `scheme_chars` -/
def isSchemeChar (c : Char) : Bool := c.isAlphanum || ['+', '-', '.'].contains c

def splitScheme (t : Tables) (url : Str) : Str × Str :=
  let scheme := before ':' url
  if List.contains url ':' && scheme.head?.any Char.isAlpha && scheme.all isSchemeChar then
    (t.lower scheme, after ':' url)
  else ([], url)

/-- `_splitnetloc`, behind two slashes. -/
def splitNetloc (url : Str) : Str × Str :=
  match url with
  | '/' :: '/' :: rest =>
      (rest.takeWhile fun c => c ∉ ['/', '?', '#'],
        rest.dropWhile fun c => c ∉ ['/', '?', '#'])
  | url => ([], url)

/-- `_check_bracketed_netloc` raises nothing. -/
def checkBracketedNetloc (t : Tables) (netloc : Str) : Bool :=
  let hostnameAndPort := afterLast '@' netloc
  if List.contains hostnameAndPort '[' then
    let bracketed := after '[' hostnameAndPort
    (before '[' hostnameAndPort).isEmpty && (after ']' bracketed).head?.all (· = ':') &&
      t.bracketedHost (before ']' bracketed)
  else t.bracketedHost (before ':' hostnameAndPort)

/-- `_checknetloc` raises nothing. -/
def checkNetloc (t : Tables) (netloc : Str) : Bool :=
  let n := netloc.filter fun c => c ∉ ['@', ':', '#', '?']
  netloc.all (fun c => c.toNat < 128) || n == t.nfkc n ||
    (t.nfkc n).all fun c => c ∉ ['/', '?', '#', '@', ':']

/-- The schemes of `uses_params`. -/
def usesParams : List Str :=
  [[], ['f', 't', 'p'], ['h', 'd', 'l'], ['p', 'r', 'o', 's', 'p', 'e', 'r', 'o'],
    ['h', 't', 't', 'p'], ['i', 'm', 'a', 'p'], ['h', 't', 't', 'p', 's'],
    ['s', 'h', 't', 't', 'p'], ['r', 't', 's', 'p'], ['r', 't', 's', 'p', 's'],
    ['r', 't', 's', 'p', 'u'], ['s', 'i', 'p'], ['s', 'i', 'p', 's'], ['m', 'm', 's'],
    ['s', 'f', 't', 'p'], ['t', 'e', 'l']]

/-- `_splitparams`: a `;` in the last part of the path starts the parameters. -/
def splitParams (scheme url : Str) : Str × Str :=
  if usesParams.contains scheme && List.contains (afterLast '/' url) ';' then
    (throughLast '/' url ++ before ';' (afterLast '/' url), after ';' (afterLast '/' url))
  else (url, [])

/-- `s.split(c, 1)`, where there is one. -/
def cutAt (c : Char) (s : Str) : Str × Str :=
  if List.contains s c then (before c s, after c s) else (s, [])

def urlparse (t : Tables) (url : Str) : Except PyError ParseResult :=
  let scheme := splitScheme t (cleaned url)
  let netloc := splitNetloc scheme.2
  if List.contains netloc.1 '[' ≠ List.contains netloc.1 ']' then .error .valueError
  else if List.contains netloc.1 '[' && !checkBracketedNetloc t netloc.1 then .error .valueError
  else
    let fragment := cutAt '#' netloc.2
    let query := cutAt '?' fragment.1
    if !checkNetloc t netloc.1 then .error .valueError
    else
      let params := splitParams scheme.1 query.1
      .ok ⟨scheme.1, netloc.1, params.1, params.2, query.2, fragment.2⟩

/-- `parsed.hostname or ""`; the zone of an IPv6 address keeps its case. -/
def ParseResult.hostname (t : Tables) (r : ParseResult) : Str :=
  let hostinfo := afterLast '@' r.netloc
  let hostname :=
    if List.contains hostinfo '[' then before ']' (after '[' hostinfo) else before ':' hostinfo
  t.lower (before '%' hostname) ++ hostname.dropWhile (· ≠ '%')

/-! ## `unquote_plus` -/

/-- The characters that are not ASCII, and the bytes of the others. The next `skip` characters are
a part of the byte before. -/
def unescape : (skip : Nat) → Str → List (Char ⊕ Nat)
  | _, [] => []
  | skip + 1, _ :: s => unescape skip s
  | 0, c :: s =>
      if c = '%' then
        match (s[0]?.bind Json.hexVal), (s[1]?.bind Json.hexVal) with
        | some a, some b => .inr (16 * a + b) :: unescape 2 s
        | _, _ => .inr 37 :: unescape 0 s
      else if c.toNat < 128 then .inr c.toNat :: unescape 0 s
      else .inl c :: unescape 0 s

/-- A sequence of UTF-8 that has started: its bits, the range of its next byte, and how many are
to come after that. -/
structure Pending where
  acc : Nat
  lo : Nat
  hi : Nat
  more : Nat

/-- What the first byte of a sequence says. -/
def firstByte (b : Nat) : Option Pending :=
  if 0xC2 ≤ b ∧ b ≤ 0xDF then some ⟨b - 0xC0, 0x80, 0xBF, 0⟩
  else if b = 0xE0 then some ⟨0x0, 0xA0, 0xBF, 1⟩
  else if b = 0xED then some ⟨0xD, 0x80, 0x9F, 1⟩
  else if 0xE1 ≤ b ∧ b ≤ 0xEF then some ⟨b - 0xE0, 0x80, 0xBF, 1⟩
  else if b = 0xF0 then some ⟨0x0, 0x90, 0xBF, 2⟩
  else if 0xF1 ≤ b ∧ b ≤ 0xF3 then some ⟨b - 0xF0, 0x80, 0xBF, 2⟩
  else if b = 0xF4 then some ⟨0x4, 0x80, 0x8F, 2⟩
  else none

/-- A byte where no sequence has started. -/
def start (b : Nat) : Str × Option Pending :=
  if b < 0x80 then ([Char.ofNat b], none)
  else
    match firstByte b with
    | some p => ([], some p)
    | none => (['\uFFFD'], none)

/-- A byte, with `errors="replace"`. -/
def feed (pending : Option Pending) (b : Nat) : Str × Option Pending :=
  match pending with
  | none => start b
  | some p =>
      if p.lo ≤ b ∧ b ≤ p.hi then
        let acc := 64 * p.acc + (b - 0x80)
        match p.more with
        | 0 => ([Char.ofNat acc], none)
        | more + 1 => ([], some ⟨acc, 0x80, 0xBF, more⟩)
      else ('\uFFFD' :: (start b).1, (start b).2)

/-- A sequence that is cut short. -/
def flush (pending : Option Pending) : Str := if pending.isSome then ['\uFFFD'] else []

def decode : Option Pending → List (Char ⊕ Nat) → Str
  | pending, [] => flush pending
  | pending, .inl c :: items => flush pending ++ c :: decode none items
  | pending, .inr b :: items => (feed pending b).1 ++ decode (feed pending b).2 items

def unquote (s : Str) : Str := decode none (unescape 0 s)

def unquotePlus (s : Str) : Str := unquote (s.map fun c => if c = '+' then ' ' else c)

/-! ## `parse_qs` -/

/-- The pairs of `parse_qsl(qs)`; those without a value are left out. -/
def parseQsl (qs : Str) : List (Str × Str) :=
  (qs.splitOn '&').filterMap fun nameValue =>
    let value := after '=' nameValue
    if value = [] then none else some (unquotePlus (before '=' nameValue), unquotePlus value)

/-- `parse_qs(qs).get(name)[0]` -/
def firstOf (name : Str) (qs : Str) : Option Str :=
  ((parseQsl qs).find? fun p => p.1 == name).map (·.2)

/-! ## Characters that a part can have -/

variable {c d : Char} {s url : Str}

theorem mem_of_mem_before (h : c ∈ before d s) : c ∈ s := (List.takeWhile_sublist _).subset h

theorem mem_of_mem_after (h : c ∈ after d s) : c ∈ s :=
  (List.dropWhile_sublist _).subset ((List.drop_sublist _ _).subset h)

theorem mem_of_mem_afterLast (h : c ∈ afterLast d s) : c ∈ s :=
  (List.rtakeWhile_suffix _ _).subset h

theorem mem_of_mem_throughLast (h : c ∈ throughLast d s) : c ∈ s :=
  (List.rdropWhile_prefix _ _).subset h

theorem mem_of_mem_splitScheme {t : Tables} (h : c ∈ (splitScheme t url).2) : c ∈ url := by
  unfold splitScheme at h
  dsimp only at h
  split at h
  · exact mem_of_mem_after h
  · exact h

theorem mem_of_mem_splitNetloc (h : c ∈ (splitNetloc url).2) : c ∈ url := by
  unfold splitNetloc at h
  split at h
  · exact List.mem_cons_of_mem _ (List.mem_cons_of_mem _ ((List.dropWhile_sublist _).subset h))
  · exact h

theorem mem_of_mem_cutAt (h : c ∈ (cutAt d s).1) : c ∈ s := by
  unfold cutAt at h
  split at h
  · exact mem_of_mem_before h
  · exact h

theorem mem_of_mem_splitParams {scheme : Str} (h : c ∈ (splitParams scheme url).1) : c ∈ url := by
  unfold splitParams at h
  split at h
  · rcases List.mem_append.mp h with h | h
    · exact mem_of_mem_throughLast h
    · exact mem_of_mem_afterLast (mem_of_mem_before h)
  · exact h

theorem mem_of_mem_cleaned (h : c ∈ cleaned url) : c ∈ url :=
  (List.dropWhile_sublist _).subset (List.mem_of_mem_filter h)

/-- **A path is a part of what is left of the URL.** -/
theorem mem_of_mem_path {t : Tables} {r : ParseResult} (h : urlparse t url = .ok r)
    (hc : c ∈ r.path) : c ∈ cleaned url := by
  unfold urlparse at h
  dsimp only at h
  split at h
  · cases h
  · split at h
    · cases h
    · split at h
      · cases h
      · cases h
        exact mem_of_mem_splitScheme (mem_of_mem_splitNetloc
          (mem_of_mem_cutAt (mem_of_mem_cutAt (mem_of_mem_splitParams hc))))

theorem newline_not_mem_cleaned : '\n' ∉ cleaned url := by
  intro h
  have hkept := (List.mem_filter.mp h).2
  simp at hkept

/-! ## Text that needs no decoding -/

/-- A part of a URL that stands for itself. -/
def Plain (s : Str) : Prop := ∀ c ∈ s, c ≠ '%' ∧ c ≠ '+' ∧ c.toNat < 128

theorem unquote_of_plain (h : Plain s) : unquote s = s := by
  unfold unquote
  induction s with
  | nil => rfl
  | cons c s ih =>
      obtain ⟨hpercent, -, hascii⟩ := h c List.mem_cons_self
      rw [unescape, if_neg hpercent, if_pos hascii, decode, feed, start, if_pos hascii]
      rw [Char.ofNat_toNat, ih fun d hd => h d (List.mem_cons_of_mem c hd)]
      rfl

/-- **What has nothing to decode is left alone.** -/
theorem unquotePlus_of_plain (h : Plain s) : unquotePlus s = s := by
  have hmap : (s.map fun c => if c = '+' then ' ' else c) = s := by
    calc (s.map fun c => if c = '+' then ' ' else c) = s.map id :=
          List.map_congr_left fun c hc => if_neg (h c hc).2.1
      _ = s := List.map_id s
  rw [unquotePlus, hmap, unquote_of_plain h]

end MesReunions.Url
