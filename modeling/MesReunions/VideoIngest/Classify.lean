import MesReunions.VideoIngest.Worker

/-!
# Temporary and final errors

`services/video_ingest/app/providers/youtube/_errors.py`: a message is read by searching it for
patterns, and the exception to raise follows from that.

`\b`, NFKC and lower case are Python's Unicode tables, of which nothing is assumed.
-/

namespace MesReunions.VideoIngest

open Str

/-- What is used of the Unicode tables. -/
structure Tables where
  nfkc : Str → Str
  lower : Str → Str
  isWord : Char → Bool

/-! ## Patterns -/

/-- One piece of a pattern: a character, one that may be missing, or `\b`. -/
inductive Piece where
  | char (p : Char → Bool)
  | opt (p : Char → Bool)
  | bound

/-- `re.match` behind the character `prev`. -/
def matchHere (isWord : Char → Bool) : Option Char → List Piece → Str → Bool
  | _, [], _ => true
  | _, .char _ :: _, [] => false
  | _, .char p :: ps, c :: s => p c && matchHere isWord (some c) ps s
  | prev, .opt _ :: ps, [] => matchHere isWord prev ps []
  | prev, .opt p :: ps, c :: s =>
      (p c && matchHere isWord (some c) ps s) || matchHere isWord prev ps (c :: s)
  | prev, .bound :: ps, s =>
      (prev.any isWord != s.head?.any isWord) && matchHere isWord prev ps s

/-- `re.search` -/
def search (isWord : Char → Bool) (ps : List Piece) : Option Char → Str → Bool
  | prev, [] => matchHere isWord prev ps []
  | prev, c :: s => matchHere isWord prev ps (c :: s) || search isWord ps (some c) s

/-- A text, to the letter. -/
def text (s : String) : List Piece := s.toList.map fun c => .char (· == c)

/-- A text between two `\b`. -/
def word (s : String) : List Piece := .bound :: text s ++ [.bound]

/-- `'` -/
def isApostrophe (c : Char) : Bool := c.toNat == 39

/-- `[ -]` -/
def isGap (c : Char) : Bool := c == ' ' || c == '-'

/-- `_TRANSIENT_PATTERNS` -/
def transientPatterns : List (List Piece) :=
  [text "confirm you" ++ .opt isApostrophe :: text "re not a bot",
   text "sign in to confirm",
   text "http error 429",
   text "too many requests",
   text "rate" ++ .opt isGap :: text "limit",
   text "http error 5" ++ [.char isDigit, .char isDigit],
   text "service unavailable",
   text "please try again later",
   text "temporary failure",
   text "connection reset",
   text "read timed out",
   text "time" ++ .opt (· == 'd') :: text " out",
   word "ipblocked",
   word "requestblocked",
   text "youtube is blocking requests"]

/-- `_UNAVAILABLE_PATTERNS` -/
def unavailablePatterns : List (List Piece) :=
  [word "private",
   word "removed",
   word "unavailable",
   word "blocked",
   text "does not exist",
   text "has been terminated",
   text "age" ++ .char isGap :: text "restricted"]

/-! ## The classification -/

/-- `_normalize(msg)` -/
def normalize (tables : Tables) (msg : Str) : Str :=
  tables.lower ((tables.nfkc msg).map fun c => if c = '’' then Char.ofNat 39 else c)

def matchesAny (tables : Tables) (patterns : List (List Piece)) (msg : Str) : Bool :=
  patterns.any fun p => search tables.isWord p none (normalize tables msg)

/-- `is_transient(msg)` -/
def isTransient (tables : Tables) (msg : Str) : Bool := matchesAny tables transientPatterns msg

/-- The exceptions that `run_job` can let through. -/
inductive Kind where
  | providerError
  | videoUnavailable
  | transientProviderError
  | subtitlesUnavailable
  | needsAudioFallback
  | other
  deriving DecidableEq

/-- An exception: its class and `str(e)`. -/
structure Exc where
  kind : Kind
  text : Str

/-- `classify(msg, prefix=...)`, with the prefix and its colon. -/
def classify (tables : Tables) (msg before : Str) : Exc :=
  if isTransient tables msg then ⟨.transientProviderError, before ++ msg⟩
  else if matchesAny tables unavailablePatterns msg then ⟨.videoUnavailable, before ++ msg⟩
  else ⟨.providerError, before ++ msg⟩

/-- **The classification is the test.** -/
theorem classify_transient {tables : Tables} {msg before : Str} :
    (classify tables msg before).kind = .transientProviderError ↔ isTransient tables msg = true := by
  rw [classify]
  split
  · rename_i h
    simp [h]
  · rename_i h
    split <;> simp [h]

end MesReunions.VideoIngest
