import MesReunions.Base.Replace
import MesReunions.Base.Url

/-!
# URLs of videos

`services/video_ingest/app/providers/youtube/url.py`: the id of a video, which keys the shared
cache.

* `parse`, `matchesUrl` — of the source.
* `Canonical` — what a successful `parse` stands for.
* `NewlineInQuery` — the value of `v` is an id and a line feed, which `$` lets pass.
* **`canonical_iff`** — an id is canonical but for that.
* **`newline_kept`** — `%0A` gives a second id for a video.
-/

namespace MesReunions.YouTubeUrl

open Str Url

/-- `_YOUTUBE_HOSTS` -/
def youtubeHosts : List Str :=
  [['y', 'o', 'u', 't', 'u', 'b', 'e', '.', 'c', 'o', 'm'],
    ['w', 'w', 'w', '.', 'y', 'o', 'u', 't', 'u', 'b', 'e', '.', 'c', 'o', 'm'],
    ['m', '.', 'y', 'o', 'u', 't', 'u', 'b', 'e', '.', 'c', 'o', 'm'],
    ['m', 'u', 's', 'i', 'c', '.', 'y', 'o', 'u', 't', 'u', 'b', 'e', '.', 'c', 'o', 'm']]

/-- `_YOUTU_BE_HOSTS` -/
def youtuBeHosts : List Str :=
  [['y', 'o', 'u', 't', 'u', '.', 'b', 'e'],
    ['w', 'w', 'w', '.', 'y', 'o', 'u', 't', 'u', '.', 'b', 'e']]

/-- `[A-Za-z0-9_-]` -/
def isIdChar (c : Char) : Bool := c.isAlphanum || c = '_' || c = '-'

/-- `_VIDEO_ID_RE.match(v)`: `$` also matches before a line feed that ends the string. -/
def idMatches (v : Str) : Bool :=
  let id := v.take 11
  id.length = 11 && id.all isIdChar && (v.drop 11 = [] || v.drop 11 = ['\n'])

structure ParsedYouTubeUrl where
  videoId : Str
  canonicalUrl : Str
  deriving DecidableEq

inductive YouTubeUrlError where
  | empty
  | invalid (url : Str)
  /-- `urlparse` raises a `ValueError` of its own. -/
  | valueError
  deriving DecidableEq

/-- `://` -/
def schemeMark : Str := [':', '/', '/']

/-- The URL with a scheme. -/
def withScheme (url : Str) : Str :=
  let raw := strip url
  if contains schemeMark raw then raw else ['h', 't', 't', 'p', 's'] ++ schemeMark ++ raw

/-- `(parsed.hostname or "").lower()` -/
def hostOf (t : Tables) (parsed : ParseResult) : Str := t.lower (parsed.hostname t)

/-- `s.split("/", 1)[0]` -/
def firstPart (s : Str) : Str := before '/' s

/-- `/watch` -/
def watchPath : Str := ['/', 'w', 'a', 't', 'c', 'h']

/-- What stands before the id in the path. -/
def pathMarks : List Str :=
  [['/', 's', 'h', 'o', 'r', 't', 's', '/'], ['/', 'e', 'm', 'b', 'e', 'd', '/'],
    ['/', 'l', 'i', 'v', 'e', '/']]

/-- `video_id`, before it is checked. -/
def videoIdOf (t : Tables) (parsed : ParseResult) : Option Str :=
  if youtuBeHosts.contains (hostOf t parsed) then some (firstPart (lstripChar '/' parsed.path))
  else if youtubeHosts.contains (hostOf t parsed) then
    if parsed.path = watchPath then firstOf ['v'] parsed.query
    else
      (pathMarks.find? fun mark => mark.isPrefixOf parsed.path).map fun mark =>
        firstPart (parsed.path.drop mark.length)
  else none

/-- `https://www.youtube.com/watch?v=` -/
def canonicalStart : Str :=
  ['h', 't', 't', 'p', 's', ':', '/', '/', 'w', 'w', 'w', '.', 'y', 'o', 'u', 't', 'u', 'b', 'e',
    '.', 'c', 'o', 'm', '/', 'w', 'a', 't', 'c', 'h', '?', 'v', '=']

def parse (t : Tables) (url : Str) : Except YouTubeUrlError ParsedYouTubeUrl :=
  if url = [] then .error .empty
  else
    match urlparse t (withScheme url) with
    | .error _ => .error .valueError
    | .ok parsed =>
        match (videoIdOf t parsed).filter idMatches with
        | some videoId => .ok ⟨videoId, canonicalStart ++ videoId⟩
        | none => .error (.invalid url)

/-- `matches(url)` -/
def matchesUrl (t : Tables) (url : Str) : Bool :=
  if url = [] then false
  else
    match urlparse t (withScheme url) with
    | .error _ => false
    | .ok parsed =>
        youtubeHosts.contains (hostOf t parsed) || youtuBeHosts.contains (hostOf t parsed)

/-! ## Statements -/

/-- An identifier of YouTube. -/
def IsVideoId (v : Str) : Prop := v.length = 11 ∧ ∀ c ∈ v, isIdChar c = true

instance (v : Str) : Decidable (IsVideoId v) := by unfold IsVideoId; infer_instance

/-- What a successful `parse` stands for. -/
structure Canonical (t : Tables) (url : Str) (p : ParsedYouTubeUrl) : Prop where
  isVideoId : IsVideoId p.videoId
  matched : matchesUrl t url = true
  again : parse t p.canonicalUrl = .ok p

/-- The URL names a video by the first `v` of its query, which has a line feed behind the id. -/
def NewlineInQuery (t : Tables) (url : Str) : Prop :=
  url ≠ [] ∧ ∃ parsed v, urlparse t (withScheme url) = .ok parsed ∧
    youtubeHosts.contains (hostOf t parsed) = true ∧ parsed.path = watchPath ∧
    firstOf ['v'] parsed.query = some (v ++ ['\n']) ∧ IsVideoId v

/-! ## Identifiers -/

theorem idMatches_iff {v : Str} :
    idMatches v = true ↔ IsVideoId v ∨ ∃ w, v = w ++ ['\n'] ∧ IsVideoId w := by
  have hsplit := List.take_append_drop 11 v
  constructor
  · intro h
    simp only [idMatches, Bool.and_eq_true, Bool.or_eq_true, decide_eq_true_eq,
      List.all_eq_true] at h
    obtain ⟨⟨hlen, hchars⟩, hrest⟩ := h
    rcases hrest with hrest | hrest
    · rw [hrest, List.append_nil] at hsplit
      rw [hsplit] at hlen hchars
      exact .inl ⟨hlen, hchars⟩
    · rw [hrest] at hsplit
      exact .inr ⟨v.take 11, hsplit.symm, hlen, hchars⟩
  · intro h
    have hid : ∀ {w rest : Str}, IsVideoId w → rest = [] ∨ rest = ['\n'] →
        idMatches (w ++ rest) = true := by
      intro w rest hw hrest
      have htake : (w ++ rest).take 11 = w := by rw [← hw.1, List.take_left']; rfl
      have hdrop : (w ++ rest).drop 11 = rest := by rw [← hw.1, List.drop_left']; rfl
      simp only [idMatches, htake, hdrop, Bool.and_eq_true, Bool.or_eq_true, decide_eq_true_eq,
        List.all_eq_true]
      exact ⟨hw, hrest⟩
    rcases h with hv | ⟨w, rfl, hw⟩
    · have hall := hid hv (.inl rfl)
      rwa [List.append_nil] at hall
    · exact hid hw (.inr rfl)

theorem lt_128_of_isIdChar {c : Char} (h : isIdChar c = true) : c.toNat < 128 := by
  simp only [isIdChar, Char.isAlphanum, Char.isAlpha, Char.isUpper, Char.isLower, Char.isDigit,
    Bool.or_eq_true, Bool.and_eq_true, decide_eq_true_eq, UInt32.le_iff_toNat_le] at h
  have hnat : c.toNat = c.val.toNat := rfl
  rcases h with (((h | h) | h) | rfl) | rfl
  · have hz : ('Z' : Char).val.toNat = 90 := rfl
    omega
  · have hz : ('z' : Char).val.toNat = 122 := rfl
    omega
  · have hz : ('9' : Char).val.toNat = 57 := rfl
    omega
  · decide
  · decide

/-- An identifier has no mark of a URL. -/
theorem ne_of_isIdChar {c d : Char} (hd : isIdChar d = false) (h : isIdChar c = true) : c ≠ d := by
  rintro rfl
  rw [hd] at h
  cases h

theorem isSpace_of_isIdChar {c : Char} (h : isIdChar c = true) : isSpace c = false := by
  have hlt := lt_128_of_isIdChar h
  have hcheck : ∀ n < 128, isIdChar (Char.ofNat n) = true → isSpace (Char.ofNat n) = false := by
    decide +kernel
  have hc := hcheck c.toNat hlt
  rw [Char.ofNat_toNat] at hc
  exact hc h

/-! ## The canonical URL -/

/-- `www.youtube.com` -/
def wwwHost : Str :=
  ['w', 'w', 'w', '.', 'y', 'o', 'u', 't', 'u', 'b', 'e', '.', 'c', 'o', 'm']

theorem mem_canonical {v : Str} (hv : IsVideoId v) {c : Char} (hc : c ∈ canonicalStart ++ v) :
    c ∈ canonicalStart ∨ isIdChar c = true :=
  (List.mem_append.mp hc).imp id (hv.2 c)

theorem strip_canonical {v : Str} (hv : IsVideoId v) :
    strip (canonicalStart ++ v) = canonicalStart ++ v := by
  have hne : v ≠ [] := by
    rintro rfl
    exact absurd hv.1 (by decide)
  refine strip_eq_self_of_ends (lstrip_of_head (by decide)) ?_
  rw [← List.dropLast_append_getLast hne, ← List.append_assoc]
  exact rstrip_concat_of_not (isSpace_of_isIdChar (hv.2 _ (List.getLast_mem hne)))

theorem cleaned_canonical {v : Str} (hv : IsVideoId v) :
    cleaned (canonicalStart ++ v) = canonicalStart ++ v := by
  have hdrop : (canonicalStart ++ v).dropWhile (fun c => c.toNat ≤ 32) = canonicalStart ++ v :=
    rfl
  have hstart : canonicalStart.all (fun c => c ≠ '\t' ∧ c ≠ '\r' ∧ c ≠ '\n') = true := by decide
  rw [cleaned, hdrop, List.filter_eq_self]
  intro c hc
  rcases mem_canonical hv hc with hc | hc
  · exact List.all_eq_true.mp hstart c hc
  · have htab := ne_of_isIdChar (d := '\t') (by decide) hc
    have hreturn := ne_of_isIdChar (d := '\r') (by decide) hc
    have hfeed := ne_of_isIdChar (d := '\n') (by decide) hc
    simp [htab, hreturn, hfeed]

theorem urlparse_canonical (t : Tables) {v : Str} (hv : IsVideoId v) :
    urlparse t (canonicalStart ++ v) =
      .ok ⟨t.lower ['h', 't', 't', 'p', 's'], wwwHost, watchPath, [], ['v', '='] ++ v, []⟩ := by
  have hscheme : splitScheme t (canonicalStart ++ v) =
      (t.lower ['h', 't', 't', 'p', 's'],
        ['/', '/'] ++ wwwHost ++ watchPath ++ ['?', 'v', '='] ++ v) := rfl
  have hnetloc : splitNetloc (['/', '/'] ++ wwwHost ++ watchPath ++ ['?', 'v', '='] ++ v) =
      (wwwHost, watchPath ++ ['?', 'v', '='] ++ v) := rfl
  have hfragment : cutAt '#' (watchPath ++ ['?', 'v', '='] ++ v) =
      (watchPath ++ ['?', 'v', '='] ++ v, []) := by
    refine if_neg fun hmem => ?_
    rcases List.mem_append.mp (List.contains_iff_mem.mp hmem) with hmem | hmem
    · revert hmem
      decide
    · exact ne_of_isIdChar (d := '#') (by decide) (hv.2 _ hmem) rfl
  have hquery : cutAt '?' (watchPath ++ ['?', 'v', '='] ++ v) = (watchPath, ['v', '='] ++ v) :=
    rfl
  have hparams : ∀ scheme, splitParams scheme watchPath = (watchPath, []) := by
    intro scheme
    have hnone : List.contains (afterLast '/' watchPath) ';' = false := by decide
    rw [splitParams, hnone, Bool.and_false]
    rfl
  rw [urlparse, cleaned_canonical hv, hscheme, hnetloc]
  simp only [hfragment, hquery, hparams]
  rfl

theorem plain_of_isVideoId {v : Str} (hv : IsVideoId v) : Plain v := fun c hc =>
  ⟨ne_of_isIdChar (by decide) (hv.2 c hc), ne_of_isIdChar (by decide) (hv.2 c hc),
    lt_128_of_isIdChar (hv.2 c hc)⟩

theorem firstOf_canonical {v : Str} (hv : IsVideoId v) :
    firstOf ['v'] (['v', '='] ++ v) = some v := by
  have hamp : '&' ∉ ['v', '='] ++ v := by
    intro hmem
    rcases List.mem_append.mp hmem with hmem | hmem
    · revert hmem
      decide
    · exact ne_of_isIdChar (d := '&') (by decide) (hv.2 _ hmem) rfl
  have hsplit : (['v', '='] ++ v).splitOn '&' = [['v', '='] ++ v] :=
    List.splitOn_eq_singleton hamp
  have hne : v ≠ [] := by
    rintro rfl
    exact absurd hv.1 (by decide)
  have hafter : after '=' (['v', '='] ++ v) = v := rfl
  have hpair : parseQsl (['v', '='] ++ v) = [(['v'], v)] := by
    rw [parseQsl, hsplit, List.filterMap_cons, List.filterMap_nil]
    simp only [hafter, if_neg hne, unquotePlus_of_plain (plain_of_isVideoId hv)]
    rfl
  rw [firstOf, hpair]
  rfl

/-- **The canonical URL of an identifier** is parsed as itself. -/
theorem parse_canonical (t : Tables) {v : Str} (hv : IsVideoId v) :
    parse t (canonicalStart ++ v) = .ok ⟨v, canonicalStart ++ v⟩ := by
  have hscheme : withScheme (canonicalStart ++ v) = canonicalStart ++ v := by
    rw [withScheme, strip_canonical hv]
    rfl
  have hhost : ∀ query, hostOf t
      ⟨t.lower ['h', 't', 't', 'p', 's'], wwwHost, watchPath, [], query, []⟩ = wwwHost := by
    intro query
    have hlower : t.lower wwwHost = wwwHost := by
      have hascii : wwwHost.all (fun c => c.toNat < 128) = true := by decide
      rw [t.lower_ascii wwwHost fun c hc => of_decide_eq_true (List.all_eq_true.mp hascii c hc)]
      rfl
    have hname : ParseResult.hostname t
        ⟨t.lower ['h', 't', 't', 'p', 's'], wwwHost, watchPath, [], query, []⟩ =
        t.lower wwwHost := by
      have hinfo : afterLast '@' wwwHost = wwwHost := by decide
      rw [ParseResult.hostname]
      simp only [hinfo]
      exact List.append_nil (t.lower wwwHost)
    rw [hostOf, hname, hlower, hlower]
  have hid : videoIdOf t ⟨t.lower ['h', 't', 't', 'p', 's'], wwwHost, watchPath, [],
      ['v', '='] ++ v, []⟩ = some v := by
    rw [videoIdOf, hhost]
    exact firstOf_canonical hv
  have hmatch : (some v).filter idMatches = some v := by
    rw [Option.filter_some, if_pos (idMatches_iff.mpr (.inl hv))]
  have hne : canonicalStart ++ v ≠ [] := List.cons_ne_nil _ _
  rw [parse, if_neg hne, hscheme, urlparse_canonical t hv]
  simp only [hid, hmatch]

/-! ## The URLs that are parsed -/

section

variable {t : Tables} {url : Str} {p : ParsedYouTubeUrl}

/-- What a successful `parse` has seen. -/
theorem parse_cases (h : parse t url = .ok p) :
    url ≠ [] ∧ ∃ parsed, urlparse t (withScheme url) = .ok parsed ∧
      videoIdOf t parsed = some p.videoId ∧ idMatches p.videoId = true ∧
      p.canonicalUrl = canonicalStart ++ p.videoId := by
  unfold parse at h
  split at h
  · cases h
  · rename_i hne
    cases hparsed : urlparse t (withScheme url) with
    | error e =>
        rw [hparsed] at h
        cases h
    | ok parsed =>
        rw [hparsed] at h
        dsimp only at h
        cases hid : (videoIdOf t parsed).filter idMatches with
        | none =>
            rw [hid] at h
            cases h
        | some v =>
            rw [hid] at h
            cases h
            obtain ⟨hv, hmatch⟩ := Option.filter_eq_some_iff.mp hid
            exact ⟨hne, parsed, rfl, hv, hmatch, rfl⟩

theorem matchesUrl_of_parse (h : parse t url = .ok p) : matchesUrl t url = true := by
  obtain ⟨hne, parsed, hparsed, hid, -, -⟩ := parse_cases h
  unfold videoIdOf at hid
  rw [matchesUrl, if_neg hne, hparsed]
  split at hid
  · rename_i hbe
    exact Bool.or_eq_true_iff.mpr (.inr hbe)
  · split at hid
    · rename_i hhost
      exact Bool.or_eq_true_iff.mpr (.inl hhost)
    · cases hid

theorem mem_of_mem_firstPart {c : Char} {s : Str} (h : c ∈ firstPart s) : c ∈ s :=
  mem_of_mem_before h

/-- An id that is taken from the path has no line feed. -/
theorem videoIdOf_cases {raw v : Str} {parsed : ParseResult} (h : urlparse t raw = .ok parsed)
    (hid : videoIdOf t parsed = some v) :
    '\n' ∉ v ∨ youtubeHosts.contains (hostOf t parsed) = true ∧ parsed.path = watchPath ∧
      firstOf ['v'] parsed.query = some v := by
  have hpath : '\n' ∉ parsed.path := fun hc => newline_not_mem_cleaned (mem_of_mem_path h hc)
  unfold videoIdOf at hid
  split at hid
  · cases hid
    left
    intro hc
    exact hpath ((List.dropWhile_sublist _).subset (mem_of_mem_firstPart hc))
  · split at hid
    · rename_i hhost
      split at hid
      · rename_i hwatch
        exact .inr ⟨hhost, hwatch, hid⟩
      · left
        obtain ⟨mark, -, rfl⟩ := Option.map_eq_some_iff.mp hid
        intro hc
        exact hpath ((List.drop_sublist _ _).subset (mem_of_mem_firstPart hc))
    · cases hid

/-- An id that is parsed is an identifier, or the URL has a line feed behind one. -/
theorem isVideoId_of_parse (h : parse t url = .ok p) :
    IsVideoId p.videoId ∨ NewlineInQuery t url := by
  obtain ⟨hne, parsed, hparsed, hid, hmatch, -⟩ := parse_cases h
  rcases idMatches_iff.mp hmatch with hv | ⟨w, hw, hv⟩
  · exact .inl hv
  · right
    rcases videoIdOf_cases hparsed hid with hnot | ⟨hhost, hwatch, hfirst⟩
    · rw [hw] at hnot
      exact absurd (List.mem_append_right w (List.mem_singleton_self _)) hnot
    · exact ⟨hne, parsed, w, hparsed, hhost, hwatch, hw ▸ hfirst, hv⟩

/-- Such a line feed is kept in the id. -/
theorem parse_of_newlineInQuery (h : NewlineInQuery t url) :
    ∃ v, IsVideoId v ∧ parse t url = .ok ⟨v ++ ['\n'], canonicalStart ++ (v ++ ['\n'])⟩ := by
  obtain ⟨hne, parsed, v, hparsed, hhost, hwatch, hfirst, hv⟩ := h
  refine ⟨v, hv, ?_⟩
  have hdisjoint : youtuBeHosts.contains (hostOf t parsed) = false := by
    have hall : youtubeHosts.all (fun host => !youtuBeHosts.contains host) = true := by decide
    simpa using List.all_eq_true.mp hall _ (List.contains_iff_mem.mp hhost)
  have hid : videoIdOf t parsed = some (v ++ ['\n']) := by
    rw [videoIdOf, hdisjoint, hhost, if_pos hwatch]
    exact hfirst
  have hmatch : (some (v ++ ['\n'])).filter idMatches = some (v ++ ['\n']) := by
    rw [Option.filter_some, if_pos (idMatches_iff.mpr (.inr ⟨v, rfl, hv⟩))]
  rw [parse, if_neg hne, hparsed]
  simp only [hid, hmatch]

end

/-- **When an identifier is canonical**: unless the URL has a line feed behind it, in its query.
Two other URLs have one key exactly when they name one identifier. -/
theorem canonical_iff (t : Tables) :
    (∀ url, (∀ p, parse t url = .ok p → Canonical t url p) ↔ ¬ NewlineInQuery t url) ∧
      ∀ url url' p p', parse t url = .ok p → parse t url' = .ok p' → ¬ NewlineInQuery t url →
        ¬ NewlineInQuery t url' →
        (p.videoId = p'.videoId ↔ p.videoId.take 11 = p'.videoId.take 11) := by
  have hgood : ∀ {url p}, parse t url = .ok p → ¬ NewlineInQuery t url → IsVideoId p.videoId :=
    fun h hnot => (isVideoId_of_parse h).resolve_right hnot
  constructor
  · intro url
    constructor
    · intro hall hnewline
      obtain ⟨v, hv, hparse⟩ := parse_of_newlineInQuery hnewline
      have hlen := (hall _ hparse).isVideoId.1
      rw [List.length_append, hv.1] at hlen
      exact absurd hlen (by decide)
    · intro hnot p hparse
      have hid := hgood hparse hnot
      refine ⟨hid, matchesUrl_of_parse hparse, ?_⟩
      obtain ⟨-, -, -, -, -, hcanonical⟩ := parse_cases hparse
      rw [hcanonical, parse_canonical t hid, ← hcanonical]
  · intro url url' p p' hp hp' hnot hnot'
    have hid := hgood hp hnot
    have hid' := hgood hp' hnot'
    rw [← hid.1, List.take_length, hid.1, ← hid'.1, List.take_length]

/-! ## An encoded line feed -/

/-- Tables that are right on ASCII. -/
def asciiTables : Tables where
  lower s := s.map Char.toLower
  nfkc := id
  bracketedHost _ := false
  lower_ascii _ _ := rfl

/-- `youtu.be/dQw4w9WgXcQ` -/
def shortUrl : Str :=
  ['y', 'o', 'u', 't', 'u', '.', 'b', 'e', '/', 'd', 'Q', 'w', '4', 'w', '9', 'W', 'g', 'X', 'c',
    'Q']

example : parse asciiTables shortUrl =
    .ok ⟨shortUrl.drop 9, canonicalStart ++ shortUrl.drop 9⟩ := by decide +kernel

/-- `https://www.youtube.com/watch?v=dQw4w9WgXcQ%0A` -/
def newlineUrl : Str := canonicalStart ++ shortUrl.drop 9 ++ ['%', '0', 'A']

/-- **`%0A` gives a second id for a video.** -/
theorem newline_kept : ¬ ∀ (t : Tables) url p, parse t url = .ok p → Canonical t url p := by
  intro hall
  have hparse : parse asciiTables newlineUrl =
      .ok ⟨shortUrl.drop 9 ++ ['\n'], canonicalStart ++ (shortUrl.drop 9 ++ ['\n'])⟩ := by
    decide +kernel
  exact absurd (hall _ _ _ hparse).isVideoId.1 (by decide)

end MesReunions.YouTubeUrl
