import MesReunions.Base.Words
import MesReunions.Transcript.Edit

/-!
# Forbidden phrases, at ingestion

`forbidden_phrases.py` and the part of `_transcribe_via_kevent` between the answer of Whisper and
the row: the segments that match a phrase are dropped, and both texts are made of those left.

* **`matchesAny_of_within`** — what matches on its own matches inside a longer text.
* **`stored_clear_iff`** — no stored line matches exactly when the filter leaves a segment, or the
  raw text, which is stored where it leaves none, does not match either.
-/

namespace MesReunions.Transcript

open Str

/-! ## The functions of the module -/

/-- `[(_normalize(r.phrase), r.phrase) for r in rows]` -/
def activePhrases (lower : Str → Str) (rows : List Str) : List (Str × Str) :=
  rows.map fun r => (normalize lower r, r)

/-- `(seg.get("text") or "").strip()` -/
def Segment.said (seg : Segment) : Str := strip (seg.text.getD [])

section Phrases

variable (lower : Str → Str) (phrases : List (Str × Str))

/-- `_segment_matches_any(text, phrases) is not None` -/
def matchesAny (text : Str) : Bool := (segmentMatchesAny lower phrases text).isSome

/-- The texts of the segments that have one. -/
def saidTexts (segments : List Segment) : List Str :=
  (segments.map Segment.said).filter fun x => !x.isEmpty

/-- The segments that `filter_whisper_segments` keeps. -/
def keptSegments (segments : List Segment) : List Segment :=
  segments.filter fun seg => !matchesAny lower phrases seg.said

/-- `filter_whisper_segments(transcription, session_factory)`. Without a segment or a phrase it
does nothing, and where no text is left it keeps the one there was. -/
def filterWhisperSegments (t : Transcription) : Transcription :=
  if t.segments = [] ∨ phrases = [] then t
  else
    let kept := keptSegments lower phrases t.segments
    if t.segments.all (fun seg => !matchesAny lower phrases seg.said) then t
    else
      let newText := strip (joinLines (saidTexts kept))
      { t with segments := kept, text := if newText ≠ [] then some newText else t.text }

end Phrases

/-- The `transcription_text` that `_transcribe_via_kevent` makes of what the filter returns. -/
def transcriptionText (t : Transcription) : Str :=
  if t.segments ≠ [] then strip (joinLines (saidTexts t.segments)) else strip (t.text.getD [])

/-- The texts of the row at the end of the pipeline. -/
def ingested (lower : Str → Str) (phrases : List (Str × Str)) (t : Transcription)
    (diar : List DiarSegment) (names : Names) : Audio :=
  let t := filterWhisperSegments lower phrases t
  ⟨some (transcriptionText t), mergeToMarkdown t diar names, []⟩

/-! ## What matches -/

/-- Where a word ends, for `str.lower`: at a blank, and at the mark of a quoted line. -/
def isWordEnd (c : Char) : Bool := isSpace c || c == '>'

section Matches

variable {lower : Str → Str} {phrases : List (Str × Str)}

theorem matchesAny_iff {text : Str} :
    matchesAny lower phrases text = true ↔
      ∃ p ∈ phrases, p.1 ≠ [] ∧ p.1 <:+: lower (strip text) := by
  rw [matchesAny, segmentMatchesAny]
  by_cases hnil : normalize lower text = []
  · rw [if_pos hnil]
    refine ⟨fun h => (by cases h), ?_⟩
    rintro ⟨p, -, hne, hin⟩
    rw [show lower (strip text) = [] from hnil] at hin
    exact absurd (List.infix_nil.mp hin) hne
  · rw [if_neg hnil, Option.isSome_map, List.find?_isSome]
    refine exists_congr fun p => and_congr_right fun _ => ?_
    rw [Bool.and_eq_true, decide_eq_true_iff, decide_eq_true_iff]
    rfl

theorem matchesAny_strip (text : Str) :
    matchesAny lower phrases (strip text) = matchesAny lower phrases text := by
  rw [matchesAny, matchesAny, segmentMatchesAny, segmentMatchesAny, normalize, strip_strip]
  rfl

theorem not_matchesAny_nil (hlower : Lowers isWordEnd lower) :
    matchesAny lower phrases [] = false := by
  rw [matchesAny, segmentMatchesAny, normalize, strip_nil, hlower.nil, if_pos rfl]
  rfl

theorem ne_nil_of_matchesAny (hlower : Lowers isWordEnd lower) {text : Str}
    (h : matchesAny lower phrases text = true) : strip text ≠ [] := by
  intro hnil
  rw [← matchesAny_strip, hnil, not_matchesAny_nil hlower] at h
  cases h

/-- **Filtering a part of a text.** -/
theorem matchesAny_of_within (hlower : Lowers isWordEnd lower) {s x : Str}
    (hin : Within isWordEnd s x) (h : matchesAny lower phrases s = true) :
    matchesAny lower phrases x = true := by
  have hspace : ∀ c, isSpace c = true → isWordEnd c = true := fun c hc => by simp [isWordEnd, hc]
  obtain ⟨p, hp, hne, hphrase⟩ := matchesAny_iff.mp h
  have hstrip : Within isWordEnd (strip s) (strip x) :=
    ((within_strip hspace s).trans hin).strip (strip_strip s) (ne_nil_of_matchesAny hlower h)
  exact matchesAny_iff.mpr ⟨p, hp, hne, hphrase.trans (hstrip.infix_lower hlower)⟩

theorem wordEnd_newline : isWordEnd '\n' = true := by decide

/-- What the two endpoints test is the same, for phrases that were loaded. -/
theorem isForbidden_eq (hlower : Lowers isWordEnd lower) (rows : List Str) (text : Str) :
    isForbidden lower (activePhrases lower rows) text =
      matchesAny lower (activePhrases lower rows) text := by
  rw [isForbidden, matchesAny]
  cases h : segmentMatchesAny lower (activePhrases lower rows) text with
  | none => rfl
  | some original =>
      rw [segmentMatchesAny] at h
      split at h
      · cases h
      · obtain ⟨p, hp, rfl⟩ := Option.map_eq_some_iff.mp h
        obtain ⟨r, -, rfl⟩ := List.mem_map.mp (List.mem_of_find?_eq_some hp)
        have hne := List.find?_some hp
        have horiginal : r ≠ [] := by
          rintro rfl
          simp [normalize, hlower.nil] at hne
        simpa using horiginal

end Matches

/-! ## The texts of a transcription -/

section Texts

variable {lower : Str → Str} {phrases : List (Str × Str)}

theorem strip_said (seg : Segment) : strip seg.said = seg.said := strip_strip _

theorem mem_saidTexts {segments : List Segment} {x : Str} :
    x ∈ saidTexts segments ↔ x ≠ [] ∧ ∃ seg ∈ segments, seg.said = x := by
  rw [saidTexts, List.mem_filter, List.mem_map, and_comm]
  simp

/-- Stripped texts, each on lines of its own, are a stripped text. -/
theorem strip_joinLines {xs : List Str} (h : ∀ x ∈ xs, strip x = x ∧ x ≠ []) :
    strip (joinLines xs) = joinLines xs := by
  by_cases hxs : xs = []
  · rw [hxs]
    rfl
  have hr : ∀ {xs : List Str}, xs ≠ [] → (∀ x ∈ xs, strip x = x ∧ x ≠ []) →
      rstrip (joinLines xs) = joinLines xs ∧ joinLines xs ≠ [] := by
    intro xs
    induction xs with
    | nil => exact fun hne => absurd rfl hne
    | cons x xs ih =>
        intro _ h
        obtain ⟨hx, hxne⟩ := h x List.mem_cons_self
        have hxr : rstrip x = x := by rw [← hx, rstrip_strip]
        by_cases hxs : xs = []
        · subst hxs
          rw [joinLines_singleton]
          exact ⟨hxr, hxne⟩
        · obtain ⟨hjoin, hne⟩ := ih hxs fun y hy => h y (List.mem_cons_of_mem _ hy)
          have hblank : rstrip ('\n' :: joinLines xs) = '\n' :: joinLines xs := by
            have happ := rstrip_append (s := ['\n']) (hjoin.symm ▸ hne)
            rwa [hjoin] at happ
          rw [joinLines_cons hxs]
          refine ⟨?_, by simp⟩
          rw [rstrip_append (by rw [hblank]; exact List.cons_ne_nil _ _), hblank]
  refine strip_eq_self_of_ends ?_ (hr hxs h).1
  obtain ⟨x, xs, rfl⟩ := List.exists_cons_of_ne_nil hxs
  obtain ⟨hx, hxne⟩ := h x List.mem_cons_self
  obtain ⟨c, cs, rfl⟩ := List.exists_cons_of_ne_nil hxne
  have hc : isSpace c = false := by
    refine lstrip_head_not (s := c :: cs) ?_
    rw [← hx, lstrip_strip, hx]
    rfl
  by_cases hxs : xs = []
  · subst hxs
    rw [joinLines_singleton, lstrip_of_head hc]
  · rw [joinLines_cons hxs, List.cons_append, lstrip_of_head hc]

/-- The text of a transcription with segments is their texts, one after the other. -/
theorem transcriptionText_eq {t : Transcription} (h : t.segments ≠ []) :
    transcriptionText t = joinLines (saidTexts t.segments) := by
  rw [transcriptionText, if_pos h]
  refine strip_joinLines fun x hx => ?_
  obtain ⟨hne, seg, -, rfl⟩ := mem_saidTexts.mp hx
  exact ⟨strip_said seg, hne⟩

/-- A line of it is a line of what one segment says. -/
theorem mem_lines_transcriptionText {t : Transcription} (h : t.segments ≠ []) {l : Str}
    (hl : l ∈ lines (transcriptionText t)) (hne : l ≠ []) :
    ∃ seg ∈ t.segments, l ∈ lines seg.said := by
  rw [transcriptionText_eq h] at hl
  by_cases hnil : saidTexts t.segments = []
  · rw [hnil, joinLines_nil, lines_nil] at hl
    exact absurd (List.mem_singleton.mp hl) hne
  · rw [lines_joinLines hnil] at hl
    obtain ⟨x, hx, hl⟩ := List.mem_flatMap.mp hl
    obtain ⟨-, seg, hseg, rfl⟩ := mem_saidTexts.mp hx
    exact ⟨seg, hseg, hl⟩

/-- What the filter returns: the same where nothing matches, the rest where something is left,
and the raw text where nothing is. -/
theorem filterWhisperSegments_cases (t : Transcription) :
    (filterWhisperSegments lower phrases t = t ∧
        ∀ seg ∈ t.segments, matchesAny lower phrases seg.said = false) ∨
      ((filterWhisperSegments lower phrases t).segments = keptSegments lower phrases t.segments ∧
        keptSegments lower phrases t.segments ≠ []) ∨
      (∀ seg ∈ t.segments, matchesAny lower phrases seg.said = true) ∧
        (filterWhisperSegments lower phrases t).segments = [] ∧
        (filterWhisperSegments lower phrases t).text = t.text ∧
        (filterWhisperSegments lower phrases t).duration = t.duration := by
  simp only [filterWhisperSegments]
  by_cases hnoop : t.segments = [] ∨ phrases = []
  · rw [if_pos hnoop]
    refine .inl ⟨rfl, fun seg hseg => ?_⟩
    rcases hnoop with hnil | hnil
    · rw [hnil] at hseg
      cases hseg
    · rw [← Bool.not_eq_true, matchesAny_iff, hnil]
      rintro ⟨p, hp, -⟩
      cases hp
  · rw [if_neg hnoop]
    split
    · rename_i hall
      exact .inl ⟨rfl, fun seg hseg => by simpa using List.all_eq_true.mp hall seg hseg⟩
    · by_cases hkept : keptSegments lower phrases t.segments = []
      · refine .inr (.inr ⟨fun seg hseg => ?_, hkept, ?_, rfl⟩)
        · simpa using List.filter_eq_nil_iff.mp hkept seg hseg
        · simp only [hkept]
          rfl
      · exact .inr (.inl ⟨rfl, hkept⟩)

/-- A segment that is kept does not match. -/
theorem not_matches_of_kept {segments : List Segment} {seg : Segment}
    (h : seg ∈ keptSegments lower phrases segments) : matchesAny lower phrases seg.said = false := by
  simpa using (List.mem_filter.mp h).2

end Texts

/-! ## No phrase in what is stored -/

/-- The lines of the stored block that stands for an utterance, as they are spoken. -/
def Utterance.spokenLines (u : Utterance) : List Str := u.written.spoken.map spokenText

/-- No line of `transcription_text`, and no spoken line of the speaker-tagged text that is made
of one segment (or of the raw text, where there is none), matches a phrase. -/
structure Clear (lower : Str → Str) (phrases : List (Str × Str)) (t : Transcription)
    (diar : List DiarSegment) (names : Names) : Prop where
  text : ∀ l ∈ lines (transcriptionText t), matchesAny lower phrases l = false
  tagged : ∀ tagged, mergeToMarkdown t diar names = some tagged →
    LaysOut tagged ((utterances t diar names).map Utterance.written) ∧
      ∀ u ∈ utterances t diar names, u.texts.length = 1 →
        ∀ l ∈ u.spokenLines, matchesAny lower phrases l = false

section Clear

variable {lower : Str → Str} {phrases : List (Str × Str)}

/-- A spoken line of a block stands in the text of the block. -/
theorem within_of_spoken {w : Written} {l : Str} (hl : l ∈ w.spoken) :
    ∃ l' ∈ lines w.text, Within isWordEnd (spokenText l) l' := by
  have hspace : ∀ c, isSpace c = true → isWordEnd c = true := fun c hc => by simp [isWordEnd, hc]
  have hquoted : ∀ x, Within isWordEnd (spokenText x) x := fun x =>
    (within_strip hspace _).trans (within_lstripChar (by decide) x)
  obtain ⟨k, hk, rfl⟩ := List.mem_map.mp (List.mem_filter.mp hl).1
  rw [spokenText_rstrip]
  -- The first line carries the mark and a blank.
  obtain ⟨first, rest, hlines, hbody⟩ := lines_cons (c := ' ') (by decide) w.text
  obtain ⟨first', rest', hlines', hbody'⟩ := lines_cons (c := '>') (by decide) (' ' :: w.text)
  rw [hbody] at hlines'
  injection hlines' with hfirst hrest
  subst hfirst hrest
  rw [Written.body, hbody'] at hk
  rcases List.mem_cons.mp hk with rfl | hk
  · refine ⟨first, by rw [hlines]; exact List.mem_cons_self, ?_⟩
    have hspoken : spokenText ('>' :: ' ' :: first) = strip first := by
      rw [spokenText, lstripChar, List.dropWhile_cons_of_pos (by decide),
        List.dropWhile_cons_of_neg (by decide), strip_space_cons (by decide)]
    rw [hspoken]
    exact within_strip hspace first
  · exact ⟨k, by rw [hlines]; exact List.mem_cons_of_mem _ hk, hquoted k⟩

/-- Where no segment matches, no line does that comes from one. -/
theorem clear_of_segments (hlower : Lowers isWordEnd lower) {t : Transcription}
    {diar : List DiarSegment} {names : Names} (hne : t.segments ≠ [])
    (hsegments : ∀ seg ∈ t.segments, matchesAny lower phrases seg.said = false) :
    Clear lower phrases t diar names where
  text := by
    intro l hl
    by_cases hnil : l = []
    · rw [hnil]
      exact not_matchesAny_nil hlower
    · obtain ⟨seg, hseg, hline⟩ := mem_lines_transcriptionText hne hl hnil
      rw [← Bool.not_eq_true]
      intro hmatch
      have hwhole := matchesAny_of_within hlower (within_lines wordEnd_newline hline) hmatch
      rw [hsegments seg hseg] at hwhole
      cases hwhole
  tagged := by
    intro tagged htagged
    refine ⟨laysOut_merge htagged, fun u hu hone l hl => ?_⟩
    rw [utterances, if_neg hne] at hu
    obtain ⟨g, hg, rfl⟩ := List.mem_map.mp hu
    obtain ⟨p, ps, rfl⟩ := List.exists_cons_of_ne_nil (List.ne_nil_of_mem_splitBy hg)
    have hps : ps = [] := by simpa [utteranceOf] using hone
    subst hps
    have hp : p ∈ t.segments.filterMap (piece? diar) := by
      rw [← List.flatten_splitBy sameSpeaker (t.segments.filterMap (piece? diar))]
      exact List.mem_flatten_of_mem hg List.mem_cons_self
    obtain ⟨seg, hseg, hpiece⟩ := List.mem_filterMap.mp hp
    have htext : p.text = seg.said := by
      simp only [piece?, Option.bind_eq_bind, Option.bind_eq_some_iff] at hpiece
      obtain ⟨start, -, stop, -, hpiece⟩ := hpiece
      split at hpiece
      · cases hpiece
      · injection hpiece with hpiece
        rw [← hpiece]
        rfl
    obtain ⟨k, hk, rfl⟩ := List.mem_map.mp hl
    obtain ⟨l', hl', hin⟩ := within_of_spoken hk
    have hwritten : (utteranceOf names [p]).written.text = seg.said := by
      rw [← htext]
      exact joinSpaces_singleton p.text
    rw [hwritten] at hl'
    rw [← Bool.not_eq_true]
    intro hmatch
    have hwhole := matchesAny_of_within hlower
      (hin.trans (within_lines wordEnd_newline hl')) hmatch
    rw [hsegments seg hseg] at hwhole
    cases hwhole

/-- Without segments it is the raw text that decides. -/
theorem clear_of_raw (hlower : Lowers isWordEnd lower) {t : Transcription}
    {diar : List DiarSegment} {names : Names} (hnil : t.segments = []) :
    Clear lower phrases t diar names ↔
      ∀ l ∈ lines (strip (t.text.getD [])), matchesAny lower phrases l = false := by
  have htext : transcriptionText t = strip (t.text.getD []) := by
    rw [transcriptionText, if_neg (by simp [hnil])]
  constructor
  · intro h l hl
    exact h.text l (htext ▸ hl)
  · intro h
    refine ⟨fun l hl => h l (htext ▸ hl), fun tagged htagged => ?_⟩
    refine ⟨laysOut_merge htagged, fun u hu _ l hl => ?_⟩
    have hu' : u.written.text = strip (t.text.getD []) := by
      rw [utterances, if_pos hnil] at hu
      dsimp only at hu
      split at hu
      · split at hu
        · cases hu
        · rw [List.mem_singleton.mp hu]
          exact joinSpaces_singleton _
      · cases hu
    obtain ⟨k, hk, rfl⟩ := List.mem_map.mp hl
    obtain ⟨l', hl', hin⟩ := within_of_spoken hk
    rw [← Bool.not_eq_true]
    intro hmatch
    have hline := matchesAny_of_within hlower hin hmatch
    rw [h l' (hu' ▸ hl')] at hline
    cases hline

/-- **No forbidden phrase is stored** exactly when some segment matches none, or no line of the
raw text does. -/
theorem stored_clear_iff {lower : Str → Str} (hlower : Lowers isWordEnd lower) (rows : List Str)
    (t : Transcription) (diar : List DiarSegment) (names : Names) :
    Clear lower (activePhrases lower rows)
        (filterWhisperSegments lower (activePhrases lower rows) t) diar names ↔
      ((∃ seg ∈ t.segments, matchesAny lower (activePhrases lower rows) seg.said = false) ∨
        ∀ l ∈ lines (strip (t.text.getD [])),
          matchesAny lower (activePhrases lower rows) l = false) := by
  rcases @filterWhisperSegments_cases lower (activePhrases lower rows) t with
    ⟨hsame, hnone⟩ | ⟨hkept, hne⟩ | ⟨hall, hnil, htext, -⟩
  · rw [hsame]
    by_cases hnil : t.segments = []
    · rw [clear_of_raw hlower hnil, hnil]
      simp
    · obtain ⟨seg, rest, hsegments⟩ := List.exists_cons_of_ne_nil hnil
      have hseg : seg ∈ t.segments := by rw [hsegments]; exact List.mem_cons_self
      exact ⟨fun _ => .inl ⟨seg, hseg, hnone seg hseg⟩, fun _ => clear_of_segments hlower hnil hnone⟩
  · obtain ⟨seg, hseg⟩ := List.exists_mem_of_ne_nil _ hne
    have hmem := (List.mem_filter.mp hseg).1
    refine ⟨fun _ => .inl ⟨seg, hmem, not_matches_of_kept hseg⟩, fun _ => ?_⟩
    refine clear_of_segments hlower (by rw [hkept]; exact hne) fun seg' hseg' => ?_
    rw [hkept] at hseg'
    exact not_matches_of_kept hseg'
  · rw [clear_of_raw hlower hnil, htext]
    refine ⟨.inr, ?_⟩
    rintro (⟨seg, hseg, hnot⟩ | h)
    · rw [hall seg hseg] at hnot
      cases hnot
    · exact h

end Clear

/-! ## An audio file of which nothing is left -/

/-- `str.lower`, on ASCII texts. -/
def lowerAscii (s : Str) : Str := s.map Char.toLower

theorem lowers_lowerAscii : Lowers isWordEnd lowerAscii where
  nil := rfl
  at_sep := by
    intro a b c hc
    have hsame : c.toLower = c := by
      rw [Char.toLower, dif_neg]
      rintro ⟨hge, hle⟩
      have hge : 65 ≤ c.toNat := UInt32.le_iff_toNat_le.mp hge
      have hle : c.toNat ≤ 90 := UInt32.le_iff_toNat_le.mp hle
      simp only [isWordEnd, isSpace, Bool.or_eq_true, Bool.and_eq_true, decide_eq_true_eq,
        beq_iff_eq] at hc
      rcases hc with hspace | rfl
      · omega
      · revert hge
        decide
    simp [lowerAscii, hsame]

/-- A credit that Whisper makes up in a silence. -/
def credit : Str := "Sous-titrage FR".toList

/-- What the microphone recorded, and the credit after it. -/
def spokenAndCredit : Transcription :=
  ⟨[⟨.val 0, .val 2, some "Bonjour.".toList⟩, ⟨.val 2, .val 4, some credit⟩],
    some "Bonjour. Sous-titrage FR".toList, .val 4⟩

/-- Silence. -/
def onlyCredit : Transcription := ⟨[⟨.val 0, .val 2, some credit⟩], some credit, .val 2⟩

theorem credit_not_stored : Clear lowerAscii (activePhrases lowerAscii [credit])
    (filterWhisperSegments lowerAscii (activePhrases lowerAscii [credit]) spokenAndCredit) []
      fun _ => none :=
  (stored_clear_iff lowers_lowerAscii [credit] spokenAndCredit [] fun _ => none).mpr
    (.inl ⟨_, List.mem_cons_self, by decide +kernel⟩)

/-- **The credit is stored** when it is all that Whisper heard. -/
theorem credit_stored : ¬ ∀ lower, Lowers isWordEnd lower → ∀ rows, rows ≠ [] →
    ∀ t diar names, Clear lower (activePhrases lower rows)
      (filterWhisperSegments lower (activePhrases lower rows) t) diar names := by
  intro h
  have hclear := h lowerAscii lowers_lowerAscii [credit] (List.cons_ne_nil _ _) onlyCredit []
    fun _ => none
  have hline : credit ∈ lines (transcriptionText (filterWhisperSegments lowerAscii
      (activePhrases lowerAscii [credit]) onlyCredit)) := by decide +kernel
  have hmatch : matchesAny lowerAscii (activePhrases lowerAscii [credit]) credit = true := by
    decide +kernel
  rw [hclear.text credit hline] at hmatch
  cases hmatch

end MesReunions.Transcript
