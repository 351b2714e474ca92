import MesReunions.Base.Fields
import MesReunions.Base.Gather
import MesReunions.Base.RegexFind
import MesReunions.Base.Split

/-!
# The glossary of a preparation

`glossary_from_brief.py`: the terms that the content of a preparation and its documents hold, and
the sentence that prepares Whisper for them. Every field may hold any JSON value; `none` stands for
the `TypeError` of a value that cannot be iterated.

* `extractFullGlossaryTermsFromBrief`, `extractWhisperInitialPrompt` — the two functions.
* `IsParticipant` — the name of an entry of `participants_notes`.
* `TakenForPerson` — an agenda title with a blank, that comes early enough.
* **`glossary_iff`** — when neither raises, the terms are capped and the persons are participants.
-/

namespace MesReunions.Brief

open Str

/-- What `\w` matches, and `str.isupper` for one character. -/
structure CharTable where
  isWord : Char → Bool
  isUpper : Char → Bool

/-! ## Patterns -/

def isCapital (c : Char) : Bool := 65 ≤ c.toNat && c.toNat ≤ 90

/-- `_STOPWORDS_FR` -/
def stopwordsFr : List Str :=
  ["Le", "La", "Les", "Un", "Une", "Des", "De", "Du", "Au", "Aux",
    "Et", "Ou", "Mais", "Donc", "Or", "Ni", "Car",
    "Ce", "Cette", "Ces", "Cet",
    "Avec", "Sans", "Pour", "Par", "Sur", "Sous", "Dans", "Vers", "Chez",
    "Notre", "Votre", "Leur", "Mon", "Ton", "Son",
    "Plus", "Moins", "Très", "Trop", "Aussi",
    "Comment", "Pourquoi", "Quel", "Quelle", "Quels", "Quelles",
    "Sujet", "Objet", "Point", "Réunion", "Comité",
    "Si", "Selon", "Entre"].map String.toList

section Model

variable (t : CharTable)

/-- `_SIGLE_RE`: the classes hold characters of words only, so that the boundaries look outside. -/
def sigleRe : Regex Char Unit :=
  Regex.seqs [.notBehind t.isWord, .char isCapital, .plus isCapital, .opt (.plus isDigit),
    .notAhead t.isWord]

/-- `_PROPER_RE` -/
def properRe : Regex Char Unit :=
  let upper c := isCapital c || decide (c ∈ "ÉÈÊÀÂÏÔÛÇ".toList)
  let lower (c : Char) := (97 ≤ c.toNat && c.toNat ≤ 122) || decide (c ∈ "éèêàâïôûç".toList)
  Regex.seqs [.notBehind t.isWord, .char upper, .char lower, .char lower, .plus lower,
    .notAhead t.isWord]

/-! ## The extractors -/

/-- `items if isinstance(items, list) else []` -/
def listOf : Option Json → List Json
  | some (.list items) => items
  | _ => []

def strOf : Json → Option Str
  | .str s => some s
  | _ => none

/-- The value of a key, when it is a text. -/
def textAt (fields : List (Str × Json)) (key : String) : List Str :=
  ((Json.get? fields key.toList).bind strOf).toList

/-- `_text_fields(brief_json)` -/
def textFields (fields : List (Str × Json)) : List Str :=
  (["subject", "objective_reformulated", "context_summary"].flatMap (textAt fields)) ++
    ["participants_notes", "agenda", "open_threads", "risks"].flatMap fun key =>
      (listOf (Json.get? fields key.toList)).flatMap fun
        | .obj item =>
            (["name", "title", "summary", "source", "context", "role"].flatMap (textAt item)) ++
              (listOf (Json.get? item "key_questions".toList)).filterMap strOf
        | .str s => [s]
        | _ => []

/-- `_extract_sigles(texts)` -/
def extractSigles (texts : List Str) : List Str :=
  firsts [] (texts.flatMap (Regex.findMatches (sigleRe t)))

/-- `_extract_proper_nouns(texts)` -/
def extractProperNouns (texts : List Str) : List Str :=
  firsts [] ((texts.flatMap (Regex.findMatches (properRe t))).filter (· ∉ stopwordsFr))

/-- `tok.strip(".,;:()[]")` -/
def stripMarks (tok : Str) : Str :=
  let isMark (c : Char) : Bool := c ∈ ".,;:()[]".toList
  (tok.dropWhile isMark).rdropWhile isMark

/-- The names of one entry: its capitalised words, then the whole name. -/
def namesOf : Json → List Str
  | .obj item =>
      match Json.get? item "name".toList with
      | some (.str n) =>
          if strip n = [] then []
          else ((words n).map stripMarks).filter (fun cleaned =>
            cleaned.head?.any t.isUpper && decide (cleaned ∉ stopwordsFr)) ++ [strip n]
      | _ => []
  | _ => []

/-- `_participant_names(brief_json)` -/
def participantNames (fields : List (Str × Json)) : List Str :=
  (listOf (Json.get? fields "participants_notes".toList)).flatMap (namesOf t)

/-- The title of an agenda item. -/
def titleOf : Json → Option Str
  | .obj item =>
      match Json.get? item "title".toList with
      | some (.str s) => if strip s = [] then none else some (strip s)
      | _ => none
  | _ => none

/-- `_agenda_titles(brief_json)` -/
def agendaTitles (fields : List (Str × Json)) : Option (List Str) :=
  (Json.iterOr (Json.get? fields "agenda".toList)).map (·.filterMap titleOf)

/-- `counter[m] += 1` -/
def count (counter : List (Str × Nat)) (m : Str) : List (Str × Nat) :=
  if counter.any (fun e => e.1 == m) then
    counter.map fun e => if e.1 == m then (e.1, e.2 + 1) else e
  else counter ++ [(m, 1)]

/-- The sigles and the proper nouns of a document. -/
def documentTerms : Json → List Str
  | .obj d =>
      match Json.get? d "text_extract".toList with
      | some (.str text) => Regex.findMatches (sigleRe t) text ++
          (Regex.findMatches (properRe t) text).filter (· ∉ stopwordsFr)
      | _ => []
  | _ => []

/-- `_document_repeated_terms(documents)` -/
def documentRepeatedTerms (documents : Json) : Option (List Str) :=
  (Json.iterOr (some documents)).map fun ds =>
    let counter := (ds.flatMap (documentTerms t)).foldl count []
    ((counter.mergeSort fun a b => b.2 ≤ a.2).filter fun e =>
      2 ≤ e.2 && decide (5 ≤ e.1.length)).map (·.1)

/-! ## The prompt -/

def hasSpace (s : Str) : Bool := ' ' ∈ s

/-- `if t` -/
def nonEmpty (s : Str) : Option Str := if s = [] then none else some s

/-- The loop over the sources. -/
def selectFrom (maxTerms : Nat) : List (List Str) → List Str → List Str
  | [], selected => selected
  | src :: srcs, selected =>
      let selected := (gather maxTerms nonEmpty src selected).1
      if maxTerms ≤ selected.length then selected else selectFrom maxTerms srcs selected

/-- `selected` -/
def selectedTerms (brief : Json) (maxTerms : Nat) : Option (List Str) :=
  match brief with
  | .obj fields => do
      let sigles := (extractSigles t (textFields fields)).take 30
      let participants := (participantNames t fields).take 10
      let agendaTitles := (← agendaTitles fields).take 5
      some (selectFrom maxTerms [sigles, participants, agendaTitles] [])
  | _ => some []

/-- `persons` -/
def personsOf (selected : List Str) : List Str := (selected.filter hasSpace).take 5

def joinComma (texts : List Str) : Str := ", ".toList.intercalate texts

/-- The clause that names the persons. -/
def personsClause (persons : List Str) : Str :=
  match persons with
  | [] => []
  | [person] => "Réunion avec ".toList ++ person
  | _ => "Réunion entre ".toList ++ joinComma persons.dropLast ++ " et ".toList ++
      persons.getLastD []

/-- The sentence that is made of the terms. -/
def sentenceOf (selected : List Str) : Str :=
  if selected = [] then []
  else
    let persons := personsOf selected
    let isSigle := Regex.fullMatches (sigleRe t)
    let siglesPresent := (selected.filter isSigle).take 8
    let titles := (selected.filter fun s => decide (s ∉ persons) && !isSigle s).take 3
    let parts := (if persons = [] then [] else [personsClause persons]) ++
      (if siglesPresent = [] then []
        else ["sur les sujets ".toList ++ joinComma siglesPresent]) ++
      (if titles = [] then [] else ["abordant ".toList ++ joinComma titles])
    let sentence := strip (joinComma parts)
    if sentence ≠ [] ∧ sentence.getLast? ≠ some '.' then sentence ++ ['.'] else sentence

/-- `extract_whisper_initial_prompt(brief_json, documents, max_terms)` -/
def extractWhisperInitialPrompt (brief : Json) (maxTerms : Nat) : Option Str :=
  (selectedTerms t brief maxTerms).map (sentenceOf t)

/-! ## The full glossary -/

/-- What `_push` appends for an item. -/
def pushed (it : Str) : Option Str :=
  if it = [] then none
  else if (strip it).length < 2 ∨ strip it ∈ stopwordsFr then none
  else some (strip it)

/-- The long words of a text. -/
def longWords (text : Str) : List Str := (words text).filter fun w => 5 ≤ w.length

/-- The vocabulary of one agenda item. -/
def vocabOf : Json → List Str
  | .obj item => (textAt item "title").flatMap longWords ++
      ((listOf (Json.get? item "key_questions".toList)).filterMap strOf).flatMap longWords
  | _ => []

/-- `extract_full_glossary_terms_from_brief(brief_json, documents, cap)` -/
def extractFullGlossaryTermsFromBrief (brief documents : Json) (cap : Nat) : Option (List Str) :=
  match brief with
  | .obj fields =>
      let texts := textFields fields
      let (out, full) := gather cap pushed (extractSigles t texts) []
      if full then some out
      else
        let (out, full) := gather cap pushed (participantNames t fields) out
        if full then some out
        else
          let (out, full) := gather cap pushed (extractProperNouns t texts) out
          if full then some out
          else do
            let (out, full) := gather cap pushed (← documentRepeatedTerms t documents) out
            if full then some out
            else do
              let items ← Json.iterOr (Json.get? fields "agenda".toList)
              some (gather cap pushed (items.flatMap vocabOf) out).1
  | _ => some []

end Model

/-! ## The full glossary is capped -/

section Cap

variable {cap : Nat} {out : List Str}

theorem length_gather (items : List Str) (h : out.length < cap) :
    (gather cap pushed items out).1.length ≤ cap := by
  rw [gather_eq items h]
  exact List.length_take_le _ _

/-- When the limit is not reached, there is place for one more. -/
theorem length_gather_lt {items : List Str} (h : out.length < cap)
    (hfull : (gather cap pushed items out).2 = false) :
    (gather cap pushed items out).1.length < cap := by
  rw [gather_eq items h] at hfull ⊢
  have hshort := of_decide_eq_false hfull
  exact lt_of_le_of_lt (List.length_take_le' _ _) (Nat.not_le.mp hshort)

end Cap

section Laws

variable {t : CharTable} {fields : List (Str × Json)} {documents : Json} {cap maxTerms : Nat}

/-- The terms that are pushed before the documents are read. -/
def earlyItems (t : CharTable) (fields : List (Str × Json)) : List Str :=
  extractSigles t (textFields fields) ++
    (participantNames t fields ++ extractProperNouns t (textFields fields))

/-- What becomes of them, each one once. -/
def earlyTerms (t : CharTable) (fields : List (Str × Json)) : List Str :=
  firsts [] ((earlyItems t fields).filterMap pushed)

/-- The first three loops are one. -/
theorem extractFull_obj :
    extractFullGlossaryTermsFromBrief t (.obj fields) documents cap =
      (let (out, full) := gather cap pushed (earlyItems t fields) []
      if full then some out
      else do
        let (out, full) := gather cap pushed (← documentRepeatedTerms t documents) out
        if full then some out
        else do
          let items ← Json.iterOr (Json.get? fields "agenda".toList)
          some (gather cap pushed (items.flatMap vocabOf) out).1) := by
  rw [extractFullGlossaryTermsFromBrief, earlyItems, gather_append, gather_append]
  dsimp only
  by_cases hsigles : (gather cap pushed (extractSigles t (textFields fields)) []).2 = true
  · rw [if_pos hsigles, if_pos hsigles, if_pos hsigles]
  · rw [if_neg hsigles, if_neg hsigles]
    by_cases hnames : (gather cap pushed (participantNames t fields)
        (gather cap pushed (extractSigles t (textFields fields)) []).1).2 = true
    · rw [if_pos hnames, if_pos hnames, if_pos hnames]
    · rw [if_neg hnames, if_neg hnames]

/-- **The full glossary** of a content whose agenda can be iterated. -/
theorem extractFull_isSome (hcap : 1 ≤ cap)
    (hagenda : Json.isIterable (Json.get? fields "agenda".toList) = true) :
    (∃ terms, extractFullGlossaryTermsFromBrief t (.obj fields) documents cap = some terms ∧
      terms.length ≤ cap) ↔
      Json.isIterable (some documents) = true ∨ cap ≤ (earlyTerms t fields).length := by
  have hempty : ([] : List Str).length < cap := hcap
  have hfull : (gather cap pushed (earlyItems t fields) []).2 =
      decide (cap ≤ (earlyTerms t fields).length) := by
    rw [gather_eq _ hempty]
    rfl
  rw [extractFull_obj, documentRepeatedTerms, Json.iterOr_eq, Json.iterOr_eq, if_pos hagenda]
  dsimp only
  by_cases hearly : cap ≤ (earlyTerms t fields).length
  · rw [hfull, decide_eq_true hearly, if_pos rfl]
    exact ⟨fun _ => Or.inr hearly, fun _ => ⟨_, rfl, length_gather _ hempty⟩⟩
  · have hopen : (gather cap pushed (earlyItems t fields) []).2 = false := by
      rw [hfull, decide_eq_false hearly]
    rw [hopen, if_neg Bool.false_ne_true]
    by_cases hdocuments : Json.isIterable (some documents) = true
    · rw [if_pos hdocuments]
      refine ⟨fun _ => Or.inl hdocuments, fun _ => ?_⟩
      have hroom := length_gather_lt hempty hopen
      simp only [Option.map_some, Option.bind_eq_bind, Option.bind_some]
      split
      · exact ⟨_, rfl, length_gather _ hroom⟩
      · rename_i hmore
        exact ⟨_, rfl, length_gather _ (length_gather_lt hroom (Bool.not_eq_true _ ▸ hmore))⟩
    · rw [if_neg hdocuments]
      constructor
      · rintro ⟨terms, hterms, -⟩
        cases hterms
      · rintro (hd | he)
        · exact absurd hd hdocuments
        · exact absurd he hearly

/-! ## The persons of the prompt -/

/-- **A participant**: the name of an entry of `participants_notes`, without the blanks around it. -/
def IsParticipant (fields : List (Str × Json)) (person : Str) : Prop :=
  ∃ item n, Json.obj item ∈ listOf (Json.get? fields "participants_notes".toList) ∧
    Json.get? item "name".toList = some (.str n) ∧ person = strip n

theorem hasSpace_sigle {texts : List Str} {s : Str} (hs : s ∈ extractSigles t texts) :
    hasSpace s = false := by
  obtain ⟨text, -, hmatch⟩ := List.mem_flatMap.mp (mem_firsts.mp hs).1
  have hover : Regex.Over (fun c => isCapital c || isDigit c) (sigleRe t) :=
    ⟨trivial, fun c hc => by simp [hc], fun c hc => by simp [hc], fun c hc => by simp [hc],
      trivial, trivial⟩
  have hchars := Regex.mem_findMatches hover hmatch
  refine decide_eq_false fun hspace => ?_
  have hblank := hchars ' ' hspace
  exact absurd hblank (by decide)

/-- A name with a blank is a whole name. -/
theorem isParticipant_of_mem {name : Str} (h : name ∈ participantNames t fields)
    (hspace : hasSpace name = true) : IsParticipant fields name := by
  obtain ⟨entry, hentry, hname⟩ := List.mem_flatMap.mp h
  unfold namesOf at hname
  split at hname
  · rename_i item
    split at hname
    · rename_i n hn
      split at hname
      · exact absurd hname List.not_mem_nil
      · rcases List.mem_append.mp hname with hword | hwhole
        · -- A word of the name holds no blank.
          obtain ⟨w, hw, rfl⟩ := List.mem_map.mp (List.mem_filter.mp hword).1
          have hmem : ' ' ∈ w := by
            have hin := of_decide_eq_true hspace
            exact (List.dropWhile_sublist _).subset ((List.rdropWhile_prefix _ _).subset hin)
          exact absurd (not_space_of_mem_words hw ' ' hmem) (by decide)
        · exact ⟨item, n, hentry, hn, List.mem_singleton.mp hwhole⟩
    · exact absurd hname List.not_mem_nil
  · exact absurd hname List.not_mem_nil

/-- The sources of the prompt, before the agenda. -/
def earlySources (t : CharTable) (fields : List (Str × Json)) : List Str :=
  (extractSigles t (textFields fields)).take 30 ++ (participantNames t fields).take 10

/-- The distinct terms of the sources, and of the first titles. -/
def termsBefore (t : CharTable) (fields : List (Str × Json)) (titles : List Str) : List Str :=
  firsts [] ((earlySources t fields ++ titles).filterMap nonEmpty)

/-- **A title taken for a person**: among the first five, with a blank, and early enough among the
distinct terms. -/
def TakenForPerson (t : CharTable) (fields : List (Str × Json)) (maxTerms : Nat) (title : Str) :
    Prop :=
  ∃ titles pre post, agendaTitles fields = some titles ∧ titles.take 5 = pre ++ title :: post ∧
    hasSpace title = true ∧ title ∉ earlySources t fields ++ pre ∧
    (termsBefore t fields pre).length < maxTerms ∧
    ((termsBefore t fields pre).filter hasSpace).length < 5

theorem nonEmpty_of_hasSpace {s : Str} (h : hasSpace s = true) : nonEmpty s = some s :=
  if_neg fun hs => by
    rw [hs] at h
    cases h

theorem mem_of_nonEmpty {items : List Str} {s : Str} (h : s ∈ items.filterMap nonEmpty) :
    s ∈ items := by
  obtain ⟨y, hy, hclean⟩ := List.mem_filterMap.mp h
  rw [nonEmpty] at hclean
  split at hclean
  · cases hclean
  · rwa [← Option.some.inj hclean]

/-- The loop over the sources is one loop. -/
theorem selectFrom_eq (srcs : List (List Str)) {selected : List Str}
    (h : selected.length < maxTerms) :
    selectFrom maxTerms srcs selected = (gather maxTerms nonEmpty srcs.flatten selected).1 := by
  induction srcs generalizing selected with
  | nil => rfl
  | cons src srcs ih =>
      have hsource : gather maxTerms nonEmpty src selected = _ := gather_eq src h
      rw [selectFrom, List.flatten_cons, gather_append]
      split
      · rename_i hfull
        rw [if_pos]
        rw [hsource] at hfull ⊢
        refine decide_eq_true (le_trans hfull ?_)
        exact List.length_take_le' _ _
      · rename_i hopen
        rw [if_neg, ih (Nat.not_le.mp hopen)]
        intro htrue
        rw [hsource] at htrue hopen
        rw [List.length_take, Nat.min_eq_left (of_decide_eq_true htrue)] at hopen
        exact hopen le_rfl

/-- Without room, the sigles come alone. -/
theorem selectFrom_zero {src : List Str} {srcs : List (List Str)} {s : Str}
    (h : s ∈ selectFrom 0 (src :: srcs) []) : s ∈ src := by
  rw [selectFrom, if_pos (Nat.zero_le _)] at h
  rcases mem_of_mem_gather h with hnil | ⟨y, hy, hclean⟩
  · exact absurd hnil List.not_mem_nil
  · exact mem_of_nonEmpty (List.mem_filterMap.mpr ⟨y, hy, hclean⟩)

/-- **Which terms are persons**, for a title that comes in the agenda first. -/
theorem title_mem_persons {pre post : List Str} {title : Str} (hspace : hasSpace title = true)
    (hnew : title ∉ earlySources t fields ++ pre) {titles : List Str}
    (htitles : titles.take 5 = pre ++ title :: post) :
    title ∈ personsOf (selectFrom maxTerms [(extractSigles t (textFields fields)).take 30,
        (participantNames t fields).take 10, titles.take 5] []) ↔
      (termsBefore t fields pre).length < maxTerms ∧
        ((termsBefore t fields pre).filter hasSpace).length < 5 := by
  cases maxTerms with
  | zero =>
      refine iff_of_false (fun h => ?_) fun h => absurd h.1 (Nat.not_lt_zero _)
      have hsigle := selectFrom_zero (List.mem_filter.mp (List.mem_of_mem_take h)).1
      have hnone := hasSpace_sigle (List.mem_of_mem_take hsigle)
      rw [hspace] at hnone
      cases hnone
  | succ maxTerms =>
      have hempty : ([] : List Str).length < maxTerms + 1 := Nat.succ_pos _
      have hsources : ([(extractSigles t (textFields fields)).take 30,
          (participantNames t fields).take 10, titles.take 5].flatten).filterMap nonEmpty =
          (earlySources t fields ++ pre).filterMap nonEmpty ++
            title :: post.filterMap nonEmpty := by
        rw [htitles, earlySources]
        simp [nonEmpty_of_hasSpace hspace]
      have hbefore : title ∉ (earlySources t fields ++ pre).filterMap nonEmpty := fun h =>
        hnew (mem_of_nonEmpty h)
      rw [personsOf, selectFrom_eq _ hempty, gather_eq _ hempty, List.nil_append, hsources]
      exact mem_take_firsts hbefore hspace _ _

/-- **The persons are participants** exactly when every title taken for one is. -/
theorem persons_iff {titles : List Str} (htitles : agendaTitles fields = some titles) :
    (∀ p ∈ personsOf (selectFrom maxTerms [(extractSigles t (textFields fields)).take 30,
        (participantNames t fields).take 10, titles.take 5] []), IsParticipant fields p) ↔
      ∀ title, TakenForPerson t fields maxTerms title → IsParticipant fields title := by
  constructor
  · rintro h title ⟨titles', pre, post, htitles', htake, hspace, hnew, hlength, hpersons⟩
    rw [htitles] at htitles'
    cases htitles'
    exact h title ((title_mem_persons hspace hnew htake).mpr ⟨hlength, hpersons⟩)
  · intro h p hp
    have hspace : hasSpace p = true :=
      (List.mem_filter.mp (List.mem_of_mem_take hp)).2
    by_cases hsigle : p ∈ extractSigles t (textFields fields)
    · rw [hasSpace_sigle hsigle] at hspace
      cases hspace
    by_cases hname : p ∈ participantNames t fields
    · exact isParticipant_of_mem hname hspace
    -- What is neither comes from the agenda.
    have hselected := (List.mem_filter.mp (List.mem_of_mem_take hp)).1
    have htitle : p ∈ titles.take 5 := by
      cases maxTerms with
      | zero => exact absurd (List.mem_of_mem_take (selectFrom_zero hselected)) hsigle
      | succ maxTerms =>
          rw [selectFrom_eq _ (Nat.succ_pos _)] at hselected
          rcases mem_of_mem_gather hselected with hnil | ⟨y, hy, hclean⟩
          · exact absurd hnil List.not_mem_nil
          · have hmem := mem_of_nonEmpty (List.mem_filterMap.mpr ⟨y, hy, hclean⟩)
            obtain ⟨src, hsrc, hmem⟩ := List.mem_flatten.mp hmem
            simp only [List.mem_cons, List.not_mem_nil, or_false] at hsrc
            rcases hsrc with rfl | rfl | rfl
            · exact absurd (List.mem_of_mem_take hmem) hsigle
            · exact absurd (List.mem_of_mem_take hmem) hname
            · exact hmem
    obtain ⟨pre, post, htake, hpre⟩ := List.eq_append_cons_of_mem htitle
    have hnew : p ∉ earlySources t fields ++ pre := by
      intro hmem
      rcases List.mem_append.mp hmem with hearly | hmem
      · rcases List.mem_append.mp hearly with hmem | hmem
        · exact hsigle (List.mem_of_mem_take hmem)
        · exact hname (List.mem_of_mem_take hmem)
      · exact hpre hmem
    have hcounts := (title_mem_persons hspace hnew htake).mp hp
    exact h p ⟨titles, pre, post, htitles, htake, hspace, hnew, hcounts.1, hcounts.2⟩

end Laws

/-! ## Total, capped and faithful -/

/-- Neither function raises, the glossary is capped, and the persons that the prompt names are
participants. -/
structure Faithful (t : CharTable) (brief documents : Json) (cap maxTerms : Nat) : Prop where
  glossary : ∃ terms, extractFullGlossaryTermsFromBrief t brief documents cap = some terms ∧
    terms.length ≤ cap
  prompt : ∃ selected, selectedTerms t brief maxTerms = some selected ∧
    extractWhisperInitialPrompt t brief maxTerms = some (sentenceOf t selected) ∧
    ∀ p ∈ personsOf selected, ∃ fields, brief = .obj fields ∧ IsParticipant fields p

/-- The agenda can be iterated, so can the documents unless they are not read, and the titles taken
for persons are participants. -/
def Expected (t : CharTable) (brief documents : Json) (cap maxTerms : Nat) : Prop :=
  ∀ fields, brief = .obj fields →
    Json.isIterable (Json.get? fields "agenda".toList) = true ∧
    (Json.isIterable (some documents) = true ∨ cap ≤ (earlyTerms t fields).length) ∧
    ∀ title, TakenForPerson t fields maxTerms title → IsParticipant fields title

/-- **Extraction** is total, capped and faithful exactly on the expected contents. -/
theorem glossary_iff (t : CharTable) (brief documents : Json) {cap : Nat} (hcap : 1 ≤ cap)
    (maxTerms : Nat) :
    Faithful t brief documents cap maxTerms ↔ Expected t brief documents cap maxTerms := by
  by_cases hobj : ∃ fields, brief = .obj fields
  · obtain ⟨fields, rfl⟩ := hobj
    by_cases hagenda : Json.isIterable (Json.get? fields "agenda".toList) = true
    · have htitles : agendaTitles fields =
          some ((Json.elements (Json.get? fields "agenda".toList)).filterMap titleOf) := by
        rw [agendaTitles, Json.iterOr_eq, if_pos hagenda]
        rfl
      have hselected : selectedTerms t (.obj fields) maxTerms = some (selectFrom maxTerms
          [(extractSigles t (textFields fields)).take 30, (participantNames t fields).take 10,
            ((Json.elements (Json.get? fields "agenda".toList)).filterMap titleOf).take 5] []) := by
        rw [selectedTerms]
        dsimp only
        rw [htitles]
        rfl
      have hpersons := @persons_iff t fields maxTerms _ htitles
      have hglossary := @extractFull_isSome t fields documents cap hcap hagenda
      constructor
      · intro h fields' heq
        cases heq
        refine ⟨hagenda, hglossary.mp h.glossary, hpersons.mp fun p hp => ?_⟩
        obtain ⟨selected, hsel, -, hnamed⟩ := h.prompt
        rw [hselected] at hsel
        cases hsel
        obtain ⟨fields', heq, hparticipant⟩ := hnamed p hp
        cases heq
        exact hparticipant
      · intro h
        obtain ⟨-, hdocuments, htaken⟩ := h fields rfl
        refine ⟨hglossary.mpr hdocuments, _, hselected, ?_, fun p hp =>
          ⟨fields, rfl, hpersons.mpr htaken p hp⟩⟩
        rw [extractWhisperInitialPrompt, hselected]
        rfl
    · refine iff_of_false (fun h => ?_) fun h => hagenda (h fields rfl).1
      obtain ⟨selected, hsel, -⟩ := h.prompt
      rw [selectedTerms] at hsel
      dsimp only at hsel
      rw [agendaTitles, Json.iterOr_eq, if_neg hagenda] at hsel
      cases hsel
  · have hfull : extractFullGlossaryTermsFromBrief t brief documents cap = some [] := by
      cases brief with
      | obj fields => exact absurd ⟨fields, rfl⟩ hobj
      | _ => rfl
    have hselected : selectedTerms t brief maxTerms = some [] := by
      cases brief with
      | obj fields => exact absurd ⟨fields, rfl⟩ hobj
      | _ => rfl
    refine iff_of_true ⟨⟨[], hfull, Nat.zero_le _⟩, [], hselected, ?_, ?_⟩
      fun fields heq => absurd ⟨fields, heq⟩ hobj
    · rw [extractWhisperInitialPrompt, hselected]
      rfl
    · exact fun p hp => absurd hp List.not_mem_nil

/-- Words and capitals of ASCII texts. -/
def asciiTable : CharTable := ⟨fun c => c.isAlphanum || c = '_', Char.isUpper⟩

/-- A content with a title in its agenda, and no participant. -/
def oneTitle : Json :=
  .obj [("agenda".toList, .list [.obj [("title".toList, .str "Budget annuel".toList)]])]

theorem glossary_iff_one_title : 1 ≤ 200 ∧
    (Faithful asciiTable oneTitle (.list []) 200 50 ↔
      Expected asciiTable oneTitle (.list []) 200 50) :=
  ⟨by decide, glossary_iff asciiTable oneTitle (.list []) (by decide) 50⟩

/-- The title is named for a person: `Réunion avec Budget annuel.` -/
theorem title_named : ¬ Faithful asciiTable oneTitle (.list []) 200 50 := by
  intro h
  obtain ⟨selected, hselected, -, hpersons⟩ := h.prompt
  have hone : selectedTerms asciiTable oneTitle 50 = some ["Budget annuel".toList] := by
    decide +kernel
  rw [hone] at hselected
  cases hselected
  obtain ⟨fields, heq, item, n, hentry, -⟩ := hpersons "Budget annuel".toList (by decide)
  cases heq
  exact absurd hentry List.not_mem_nil

end MesReunions.Brief
