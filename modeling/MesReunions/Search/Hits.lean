import Mathlib.Data.List.Sort
import MesReunions.Search.Texts

/-!
# The hits of a search

`run_search` of `meeting_search.py`, from the rows that were selected: the texts of all rows are
highlighted together, and each passage found is a hit of the row whose text it is.

* `rowTexts`, `extraTexts` — the texts, each under the row and the field it comes from.
* `markedByKey` — the passages, by their place in the list of keys.
* `Registered` — what a passage is a marked copy of.
* **`hits_quote`** — a hit quotes a text of its own row, and never a hidden block.
* **`subtitle_speaker`** — a subtitle has no speaker.
-/

namespace MesReunions.Search

open Str Llm

variable {ι : Type} [DecidableEq ι]

/-! ## The rows -/

/-- A row that was selected, with the columns that a hit depends on. -/
structure Row (ι : Type) where
  id : ι
  suggestedFilename : Option Str
  vsTitle : Option Str
  originalFilename : Option Str
  keyPointsSummary : Option Str
  speakerTaggedText : Option Str
  hiddenBlockIndices : List Int
  sourceType : Option Str

/-- `reparse_blocks` -/
abbrev Reparse := Str → List Reparsed

/-- The blocks of a row. -/
def Row.blocks (reparse : Reparse) (r : Row ι) : List Block :=
  blocksFromReparsed (reparse (r.speakerTaggedText.getD []))

/-- `a or b` -/
def orText (a b : Option Str) : Option Str := if a.getD [] ≠ [] then a else b

/-- The title, before it is replaced when it is empty. -/
def Row.title (r : Row ι) : Str :=
  cleanText (orText (orText r.suggestedFilename r.vsTitle) r.originalFilename)

/-- `HEADLINE_MAX_CHARS` -/
def headlineMaxChars : Nat := 50000

/-- `MAX_HITS` -/
def maxHits : Nat := 3

/-- The two queries. `ts_headline` returns some of the texts, with marks in them; the text of a
meeting is found under its own identifier. -/
structure Postgres (ι : Type) where
  headlines : List Str → List (Nat × Str)
  nodup : ∀ texts, ((headlines texts).map Prod.fst).Nodup
  inserted : ∀ texts, ∀ p ∈ headlines texts, ∃ t, texts[p.1]? = some t ∧ Inserted t p.2
  fullTexts : List ι → List (ι × Str)
  asked : ∀ ids, ∀ p ∈ fullTexts ids, p.1 ∈ ids

/-! ## The texts -/

inductive Field where
  | transcript
  | keyPoints
  | title
  deriving DecidableEq

/-- `_FIELD_ORDER` -/
def Field.order : Field → Nat
  | transcript => 0
  | keyPoints => 1
  | title => 2

/-- The row, the field, and the block. -/
structure Key where
  ri : Nat
  field : Field
  bi : Option Int

/-- The texts of a row. -/
def rowTexts (reparse : Reparse) (ri : Nat) (r : Row ι) : List (Key × Str) :=
  ((r.blocks reparse).zipIdx.filterMap fun b =>
    if (b.2 : Int) ∈ r.hiddenBlockIndices ∨ b.1.text = [] then none
    else some (⟨ri, .transcript, some b.2⟩, b.1.text)) ++
  ((if flattenKeyPoints r.keyPointsSummary ≠ [] then
    [(⟨ri, .keyPoints, none⟩, flattenKeyPoints r.keyPointsSummary)] else []) ++
  ((if r.title ≠ [] then [(⟨ri, .title, none⟩, r.title)] else []) ++
  if cleanText r.vsTitle ≠ [] ∧ cleanText r.vsTitle ≠ r.title then
    [(⟨ri, .title, some (-1)⟩, cleanText r.vsTitle)] else []))

/-- `keys` and `texts`, before the texts of the rows that have no blocks. -/
def allTexts (reparse : Reparse) (rows : List (Row ι)) : List (Key × Str) :=
  rows.zipIdx.flatMap fun r => rowTexts reparse r.2 r.1

/-- `no_blocks`, each with its row. -/
def noBlocks (reparse : Reparse) (rows : List (Row ι)) : List (Row ι × Nat) :=
  rows.zipIdx.filter fun r => (r.1.blocks reparse).isEmpty

/-- `index_by_id[uid]` -/
def indexById (rows : List (Row ι × Nat)) (uid : ι) : Option Nat :=
  (rows.reverse.find? fun r => r.1.id == uid).map Prod.snd

/-- `bodies` -/
def bodies (db : Postgres ι) (reparse : Reparse) (rows : List (Row ι)) : List (ι × Str) :=
  if (noBlocks reparse rows).isEmpty then []
  else db.fullTexts ((noBlocks reparse rows).map fun r => r.1.id)

/-- `extra_keys` and `extra_texts` -/
def extraTexts (db : Postgres ι) (reparse : Reparse) (rows : List (Row ι)) :
    List (Key × Str) :=
  (bodies db reparse rows).filterMap fun b =>
    let flat := flattenTranscript (some b.2)
    if flat ≠ [] then
      (indexById (noBlocks reparse rows) b.1).map fun ri => (⟨ri, .transcript, none⟩, flat)
    else none

/-- `_headlines(db, q, texts)` -/
def headlines (db : Postgres ι) (texts : List Str) : List (Nat × Str) :=
  if texts.isEmpty then [] else db.headlines (texts.map (·.take headlineMaxChars))

/-- `keys` and `marked_by_key` as the second query goes on. -/
def addExtra (extraKeys : List Key) (st : List Key × List (Nat × Str)) (p : Nat × Str) :
    List Key × List (Nat × Str) :=
  match extraKeys[p.1]? with
  | some key => (st.1 ++ [key], st.2 ++ [(st.1.length, p.2)])
  | none => st

/-- `keys` and `marked_by_key` -/
def markedByKey (db : Postgres ι) (reparse : Reparse) (rows : List (Row ι)) :
    List Key × List (Nat × Str) :=
  let all := allTexts reparse rows
  let extra := extraTexts db reparse rows
  (headlines db (extra.map Prod.snd)).foldl (addExtra (extra.map Prod.fst))
    (all.map Prod.fst, headlines db (all.map Prod.snd))

/-! ## The hits -/

/-- A passage of a row. -/
structure Candidate where
  distinct : Nat
  field : Field
  bi : Option Int
  plain : Str
  spans : List (Nat × Nat)

/-- The candidates of the row `ri`, in the order of `marked_by_key`. -/
def candidates (lower : Str → Str) (marked : List Key × List (Nat × Str)) (ri : Nat) :
    List Candidate :=
  marked.2.filterMap fun p =>
    match marked.1[p.1]? with
    | some key =>
        if key.ri = ri ∧ (parseMarked p.2).2 ≠ [] then
          some ⟨((parseMarked p.2).2.map fun s =>
              lower (slice (parseMarked p.2).1 s.1 s.2)).dedup.length,
            key.field, key.bi, (parseMarked p.2).1, (parseMarked p.2).2⟩
        else none
    | none => none

/-- The order of the hits: `(-distinct, order of the field, block)`. -/
def Candidate.before (a b : Candidate) : Bool :=
  decide (b.distinct < a.distinct) || (a.distinct == b.distinct &&
    (decide (a.field.order < b.field.order) || (a.field.order == b.field.order &&
      decide (a.bi.getD 0 ≤ b.bi.getD 0))))

/-- `_as_seconds(value)`, or `none` when an infinite value raises. -/
def asSeconds : Option PyFloat → Option (Option Int)
  | none => some none
  | some (.fin q) => some (some (roundHalfEven q))
  | some .nan => some none
  | some (.inf _) => none

structure Hit where
  snippet : Str
  highlights : List (Nat × Nat)
  field : Field
  location : Option (Option Int × Option Int)
  speaker : Option Str
  deriving DecidableEq

def youtubeSubtitle : Str := "youtube_subtitle".toList

/-- A hit, from a candidate. -/
def hitOf (reparse : Reparse) (r : Row ι) (c : Candidate) : Option Hit :=
  let snippet := buildSnippet c.plain c.spans snippetMaxChars
  match c.field, c.bi with
  | .transcript, some bi => do
      let b ← (r.blocks reparse)[bi.toNat]?
      let start ← asSeconds b.start
      let stop ← asSeconds b.stop
      some ⟨snippet.1, snippet.2, .transcript, some (start, stop),
        if r.sourceType = some youtubeSubtitle then none else b.speaker⟩
  | field, _ => some ⟨snippet.1, snippet.2, field, none, none⟩

structure Result (ι : Type) where
  uafId : ι
  title : Str
  hits : List Hit
  deriving DecidableEq

/-- A result. -/
def resultOf (db : Postgres ι) (lower : Str → Str) (reparse : Reparse) (rows : List (Row ι))
    (r : Row ι × Nat) : Option (Result ι) := do
  let hits ← (((candidates lower (markedByKey db reparse rows) r.2).insertionSort
    fun a b => a.before b = true).take maxHits).mapM (hitOf reparse r.1)
  some ⟨r.1.id, if r.1.title ≠ [] then r.1.title else "Réunion".toList, hits⟩

/-- `run_search`, after the rows are selected; `none` when it raises. -/
def runSearch (db : Postgres ι) (lower : Str → Str) (reparse : Reparse)
    (rows : List (Row ι)) : Option (List (Result ι)) :=
  rows.zipIdx.mapM (resultOf db lower reparse rows)

/-! ## What a hit says -/

/-- The snippet is a part of the text, with an ellipsis where something is left out. -/
def QuotesText (snippet t : Str) : Prop :=
  ∃ before body after, t = before ++ body ++ after ∧
    ∃ pre ∈ [[], ['…']], ∃ suf ∈ [[], ['…']], snippet = pre ++ body ++ suf

/-- The hit quotes a block that is not hidden, and says when it is and, with the function
`speaker`, who speaks. -/
def QuotesBlock (speaker : Row ι → Block → Option Str) (reparse : Reparse) (r : Row ι)
    (hit : Hit) : Prop :=
  ∃ (bi : Nat) (b : Block), (r.blocks reparse)[bi]? = some b ∧ (bi : Int) ∉ r.hiddenBlockIndices ∧
    QuotesText hit.snippet b.text ∧ hit.speaker = speaker r b ∧
    ∃ start stop, asSeconds b.start = some start ∧ asSeconds b.stop = some stop ∧
      hit.location = some (start, stop)

/-- The hit quotes a text of the row. -/
def Quotes (db : Postgres ι) (speaker : Row ι → Block → Option Str) (reparse : Reparse)
    (rows : List (Row ι)) (r : Row ι) (hit : Hit) : Prop :=
  match hit.field with
  | .transcript => QuotesBlock speaker reparse r hit ∨
      r.blocks reparse = [] ∧ hit.location = none ∧ hit.speaker = none ∧
        ∃ body, (r.id, body) ∈ bodies db reparse rows ∧
          QuotesText hit.snippet (flattenTranscript (some body))
  | .keyPoints => QuotesText hit.snippet (flattenKeyPoints r.keyPointsSummary)
  | .title => QuotesText hit.snippet r.title ∨ QuotesText hit.snippet (cleanText r.vsTitle)

/-! ## Where a text comes from -/

/-- A text of the row `r`, under its field and its block. -/
inductive TextOf (db : Postgres ι) (reparse : Reparse) (rows : List (Row ι)) (r : Row ι) :
    Field → Option Int → Str → Prop
  | block (bi : Nat) (b : Block) : (r.blocks reparse)[bi]? = some b →
      (bi : Int) ∉ r.hiddenBlockIndices → TextOf db reparse rows r .transcript (some bi) b.text
  | keyPoints : TextOf db reparse rows r .keyPoints none (flattenKeyPoints r.keyPointsSummary)
  | title : TextOf db reparse rows r .title none r.title
  | vsTitle : TextOf db reparse rows r .title (some (-1)) (cleanText r.vsTitle)
  | full (body : Str) : r.blocks reparse = [] → (r.id, body) ∈ bodies db reparse rows →
      TextOf db reparse rows r .transcript none (flattenTranscript (some body))

theorem TextOf.unmarked {db : Postgres ι} {reparse : Reparse} {rows : List (Row ι)} {r : Row ι}
    {field : Field} {bi : Option Int} {t : Str} (h : TextOf db reparse rows r field bi t) :
    Unmarked t := by
  cases h with
  | block bi b hb _ =>
      obtain ⟨reparsed, -, rfl⟩ := List.mem_map.mp (List.mem_of_getElem? hb)
      exact unmarked_cleanText _
  | keyPoints => exact unmarked_flattenKeyPoints _
  | title => exact unmarked_cleanText _
  | vsTitle => exact unmarked_cleanText _
  | full body _ _ => exact unmarked_cleanText _

/-- The text is registered under the key. -/
def Registered (db : Postgres ι) (reparse : Reparse) (rows : List (Row ι)) (key : Key)
    (t : Str) : Prop :=
  ∃ r, rows[key.ri]? = some r ∧ TextOf db reparse rows r key.field key.bi t

theorem textOf_rowTexts (db : Postgres ι) {reparse : Reparse} (rows : List (Row ι)) {ri : Nat}
    {r : Row ι} {p : Key × Str} (h : p ∈ rowTexts reparse ri r) :
    p.1.ri = ri ∧ TextOf db reparse rows r p.1.field p.1.bi p.2 := by
  rcases List.mem_append.mp h with h | h
  · -- A block.
    obtain ⟨⟨b, bi⟩, hb, hsome⟩ := List.mem_filterMap.mp h
    split at hsome
    · cases hsome
    · rename_i hshown
      cases hsome
      rw [not_or] at hshown
      have hget := List.mem_zipIdx_iff_getElem?.mp hb
      exact ⟨rfl, .block bi b hget hshown.1⟩
  rcases List.mem_append.mp h with h | h
  · split at h
    · cases List.mem_singleton.mp h
      exact ⟨rfl, .keyPoints⟩
    · cases h
  rcases List.mem_append.mp h with h | h
  · split at h
    · cases List.mem_singleton.mp h
      exact ⟨rfl, .title⟩
    · cases h
  · split at h
    · cases List.mem_singleton.mp h
      exact ⟨rfl, .vsTitle⟩
    · cases h

theorem registered_allTexts (db : Postgres ι) {reparse : Reparse} {rows : List (Row ι)}
    {p : Key × Str} (h : p ∈ allTexts reparse rows) : Registered db reparse rows p.1 p.2 := by
  obtain ⟨⟨r, ri⟩, hr, hp⟩ := List.mem_flatMap.mp h
  obtain ⟨hri, htext⟩ := textOf_rowTexts db rows hp
  refine ⟨r, ?_, htext⟩
  rw [hri]
  exact List.mem_zipIdx_iff_getElem?.mp hr

theorem registered_extraTexts {db : Postgres ι} {reparse : Reparse} {rows : List (Row ι)}
    {p : Key × Str} (h : p ∈ extraTexts db reparse rows) :
    Registered db reparse rows p.1 p.2 := by
  obtain ⟨⟨uid, body⟩, hbody, hsome⟩ := List.mem_filterMap.mp h
  dsimp only at hsome
  split at hsome
  · obtain ⟨ri, hri, rfl⟩ := Option.map_eq_some_iff.mp hsome
    obtain ⟨⟨r, ri'⟩, hfind, rfl⟩ := Option.map_eq_some_iff.mp hri
    have hmem := List.mem_reverse.mp (List.mem_of_find?_eq_some hfind)
    have hid := List.find?_some hfind
    obtain ⟨hzip, hempty⟩ := List.mem_filter.mp hmem
    simp only [beq_iff_eq] at hid
    subst hid
    refine ⟨r, List.mem_zipIdx_iff_getElem?.mp hzip, .full body ?_ hbody⟩
    simpa using hempty
  · cases hsome

/-! ## The passages -/

/-- Each passage is a copy, with marks, of the text registered under its key. -/
def Marked (db : Postgres ι) (reparse : Reparse) (rows : List (Row ι))
    (st : List Key × List (Nat × Str)) : Prop :=
  ∀ p ∈ st.2, ∃ key t, st.1[p.1]? = some key ∧ Registered db reparse rows key t ∧
    Inserted (t.take headlineMaxChars) p.2

/-- What `_headlines` returns. -/
theorem headlines_spec (db : Postgres ι) {texts : List Str} {p : Nat × Str}
    (h : p ∈ headlines db texts) :
    ∃ t, texts[p.1]? = some t ∧ Inserted (t.take headlineMaxChars) p.2 := by
  rw [headlines] at h
  split at h
  · cases h
  · obtain ⟨t, ht, hinserted⟩ := db.inserted _ p h
    rw [List.getElem?_map, Option.map_eq_some_iff] at ht
    obtain ⟨whole, hwhole, rfl⟩ := ht
    exact ⟨whole, hwhole, hinserted⟩

/-- The text and the key at one place of two parallel lists. -/
theorem exists_key {all : List (Key × Str)} {k : Nat} {t : Str}
    (h : (all.map Prod.snd)[k]? = some t) :
    ∃ key, (all.map Prod.fst)[k]? = some key ∧ (key, t) ∈ all := by
  rw [List.getElem?_map, Option.map_eq_some_iff] at h
  obtain ⟨p, hp, rfl⟩ := h
  exact ⟨p.1, by rw [List.getElem?_map, hp]; rfl, List.mem_of_getElem? hp⟩

/-- A key that is appended leaves the places of the others. -/
theorem Marked.addExtra {db : Postgres ι} {reparse : Reparse} {rows : List (Row ι)}
    {st : List Key × List (Nat × Str)} (h : Marked db reparse rows st) {extraKeys : List Key}
    {p : Nat × Str} (hp : ∀ key, extraKeys[p.1]? = some key → ∃ t,
      Registered db reparse rows key t ∧ Inserted (t.take headlineMaxChars) p.2) :
    Marked db reparse rows (addExtra extraKeys st p) := by
  rw [Search.addExtra]
  split
  · rename_i key hkey
    intro q hq
    rcases List.mem_append.mp hq with hq | hq
    · obtain ⟨key', t, hget, hreg⟩ := h q hq
      refine ⟨key', t, ?_, hreg⟩
      obtain ⟨hlt, -⟩ := List.getElem?_eq_some_iff.mp hget
      rw [List.getElem?_append_left hlt, hget]
    · cases List.mem_singleton.mp hq
      obtain ⟨t, hreg, hinserted⟩ := hp key hkey
      exact ⟨key, t, by simp, hreg, hinserted⟩
  · exact h

/-- **The passages.** -/
theorem marked_markedByKey (db : Postgres ι) (reparse : Reparse) (rows : List (Row ι)) :
    Marked db reparse rows (markedByKey db reparse rows) := by
  have hfirst : Marked db reparse rows ((allTexts reparse rows).map Prod.fst,
      headlines db ((allTexts reparse rows).map Prod.snd)) := by
    intro p hp
    obtain ⟨t, ht, hinserted⟩ := headlines_spec db hp
    obtain ⟨key, hkey, hmem⟩ := exists_key ht
    exact ⟨key, t, hkey, registered_allTexts db hmem, hinserted⟩
  have hextra : ∀ p ∈ headlines db ((extraTexts db reparse rows).map Prod.snd),
      ∀ key, ((extraTexts db reparse rows).map Prod.fst)[p.1]? = some key → ∃ t,
        Registered db reparse rows key t ∧ Inserted (t.take headlineMaxChars) p.2 := by
    intro p hp key hkey
    obtain ⟨t, ht, hinserted⟩ := headlines_spec db hp
    obtain ⟨key', hkey', hmem⟩ := exists_key ht
    obtain rfl := Option.some.inj (hkey.symm.trans hkey')
    exact ⟨t, registered_extraTexts hmem, hinserted⟩
  rw [markedByKey]
  generalize headlines db ((extraTexts db reparse rows).map Prod.snd) = passages at hextra
  generalize ((allTexts reparse rows).map Prod.fst,
    headlines db ((allTexts reparse rows).map Prod.snd)) = st at hfirst
  induction passages generalizing st with
  | nil => exact hfirst
  | cons p passages ih =>
      rw [List.foldl_cons]
      exact ih (fun q hq => hextra q (List.mem_cons_of_mem _ hq)) _
        (hfirst.addExtra (hextra p List.mem_cons_self))

/-- What a candidate of a row is. -/
theorem candidate_spec {db : Postgres ι} {reparse : Reparse} {rows : List (Row ι)}
    {lower : Str → Str} {ri : Nat} {r : Row ι} (hr : rows[ri]? = some r) {c : Candidate}
    (h : c ∈ candidates lower (markedByKey db reparse rows) ri) :
    ∃ t, TextOf db reparse rows r c.field c.bi t ∧
      ∃ m, Inserted (t.take headlineMaxChars) m ∧ c.plain = (parseMarked m).1 ∧
        c.spans = (parseMarked m).2 := by
  obtain ⟨p, hp, hsome⟩ := List.mem_filterMap.mp h
  obtain ⟨key, t, hkey, ⟨r', hr', htext⟩, hinserted⟩ := marked_markedByKey db reparse rows p hp
  rw [hkey] at hsome
  dsimp only at hsome
  split at hsome
  · rename_i hrow
    cases hsome
    rw [hrow.1, hr] at hr'
    cases hr'
    exact ⟨t, htext, p.2, hinserted, rfl, rfl⟩
  · cases hsome

/-! ## The hits -/

/-- The snippet of a candidate quotes the text that it comes from. -/
theorem quotesText_snippet {t m : Str} (ht : Unmarked t)
    (h : Inserted (t.take headlineMaxChars) m) :
    QuotesText (buildSnippet (parseMarked m).1 (parseMarked m).2 snippetMaxChars).1 t := by
  obtain ⟨marked, hmarked⟩ := exists_highlighted m
  obtain ⟨before, after, hplain, -, hsnippet⟩ := snippet_text marked snippetMaxChars
  have hread := parseMarked_inserted h (ht.take _)
  rw [hmarked] at hread ⊢
  have hell : ∀ (c : Prop) [Decidable c], ellipsis c ∈ [([] : Str), ['…']] := by
    intro c _
    rw [ellipsis]
    split <;> simp
  refine ⟨before, _, after ++ t.drop headlineMaxChars, ?_, _, hell _, _, hell _, hsnippet⟩
  rw [← List.append_assoc, ← hplain]
  calc t = t.take headlineMaxChars ++ t.drop headlineMaxChars :=
        (List.take_append_drop headlineMaxChars t).symm
    _ = marked.plain ++ t.drop headlineMaxChars := by rw [← hread]

theorem mem_of_mapM {α β : Type} {f : α → Option β} {xs : List α} {ys : List β}
    (h : xs.mapM f = some ys) {y : β} (hy : y ∈ ys) : ∃ x ∈ xs, f x = some y := by
  induction xs generalizing ys with
  | nil =>
      cases h
      cases hy
  | cons x xs ih =>
      simp only [List.mapM_cons, Option.bind_eq_bind, Option.bind_eq_some_iff] at h
      obtain ⟨z, hz, zs, hzs, hout⟩ := h
      cases hout
      rcases List.mem_cons.mp hy with rfl | hy
      · exact ⟨x, List.mem_cons_self, hz⟩
      · obtain ⟨x', hx', hf⟩ := ih hzs hy
        exact ⟨x', List.mem_cons_of_mem _ hx', hf⟩

theorem getElem?_of_mapM {α β : Type} {f : α → Option β} {xs : List α} {ys : List β}
    (h : xs.mapM f = some ys) {i : Nat} {x : α} (hx : xs[i]? = some x) :
    ∃ y, ys[i]? = some y ∧ f x = some y := by
  induction xs generalizing ys i with
  | nil => cases hx
  | cons a xs ih =>
      simp only [List.mapM_cons, Option.bind_eq_bind, Option.bind_eq_some_iff] at h
      obtain ⟨z, hz, zs, hzs, hout⟩ := h
      cases hout
      cases i with
      | zero =>
          cases hx
          exact ⟨z, rfl, hz⟩
      | succ i => exact ih hzs hx

/-- Who speaks, as a hit says it: a subtitle has no speaker. -/
def shownSpeaker (r : Row ι) (b : Block) : Option Str :=
  if r.sourceType = some youtubeSubtitle then none else b.speaker

theorem quotes_hitOf {db : Postgres ι} {reparse : Reparse} {rows : List (Row ι)} {r : Row ι}
    {c : Candidate} {hit : Hit} (hhit : hitOf reparse r c = some hit) {t : Str}
    (htext : TextOf db reparse rows r c.field c.bi t)
    (hquotes : QuotesText (buildSnippet c.plain c.spans snippetMaxChars).1 t) :
    Quotes db shownSpeaker reparse rows r hit := by
  obtain ⟨distinct, field, bi, plain, spans⟩ := c
  cases htext with
  | block bi b hb hshown =>
      simp only [hitOf, Int.toNat_natCast, hb, Option.bind_eq_bind, Option.bind_some,
        Option.bind_eq_some_iff] at hhit
      obtain ⟨start, hstart, stop, hstop, hhit⟩ := hhit
      cases hhit
      exact Or.inl ⟨bi, b, hb, hshown, hquotes, rfl, start, stop, hstart, hstop, rfl⟩
  | keyPoints =>
      cases hhit
      exact hquotes
  | title =>
      cases hhit
      exact Or.inl hquotes
  | vsTitle =>
      cases hhit
      exact Or.inr hquotes
  | full body hempty hbody =>
      cases hhit
      exact Or.inr ⟨hempty, rfl, rfl, body, hbody, hquotes⟩

/-- **The hits of a search.** Each hit of a row quotes a text of this row: a block that is not
hidden, with its times and its speaker, the key points or a title, or, in a row without blocks,
the whole text. -/
theorem hits_quote (db : Postgres ι) (lower : Str → Str) (reparse : Reparse)
    {rows : List (Row ι)} {out : List (Result ι)} (h : runSearch db lower reparse rows = some out)
    {ri : Nat} {r : Row ι} (hr : rows[ri]? = some r) :
    ∃ result, out[ri]? = some result ∧
      ∀ hit ∈ result.hits, Quotes db shownSpeaker reparse rows r hit := by
  have hzip : rows.zipIdx[ri]? = some (r, ri) := by
    rw [List.getElem?_zipIdx, hr]
    simp
  obtain ⟨result, hresult, hof⟩ := getElem?_of_mapM h hzip
  refine ⟨result, hresult, fun hit hmem => ?_⟩
  simp only [resultOf, Option.bind_eq_bind, Option.bind_eq_some_iff] at hof
  obtain ⟨hits, hhits, hof⟩ := hof
  cases hof
  obtain ⟨c, hc, hhit⟩ := mem_of_mapM hhits hmem
  have hcand := (List.mem_insertionSort _).mp (List.mem_of_mem_take hc)
  obtain ⟨t, htext, m, hinserted, hplain, hspans⟩ := candidate_spec hr hcand
  refine quotes_hitOf hhit htext ?_
  rw [hplain, hspans]
  exact quotesText_snippet htext.unmarked hinserted

/-! ## Two meetings -/

theorem inserted_whole (t : Str) : Inserted t (hlStart :: (t ++ [hlEnd])) := by
  refine .start ?_
  induction t with
  | nil => exact .stop .nil
  | cons c t ih => exact .keep c ih

/-- Every text is found, and marked as a whole. -/
def markWhole : Postgres Nat where
  headlines texts := texts.zipIdx.map fun p => (p.2, hlStart :: (p.1 ++ [hlEnd]))
  nodup texts := by
    rw [List.map_map]
    exact (List.nodup_zipIdx_map_snd texts)
  inserted texts p hp := by
    obtain ⟨⟨t, k⟩, hmem, rfl⟩ := List.mem_map.mp hp
    exact ⟨t, List.mem_zipIdx_iff_getElem?.mp hmem, inserted_whole t⟩
  fullTexts _ := []
  asked _ _ h := absurd h List.not_mem_nil

/-- One block, in which somebody speaks. -/
def oneBlock : Reparse := fun _ =>
  [⟨some "Ana".toList, some (.fin 5), some (.fin 9), ["le budget".toList]⟩]

/-- A meeting that comes from `sourceType`, and has no title. -/
def untitled (sourceType : Option Str) : Row Nat :=
  ⟨0, none, none, none, none, none, [], sourceType⟩

def foundBlock (speaker : Option Str) : List (Result Nat) :=
  [⟨0, "Réunion".toList, [⟨"le budget".toList, [(0, 9)], .transcript, some (some 5, some 9),
    speaker⟩]⟩]

theorem runSearch_upload : runSearch markWhole id oneBlock [untitled none] =
    some (foundBlock (some "Ana".toList)) := by
  decide +kernel

theorem runSearch_subtitle : runSearch markWhole id oneBlock [untitled (some youtubeSubtitle)] =
    some (foundBlock none) := by
  decide +kernel

theorem hits_quote_upload :
    ∃ result, (foundBlock (some "Ana".toList))[0]? = some result ∧
      ∀ hit ∈ result.hits,
        Quotes markWhole shownSpeaker oneBlock [untitled none] (untitled none) hit :=
  hits_quote markWhole id oneBlock runSearch_upload rfl

/-- **The speaker of a subtitle.** A hit in a subtitle does not say who speaks. -/
theorem subtitle_speaker : ¬ ∀ (db : Postgres Nat) (lower : Str → Str) (reparse : Reparse)
    (rows : List (Row Nat)) (out : List (Result Nat)), runSearch db lower reparse rows = some out →
      ∀ (ri : Nat) (r : Row Nat), rows[ri]? = some r → r.blocks reparse ≠ [] →
        ∃ result, out[ri]? = some result ∧
          ∀ hit ∈ result.hits, Quotes db (fun _ b => b.speaker) reparse rows r hit := by
  intro h
  obtain ⟨result, hresult, hhits⟩ := h markWhole id oneBlock _ _ runSearch_subtitle 0 _ rfl
    (by decide +kernel)
  cases hresult
  rcases hhits _ List.mem_cons_self with ⟨bi, b, hb, -, -, hspeaker, -⟩ | ⟨hempty, -⟩
  · -- The only block has a speaker.
    have hmem := List.mem_of_getElem? hb
    have honly : (untitled (some youtubeSubtitle)).blocks oneBlock =
        [⟨some "Ana".toList, some (.fin 5), some (.fin 9), "le budget".toList⟩] := by
      decide +kernel
    rw [honly] at hmem
    cases List.mem_singleton.mp hmem
    cases hspeaker
  · revert hempty
    decide +kernel

end MesReunions.Search
