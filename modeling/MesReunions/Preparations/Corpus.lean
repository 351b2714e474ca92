import MesReunions.Base.Str

/-!
# The corpus of a preparation

`assemble_corpus` of `mesreunions-web/app/meeting_prep.py`: the documents of a Drive folder are
read one after the other, within a number of documents and a number of characters.

* `step_cases` — a child is passed over, or its text is added.
* `Inv` — what is accounted for after each child.
* **`accounted_iff`** — the accounts are right exactly when each document that is cut to the room
  left still has room for the mark of the cut.
* **`mark_exceeds`** — a document that is one character too long.
-/

namespace MesReunions.Preparations

open Str

/-! ## The folder -/

/-- A key of an item of Drive. -/
inductive Field where
  | absent
  | null
  | str (s : Str)
  deriving DecidableEq

/-- A child of the folder. A title that is not a string is read like a missing one. -/
structure Item where
  id : Field
  title : Option Str
  name : Option Str
  filename : Option Str
  type : Option Str
  kind : Option Str
  isFolder : Bool
  /-- It has children of its own. -/
  children : Bool
  deriving DecidableEq

/-- What `download_item` raises, or else what `extract_text` returns. -/
inductive Outcome where
  | applicativeError
  | transientError
  | text (s : Str)
  deriving DecidableEq

/-- A child, and what its download gives if it is tried. -/
abbrev Child := Item × Outcome

/-- `_item_name(item)`; the id of an item is its last resort, `null` included. -/
def itemName (item : Item) : Option Str :=
  match [item.title, item.name, item.filename].filterMap fun s =>
      s.bind fun s => if strip s = [] then none else some (strip s) with
  | name :: _ => some name
  | [] => match item.id with
    | .absent => some "(sans nom)".toList
    | .null => none
    | .str s => some s

/-- `item.get("id") or ""` -/
def itemId (item : Item) : Str :=
  match item.id with
  | .str s => s
  | _ => []

variable (lower : Str → Str)

/-- `item.get("type") or item.get("kind") or ""` -/
def kindOf (item : Item) : Str :=
  let type := item.type.getD []
  if type = [] then item.kind.getD [] else type

/-- `_is_folder(item)` -/
def isFolder (item : Item) : Bool :=
  ["folder".toList, "directory".toList].contains (lower (kindOf item)) ||
    item.isFolder || item.children

/-! ## The loop -/

structure Config where
  maxDocs : Nat
  totalMaxChars : Nat

inductive Status where
  | skippedFolder
  | skippedNoId
  | skippedDocCap
  | errorDownload
  | errorTransient
  | skippedUnsupportedOrEmpty
  | skippedTotalCap
  | ingested
  deriving DecidableEq

/-- An entry of `used`. -/
structure Used where
  name : Option Str
  id : Str
  status : Status
  chars : Option Nat
  deriving DecidableEq

structure State where
  used : List Used
  parts : List Str
  totalChars : Nat
  ingested : Nat

def State.start : State := ⟨[], [], 0, 0⟩

/-- `"\n[…tronqué]"` -/
def cutMark : Str := "\n[…tronqué]".toList

/-- `f"--- {name} ---\n{text}"` -/
def part (name : Option Str) (text : Str) : Str :=
  "--- ".toList ++ name.getD "None".toList ++ " ---\n".toList ++ text

def State.skip (st : State) (x : Child) (status : Status) : State :=
  { st with used := st.used ++ [⟨itemName x.1, itemId x.1, status, none⟩] }

def State.ingest (st : State) (x : Child) (text : Str) : State where
  used := st.used ++ [⟨itemName x.1, itemId x.1, .ingested, some text.length⟩]
  parts := st.parts ++ [part (itemName x.1) text]
  totalChars := st.totalChars + text.length
  ingested := st.ingested + 1

/-- One turn of the loop of `assemble_corpus`. -/
def step (cfg : Config) (st : State) (x : Child) : State :=
  if isFolder lower x.1 then st.skip x .skippedFolder
  else if itemId x.1 = [] then st.skip x .skippedNoId
  else if cfg.maxDocs ≤ st.ingested then st.skip x .skippedDocCap
  else match x.2 with
  | .applicativeError => st.skip x .errorDownload
  | .transientError => st.skip x .errorTransient
  | .text text =>
      if text = [] then st.skip x .skippedUnsupportedOrEmpty
      else
        let remaining := cfg.totalMaxChars - st.totalChars
        if remaining = 0 then st.skip x .skippedTotalCap
        else if remaining < text.length then
          st.ingest x (rstrip (text.take remaining) ++ cutMark)
        else st.ingest x text

/-- `"\n\n".join(parts).strip()` -/
def joinParts (parts : List Str) : Str := strip (['\n', '\n'].intercalate parts)

/-- `assemble_corpus(drive, access_token, folder_id, …)`, of the children of the folder. -/
def assembleCorpus (cfg : Config) (children : List Child) : Str × List Used :=
  let st := children.foldl (step lower cfg) .start
  (joinParts st.parts, st.used)

/-! ## The accounts -/

/-- The entry says that the text, of the document or cut from it, is in the corpus. -/
def Ingests (x : Child × Used) (text : Str) : Prop :=
  x.2.chars = some text.length ∧ ∃ doc, x.1.2 = .text doc ∧
    (text = doc ∨ ∃ n, text = rstrip (doc.take n) ++ cutMark)

/-- The children marked as ingested, with their entries. -/
def ingestedOf (children : List Child) (used : List Used) : List (Child × Used) :=
  (children.zip used).filter fun x => x.2.status = .ingested

def charsOf (used : List Used) : Nat := (used.map fun u => u.chars.getD 0).sum

/-- The accounts of a corpus are right. -/
structure Accounted (cfg : Config) (children : List Child) (result : Str × List Used) : Prop where
  entries : result.2.map (fun u => (u.name, u.id)) =
    children.map fun x => (itemName x.1, itemId x.1)
  corpus : ∃ texts, List.Forall₂ Ingests (ingestedOf children result.2) texts ∧
    result.1 = joinParts (((ingestedOf children result.2).zip texts).map fun x =>
      part x.1.2.name x.2)
  docs : result.2.countP (·.status = .ingested) ≤ cfg.maxDocs
  chars : charsOf result.2 ≤ cfg.totalMaxChars

/-- A document that is read, and cut, has room for the mark. -/
def StepFits (cfg : Config) (st : State) (x : Child) : Prop :=
  ∀ doc, x.2 = .text doc → isFolder lower x.1 = false → itemId x.1 ≠ [] →
    st.ingested < cfg.maxDocs → st.totalChars < cfg.totalMaxChars →
    cfg.totalMaxChars - st.totalChars < doc.length →
      (rstrip (doc.take (cfg.totalMaxChars - st.totalChars))).length + cutMark.length ≤
        cfg.totalMaxChars - st.totalChars

/-- So has each document of the folder, where its turn comes. -/
def Fits (cfg : Config) : State → List Child → Prop
  | _, [] => True
  | st, x :: xs => StepFits lower cfg st x ∧ Fits cfg (step lower cfg st x) xs

variable {lower : Str → Str} {cfg : Config}

/-! ## One child -/

/-- What a step adds to the text of a document. -/
def TextOf (cfg : Config) (st : State) (doc text : Str) : Prop :=
  (cfg.totalMaxChars - st.totalChars < doc.length ∧
      text = rstrip (doc.take (cfg.totalMaxChars - st.totalChars)) ++ cutMark) ∨
    (doc.length ≤ cfg.totalMaxChars - st.totalChars ∧ text = doc)

/-- The document of a child is read. -/
structure Reads (lower : Str → Str) (cfg : Config) (st : State) (x : Child) (doc : Str) : Prop where
  outcome : x.2 = .text doc
  leaf : isFolder lower x.1 = false
  id : itemId x.1 ≠ []
  docs : st.ingested < cfg.maxDocs
  room : st.totalChars < cfg.totalMaxChars

/-- **A child is passed over**, as every document that is read is empty, **or its text is
added.** -/
theorem step_cases (lower : Str → Str) (cfg : Config) (st : State) (x : Child) :
    (∃ status, status ≠ .ingested ∧ (∀ doc, Reads lower cfg st x doc → doc = []) ∧
        step lower cfg st x = st.skip x status) ∨
      ∃ doc text, Reads lower cfg st x doc ∧ TextOf cfg st doc text ∧
        step lower cfg st x = st.ingest x text := by
  rw [step]
  split
  · rename_i hfolder
    exact Or.inl ⟨_, by decide, fun doc h => absurd h.leaf (by simp [hfolder]), rfl⟩
  rename_i hleaf
  split
  · rename_i hid
    exact Or.inl ⟨_, by decide, fun doc h => absurd hid h.id, rfl⟩
  rename_i hid
  split
  · rename_i hdocs
    exact Or.inl ⟨_, by decide, fun doc h => absurd h.docs (by omega), rfl⟩
  rename_i hdocs
  split
  · rename_i hdoc
    exact Or.inl ⟨_, by decide, fun doc h => absurd (hdoc.symm.trans h.outcome) (by simp), rfl⟩
  · rename_i hdoc
    exact Or.inl ⟨_, by decide, fun doc h => absurd (hdoc.symm.trans h.outcome) (by simp), rfl⟩
  rename_i doc hdoc
  split
  · rename_i hempty
    refine Or.inl ⟨_, by decide, fun doc' h => ?_, rfl⟩
    have heq := hdoc.symm.trans h.outcome
    injection heq with heq
    rw [← heq, hempty]
  dsimp only
  split
  · rename_i hroom
    exact Or.inl ⟨_, by decide, fun doc h => absurd h.room (by omega), rfl⟩
  rename_i hroom
  have hreads : Reads lower cfg st x doc :=
    ⟨hdoc, by simpa using hleaf, hid, by omega, by omega⟩
  right
  split
  · rename_i hcut
    exact ⟨doc, _, hreads, Or.inl ⟨hcut, rfl⟩, rfl⟩
  · rename_i hcut
    exact ⟨doc, _, hreads, Or.inr ⟨by omega, rfl⟩, rfl⟩

theorem stepFits_iff (lower : Str → Str) (cfg : Config) (st : State) (x : Child) :
    StepFits lower cfg st x ↔ ∀ doc, Reads lower cfg st x doc →
      cfg.totalMaxChars - st.totalChars < doc.length →
      (rstrip (doc.take (cfg.totalMaxChars - st.totalChars))).length + cutMark.length ≤
        cfg.totalMaxChars - st.totalChars :=
  ⟨fun h doc hr => h doc hr.outcome hr.leaf hr.id hr.docs hr.room,
    fun h doc ho hl hi hd hr => h doc ⟨ho, hl, hi, hd, hr⟩⟩

/-! ## All of them -/

/-- What is accounted for after each child. -/
structure Inv (cfg : Config) (children : List Child) (st : State) : Prop where
  entries : st.used.map (fun u => (u.name, u.id)) =
    children.map fun x => (itemName x.1, itemId x.1)
  corpus : ∃ texts, List.Forall₂ Ingests (ingestedOf children st.used) texts ∧
    st.parts = ((ingestedOf children st.used).zip texts).map fun x => part x.1.2.name x.2
  docs : st.used.countP (·.status = .ingested) = st.ingested
  cap : st.ingested ≤ cfg.maxDocs
  chars : charsOf st.used = st.totalChars

theorem inv_start (cfg : Config) : Inv cfg [] .start :=
  ⟨rfl, ⟨[], List.Forall₂.nil, rfl⟩, rfl, Nat.zero_le _, rfl⟩

theorem Inv.length_eq {children : List Child} {st : State} (h : Inv cfg children st) :
    children.length = st.used.length := by
  have := congrArg List.length h.entries
  simpa using this.symm

theorem ingestedOf_append {children : List Child} {used : List Used}
    (hlen : children.length = used.length) (x : Child) (u : Used) :
    ingestedOf (children ++ [x]) (used ++ [u]) =
      ingestedOf children used ++ if u.status = .ingested then [(x, u)] else [] := by
  rw [ingestedOf, List.zip_append hlen, List.filter_append, ingestedOf]
  by_cases h : u.status = .ingested <;> simp [h]

theorem charsOf_append (used : List Used) (u : Used) :
    charsOf (used ++ [u]) = charsOf used + u.chars.getD 0 := by
  simp [charsOf]

theorem inv_skip {children : List Child} {st : State} (h : Inv cfg children st) (x : Child)
    {status : Status} (hs : status ≠ .ingested) : Inv cfg (children ++ [x]) (st.skip x status) where
  entries := by simp [State.skip, h.entries]
  corpus := by
    rw [State.skip, ingestedOf_append h.length_eq, if_neg hs, List.append_nil]
    exact h.corpus
  docs := by simp [State.skip, List.countP_append, hs, h.docs]
  cap := h.cap
  chars := by
    rw [State.skip, charsOf_append, h.chars]
    rfl

theorem inv_ingest {children : List Child} {st : State} (h : Inv cfg children st) {x : Child}
    {doc text : Str} (hreads : Reads lower cfg st x doc) (htext : TextOf cfg st doc text) :
    Inv cfg (children ++ [x]) (st.ingest x text) where
  entries := by simp [State.ingest, h.entries]
  corpus := by
    obtain ⟨texts, hall, hparts⟩ := h.corpus
    have hentry : Ingests (x, ⟨itemName x.1, itemId x.1, .ingested, some text.length⟩) text := by
      refine ⟨rfl, doc, hreads.outcome, ?_⟩
      rcases htext with ⟨-, hcut⟩ | ⟨-, hwhole⟩
      · exact Or.inr ⟨_, hcut⟩
      · exact Or.inl hwhole
    refine ⟨texts ++ [text], ?_, ?_⟩
    · rw [State.ingest, ingestedOf_append h.length_eq, if_pos rfl]
      exact List.rel_append hall (List.Forall₂.cons hentry List.Forall₂.nil)
    · rw [State.ingest, ingestedOf_append h.length_eq, if_pos rfl, List.zip_append hall.length_eq,
        List.map_append, hparts]
      rfl
  docs := by simp [State.ingest, List.countP_append, h.docs]
  cap := hreads.docs
  chars := by
    rw [State.ingest, charsOf_append, h.chars]
    rfl

theorem inv_step {children : List Child} {st : State} (h : Inv cfg children st) (x : Child) :
    Inv cfg (children ++ [x]) (step lower cfg st x) := by
  rcases step_cases lower cfg st x with ⟨status, hs, -, heq⟩ | ⟨doc, text, hreads, htext, heq⟩
  · rw [heq]
    exact inv_skip h x hs
  · rw [heq]
    exact inv_ingest h hreads htext

/-- The accounts at the end. -/
theorem inv_foldl (lower : Str → Str) (cfg : Config) (children : List Child) :
    Inv cfg children (children.foldl (step lower cfg) .start) := by
  induction children using List.reverseRecOn with
  | nil => exact inv_start cfg
  | append_singleton children x ih =>
      rw [List.foldl_append]
      exact inv_step ih x

/-! ## The room -/

theorem totalChars_le_step (lower : Str → Str) (cfg : Config) (st : State) (x : Child) :
    st.totalChars ≤ (step lower cfg st x).totalChars := by
  rcases step_cases lower cfg st x with ⟨status, -, -, heq⟩ | ⟨doc, text, -, -, heq⟩
  · rw [heq]
    exact le_refl _
  · rw [heq]
    exact Nat.le_add_right _ _

theorem totalChars_le_foldl (lower : Str → Str) (cfg : Config) (children : List Child)
    (st : State) : st.totalChars ≤ (children.foldl (step lower cfg) st).totalChars := by
  induction children generalizing st with
  | nil => exact le_refl _
  | cons x xs ih => exact (totalChars_le_step lower cfg st x).trans (ih _)

/-- A step stays within the characters exactly when its document fits. -/
theorem totalChars_step_le_iff {st : State} (h : st.totalChars ≤ cfg.totalMaxChars) (x : Child) :
    (step lower cfg st x).totalChars ≤ cfg.totalMaxChars ↔ StepFits lower cfg st x := by
  rw [stepFits_iff]
  rcases step_cases lower cfg st x with ⟨status, -, hempty, heq⟩ | ⟨doc, text, hreads, htext, heq⟩
  · rw [heq]
    refine ⟨fun _ doc hr hlt => ?_, fun _ => h⟩
    rw [hempty doc hr] at hlt
    exact absurd hlt (Nat.not_lt_zero _)
  · have hdoc : ∀ doc', Reads lower cfg st x doc' → doc' = doc := by
      intro doc' h'
      have := h'.outcome.symm.trans hreads.outcome
      injection this
    have hroom := hreads.room
    have htotal : (step lower cfg st x).totalChars = st.totalChars + text.length := by
      rw [heq]
      rfl
    rw [htotal]
    rcases htext with ⟨hlt, rfl⟩ | ⟨hle, rfl⟩
    · rw [List.length_append]
      constructor
      · intro hsum doc' h' _
        rw [hdoc doc' h']
        omega
      · intro hfits
        have := hfits doc hreads hlt
        omega
    · constructor
      · intro _ doc' h' hlt
        rw [hdoc doc' h'] at hlt
        omega
      · intro _
        omega

/-- The characters stay within the cap exactly when every document fits. -/
theorem totalChars_le_iff {st : State} (h : st.totalChars ≤ cfg.totalMaxChars)
    (children : List Child) :
    (children.foldl (step lower cfg) st).totalChars ≤ cfg.totalMaxChars ↔
      Fits lower cfg st children := by
  induction children generalizing st with
  | nil => exact ⟨fun _ => trivial, fun _ => h⟩
  | cons x xs ih =>
      rw [List.foldl_cons, Fits, ← totalChars_step_le_iff h x]
      constructor
      · intro hle
        have hx := (totalChars_le_foldl lower cfg xs _).trans hle
        exact ⟨hx, (ih hx).mp hle⟩
      · rintro ⟨hx, hfits⟩
        exact (ih hx).mpr hfits

/-- **The accounts of a corpus are right** exactly when each document that is cut to the room left
still has room for the mark of the cut. -/
theorem accounted_iff (lower : Str → Str) (cfg : Config) (children : List Child) :
    Accounted cfg children (assembleCorpus lower cfg children) ↔
      Fits lower cfg .start children := by
  have hinv := inv_foldl lower cfg children
  rw [← totalChars_le_iff (show State.start.totalChars ≤ cfg.totalMaxChars from Nat.zero_le _)]
  constructor
  · intro h
    have hchars := h.chars
    rw [assembleCorpus] at hchars
    rwa [hinv.chars] at hchars
  · intro hle
    obtain ⟨texts, hall, hparts⟩ := hinv.corpus
    refine ⟨hinv.entries, ⟨texts, hall, ?_⟩, ?_, ?_⟩
    · rw [assembleCorpus]
      exact congrArg joinParts hparts
    · rw [assembleCorpus]
      exact hinv.docs.trans_le hinv.cap
    · rw [assembleCorpus]
      exact hinv.chars.trans_le hle

/-! ## A document -/

def plainItem : Item := ⟨.str ['a'], none, none, none, none, none, false, false⟩

/-- **A document that is one character too long** takes eleven characters too many. -/
theorem mark_exceeds : ¬ ∀ (lower : Str → Str) cfg children,
    Accounted cfg children (assembleCorpus lower cfg children) := by
  intro h
  have hchars := (h id ⟨8, 5⟩ [(plainItem, .text "abcdef".toList)]).chars
  exact absurd hchars (by decide)

end MesReunions.Preparations
