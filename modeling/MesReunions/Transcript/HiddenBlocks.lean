import MesReunions.Base.TSys
import MesReunions.Transcript.Edit

/-!
# Hidden blocks

`hidden_block_indices` are positions in a text that several requests rewrite, each in a
transaction of its own: it reads the row, and what it changed of the columns is written at
its commit (`puller.py`, the three editing endpoints, `full_reprocess_audio`,
`_reset_and_resubmit_kevent_pipeline`, and the pipeline through `_set_user_audio_status`).

* **`pointing_commit`** — what a commit does to the blocks that the indices point at.
* **`irreversible_of_allowed`** — in runs whose commits keep the indices in place, a
  deletion removes blocks that the user had hidden.
* **`reprocess_not_irreversible`** — after a reprocess it removes others.
-/

namespace MesReunions.Transcript

open Str Sections TSys

/-! ## Requests on one row -/

/-- `sorted({int(i) for i in raw_indices if int(i) >= 0})` -/
def patchIndices (raw : List Int) : List Nat :=
  ((raw.filter (0 ≤ ·)).map Int.toNat).dedup.insertionSort (· ≤ ·)

/-- `api_patch_hidden_blocks`, on the row found. -/
def patchHiddenBlocks (raw : List Int) (row : Audio) : Audio :=
  { row with hiddenBlockIndices := patchIndices raw }

/-- The reset of the pipeline columns. It is the same in both functions, and
`hidden_block_indices` is not among them. -/
def resetPipeline (row : Audio) : Audio :=
  { row with transcriptionText := none, speakerTaggedText := none }

/-- What writes to the row. -/
inductive Request where
  | patchHidden (raw : List Int)
  | deleteHidden
  | reFilter (lower : Str → Str) (phrases : List (Str × Str))
  | fullReprocess
  | resetAndResubmit
  | pipelineStore (transcription : Str) (tagged : Option Str)

/-- The row as the request leaves it, from the row it read. -/
def Request.apply (row : Audio) : Request → Except PyError Audio
  | patchHidden raw => .ok (patchHiddenBlocks raw row)
  | deleteHidden => (deleteHiddenBlocks row).map Prod.snd
  | reFilter lower phrases => (reFilterForbidden lower phrases row).map Prod.snd
  | fullReprocess => .ok (resetPipeline row)
  | resetAndResubmit => .ok (resetPipeline row)
  | pipelineStore transcription tagged => .ok { row with
      transcriptionText := some transcription
      speakerTaggedText := if tagged = none then row.speakerTaggedText else tagged }

/-- A request between its read and its commit. -/
structure Txn where
  request : Request
  snapshot : Audio

/-- A commit writes the columns that the request changed. -/
def flushColumns (snapshot new current : Audio) : Audio where
  transcriptionText :=
    if new.transcriptionText = snapshot.transcriptionText then current.transcriptionText
    else new.transcriptionText
  speakerTaggedText :=
    if new.speakerTaggedText = snapshot.speakerTaggedText then current.speakerTaggedText
    else new.speakerTaggedText
  hiddenBlockIndices :=
    if new.hiddenBlockIndices = snapshot.hiddenBlockIndices then current.hiddenBlockIndices
    else new.hiddenBlockIndices

/-! ## Runs -/

/-- The blocks of a text, up to blanks at the end of lines. -/
def blocksOf (text : Option Str) : List Block :=
  match reparse (text.getD []) with
  | .ok blocks => blocks.map Block.trim
  | .error _ => []

/-- The blocks at these indices. -/
def blocksAt (indices : List Nat) (text : Option Str) : List Block :=
  indices.filterMap fun i => (blocksOf text)[i]?

/-- The row, the requests under way, and the blocks that the last PATCH designated in the
text then stored. -/
structure World where
  row : Audio
  underWay : List Txn
  designated : List Block

/-- An audio on which nothing is hidden. -/
def World.start (transcriptionText speakerTaggedText : Option Str) : World :=
  ⟨⟨transcriptionText, speakerTaggedText, []⟩, [], []⟩

inductive Action where
  | read (request : Request)
  | commit (k : Nat)

/-- The blocks designated after a commit that left this row. -/
def designate (s : World) (row : Audio) : Request → List Block
  | .patchHidden raw => blocksAt (patchIndices raw) row.speakerTaggedText
  | _ => s.designated

def step (s : World) : Action → Option World
  | .read request => some { s with underWay := s.underWay ++ [⟨request, s.row⟩] }
  | .commit k =>
      match s.underWay[k]? with
      | none => none
      | some txn =>
          match txn.request.apply txn.snapshot with
          | .error _ => some { s with underWay := s.underWay.eraseIdx k }
          | .ok new =>
              let row := flushColumns txn.snapshot new s.row
              some ⟨row, s.underWay.eraseIdx k, designate s row txn.request⟩

/-- The blocks that an action removes irreversibly. -/
def removed (s : World) : Action → List Block
  | .read _ => []
  | .commit k =>
      match s.underWay[k]? with
      | some ⟨.deleteHidden, snapshot⟩ =>
          blocksAt snapshot.hiddenBlockIndices snapshot.speakerTaggedText
      | _ => []

/-- The indices point at blocks that the last PATCH designated. -/
def Pointing (s : World) : Prop :=
  ∀ b ∈ blocksAt s.row.hiddenBlockIndices s.row.speakerTaggedText, b ∈ s.designated

/-- What a deletion removes had been designated, and the indices go on pointing at such
blocks. -/
structure Irreversible (s : World) (a : Action) (s' : World) : Prop where
  removed : ∀ b ∈ removed s a, b ∈ s.designated
  pointing : Pointing s'

/-! ## Commits that keep the indices in place -/

section Phrases

variable (lower : Str → Str) (phrases : List (Str × Str))

/-- Filtering leaves something of the block. -/
def Block.Survives (b : Block) : Prop := keepLines lower phrases b.bodyLines ≠ []

/-- Filtering drops no line of the block. -/
def Block.Untouched (b : Block) : Prop :=
  b.bodyLines ≠ [] ∧ keepLines lower phrases b.bodyLines = b.bodyLines

/-- Filtering leaves the block at an index there, whole, if it leaves that many blocks. -/
def StaysPut (blocks : List Block) (i : Nat) : Prop :=
  i < (filterBlocks lower phrases blocks).length →
    (∀ b ∈ blocks.take i, b.Survives lower phrases) ∧
      ∀ b, blocks[i]? = some b → b.Untouched lower phrases

end Phrases

/-- The request of a commit does not move the blocks under the hidden indices. -/
def Keeps (s : World) (txn : Txn) : Prop :=
  match txn.request with
  | .patchHidden raw => patchIndices raw = txn.snapshot.hiddenBlockIndices →
      s.row.hiddenBlockIndices = txn.snapshot.hiddenBlockIndices
  | .deleteHidden => txn.snapshot.hiddenBlockIndices = s.row.hiddenBlockIndices ∧
      txn.snapshot.speakerTaggedText = s.row.speakerTaggedText
  | .reFilter lower phrases => s.row.hiddenBlockIndices = [] ∨
      txn.snapshot.speakerTaggedText = s.row.speakerTaggedText ∧
        ∀ blocks, reparse (s.row.speakerTaggedText.getD []) = .ok blocks →
          NothingMatches lower phrases txn.snapshot blocks ∨
            ∀ i ∈ s.row.hiddenBlockIndices, StaysPut lower phrases blocks i
  | .fullReprocess => True
  | .resetAndResubmit => True
  | .pipelineStore _ tagged => tagged = none ∨
      ∀ i ∈ s.row.hiddenBlockIndices, (blocksOf tagged)[i]? = none

/-- Every commit is one that keeps the indices in place. -/
def Allowed (s : World) : Action → Prop
  | .read _ => True
  | .commit k => ∀ txn, s.underWay[k]? = some txn → Keeps s txn

/-! ## What commits do to the indices -/

theorem blocksOf_of_reparses {text : Option Str} {bs : List Block}
    (h : Reparses (text.getD []) bs) : blocksOf text = bs := by
  obtain ⟨blocks, hread, rfl⟩ := h
  rw [blocksOf, hread]

@[simp] theorem blocksAt_nil (text : Option Str) : blocksAt [] text = [] := rfl

theorem blocksAt_none (indices : List Nat) : blocksAt indices none = [] := by
  have hnone : blocksOf none = [] := blocksOf_of_reparses ⟨[], rfl, rfl⟩
  rw [blocksAt, hnone, List.filterMap_eq_nil_iff]
  exact fun i _ => rfl

theorem mem_blocksAt {indices : List Nat} {text : Option Str} {b : Block} :
    b ∈ blocksAt indices text ↔ ∃ i ∈ indices, (blocksOf text)[i]? = some b :=
  List.mem_filterMap

/-- Deleting keeps the row, or empties the list of indices. -/
theorem deleteHiddenBlocks_cases {row row' : Audio}
    (h : (deleteHiddenBlocks row).map Prod.snd = .ok row') :
    row' = row ∨ row.hiddenBlockIndices ≠ [] ∧ row'.hiddenBlockIndices = [] := by
  cases hread : reparse (row.speakerTaggedText.getD []) with
  | error e =>
      by_cases hhidden : row.hiddenBlockIndices = []
      · obtain ⟨reply, hdelete⟩ := deleteHiddenBlocks_noop row (Or.inl hhidden)
        rw [hdelete] at h
        injection h with h
        exact Or.inl h.symm
      · simp only [deleteHiddenBlocks, if_neg hhidden, hread, bind, Except.bind] at h
        cases h
  | ok blocks =>
      by_cases hnoop : row.hiddenBlockIndices = [] ∨ blocks = []
      · obtain ⟨reply, hdelete⟩ := deleteHiddenBlocks_noop row
          (hnoop.imp_right fun (hb : blocks = []) => hb ▸ hread)
        rw [hdelete] at h
        injection h with h
        exact Or.inl h.symm
      · rw [not_or] at hnoop
        obtain ⟨reply, hdelete⟩ := deleteHiddenBlocks_eq row hnoop.1 hread hnoop.2
        rw [hdelete] at h
        injection h with h
        rw [← h]
        exact Or.inr ⟨hnoop.1, rfl⟩

section Filtered

variable {lower : Str → Str} {phrases : List (Str × Str)}

theorem length_filterBlocks_of_survives {blocks : List Block}
    (h : ∀ b ∈ blocks, b.Survives lower phrases) :
    (filterBlocks lower phrases blocks).length = blocks.length := by
  have hall : ∀ b ∈ blocks.map (Block.filterLines lower phrases), (!b.bodyLines.isEmpty) = true := by
    intro b hb
    obtain ⟨c, hc, rfl⟩ := List.mem_map.mp hb
    simpa [Block.filterLines, Block.Survives] using h c hc
  rw [filterBlocks, List.filter_eq_self.mpr hall, List.length_map]

/-- A block that stays put is found at its index after filtering. -/
theorem getElem?_filterBlocks {blocks : List Block} {i : Nat} (h : StaysPut lower phrases blocks i)
    {b : Block} (hb : (filterBlocks lower phrases blocks)[i]? = some b) :
    blocks[i]? = some b := by
  obtain ⟨hlt, -⟩ := List.getElem?_eq_some_iff.mp hb
  obtain ⟨hbefore, hat⟩ := h hlt
  have hsplit : filterBlocks lower phrases blocks =
      filterBlocks lower phrases (blocks.take i) ++ filterBlocks lower phrases (blocks.drop i) := by
    rw [filterBlocks, filterBlocks, filterBlocks, ← List.filter_append, ← List.map_append,
      List.take_append_drop]
  have htake := length_filterBlocks_of_survives hbefore
  cases hi : blocks[i]? with
  | none =>
      have hlen : blocks.length ≤ i := List.getElem?_eq_none_iff.mp hi
      rw [hsplit, List.drop_eq_nil_of_le hlen, List.length_append, htake, List.take_of_length_le hlen]
        at hlt
      exact absurd hlt (by simpa [filterBlocks] using hlen)
  | some c =>
      obtain ⟨hne, hkeep⟩ := hat c hi
      obtain ⟨hlen, hget⟩ := List.getElem?_eq_some_iff.mp hi
      have hself : c.filterLines lower phrases = c := by
        rw [Block.filterLines, hkeep]
      have hdrop : filterBlocks lower phrases (blocks.drop i) =
          c :: filterBlocks lower phrases (blocks.drop (i + 1)) := by
        rw [List.drop_eq_getElem_cons hlen, hget, filterBlocks, List.map_cons, hself,
          List.filter_cons_of_pos (by simpa using hne)]
        rfl
      rw [hsplit, List.getElem?_append_right (by rw [htake]; simp), htake, hdrop,
        List.length_take, Nat.min_eq_left (by omega), Nat.sub_self] at hb
      exact hb

end Filtered

/-- Filtering keeps the row, or stores a text that reads as the filtered blocks. -/
theorem reFilterForbidden_cases {lower : Str → Str} {phrases : List (Str × Str)}
    {row row' : Audio} (h : (reFilterForbidden lower phrases row).map Prod.snd = .ok row') :
    row' = row ∨ row'.hiddenBlockIndices = row.hiddenBlockIndices ∧
      ∃ blocks, reparse (row.speakerTaggedText.getD []) = .ok blocks ∧
        ¬ NothingMatches lower phrases row blocks ∧
        blocksOf row'.speakerTaggedText =
          (filterBlocks lower phrases blocks).map Block.trim := by
  cases hread : reparse (row.speakerTaggedText.getD []) with
  | error e =>
      by_cases hphrases : phrases = []
      · rw [reFilterForbidden, if_pos hphrases] at h
        injection h with h
        exact Or.inl h.symm
      · have hne : row.speakerTaggedText.getD [] ≠ [] := by
          intro hnil
          rw [hnil] at hread
          cases hread
        simp only [reFilterForbidden, if_neg hphrases, taggedBlocks, if_neg hne, hread, bind,
          Except.bind] at h
        cases h
  | ok blocks =>
      obtain ⟨dropped, new, hfilter, hhidden, ⟨rfl, -⟩ | ⟨hsome, -, htext⟩⟩ :=
        reFilterForbidden_eq lower phrases hread
      · rw [hfilter] at h
        injection h with h
        exact Or.inl h.symm
      · rw [hfilter] at h
        injection h with h
        subst h
        refine Or.inr ⟨hhidden, blocks, rfl, hsome, blocksOf_of_reparses ?_⟩
        rw [htext]
        split
        · -- An empty text has no blocks.
          rename_i hnil
          rw [hnil] at hread ⊢
          cases hread
          exact ⟨[], rfl, rfl⟩
        · exact reparses_filterBlocks hread

/-- A reset leaves no block to point at, or the text that another request stored. -/
theorem pointing_reset {s : World} {snapshot new : Audio} (hinv : Pointing s)
    (hnew : Except.ok (ε := PyError) (resetPipeline snapshot) = .ok new) (rest : List Txn) :
    Pointing ⟨flushColumns snapshot new s.row, rest, s.designated⟩ := by
  injection hnew with hnew
  subst hnew
  intro b hb
  dsimp only [flushColumns, resetPipeline] at hb
  rw [if_pos rfl] at hb
  split at hb
  · exact hinv b hb
  · rw [blocksAt_none] at hb
    cases hb

/-- **What a commit does to the blocks under the indices.** -/
theorem pointing_commit {s : World} {txn : Txn} {new : Audio} (hinv : Pointing s)
    (hkeep : Keeps s txn) (hnew : txn.request.apply txn.snapshot = .ok new) (rest : List Txn) :
    Pointing ⟨flushColumns txn.snapshot new s.row, rest,
      designate s (flushColumns txn.snapshot new s.row) txn.request⟩ := by
  have hself : flushColumns txn.snapshot txn.snapshot s.row = s.row := by
    simp [flushColumns]
  obtain ⟨request, snapshot⟩ := txn
  cases request with
  | patchHidden raw =>
      injection hnew with hnew
      have hhidden : (flushColumns snapshot new s.row).hiddenBlockIndices = patchIndices raw := by
        rw [← hnew]
        dsimp only [flushColumns, patchHiddenBlocks]
        split
        · rename_i hsame
          rw [hsame]
          exact hkeep hsame
        · rfl
      intro b hb
      rw [hhidden] at hb
      exact hb
  | deleteHidden =>
      rcases deleteHiddenBlocks_cases hnew with rfl | ⟨hne, hnil⟩
      · rw [hself]
        exact hinv
      · have hhidden : (flushColumns snapshot new s.row).hiddenBlockIndices = [] := by
          dsimp only [flushColumns]
          rw [hnil, if_neg (Ne.symm hne)]
        intro b hb
        rw [hhidden] at hb
        cases hb
  | reFilter lower phrases =>
      rcases reFilterForbidden_cases hnew with rfl | ⟨hhidden, blocks, hread, hsome, hblocks⟩
      · rw [hself]
        exact hinv
      · have hindices : (flushColumns snapshot new s.row).hiddenBlockIndices =
            s.row.hiddenBlockIndices := by
          dsimp only [flushColumns]
          rw [if_pos hhidden]
        intro b hb
        rw [hindices] at hb
        rcases hkeep with hnil | ⟨htext, hput⟩
        · rw [hnil] at hb
          cases hb
        · dsimp only at htext hread
          rw [htext] at hread
          rcases hput blocks hread with hnothing | hput
          · exact absurd hnothing hsome
          dsimp only [flushColumns] at hb
          split at hb
          · exact hinv b hb
          · obtain ⟨i, hi, hget⟩ := mem_blocksAt.mp hb
            rw [hblocks, List.getElem?_map, Option.map_eq_some_iff] at hget
            obtain ⟨c, hc, rfl⟩ := hget
            refine hinv _ (mem_blocksAt.mpr ⟨i, hi, ?_⟩)
            rw [blocksOf_of_reparses ⟨blocks, hread, rfl⟩, List.getElem?_map,
              getElem?_filterBlocks (hput i hi) hc]
            rfl
  | fullReprocess => exact pointing_reset hinv hnew rest
  | resetAndResubmit => exact pointing_reset hinv hnew rest
  | pipelineStore transcription tagged =>
      injection hnew with hnew
      subst hnew
      intro b hb
      dsimp only [flushColumns] at hb
      rw [if_pos rfl] at hb
      by_cases hnone : tagged = none
      · rw [if_pos hnone, if_pos rfl] at hb
        exact hinv b hb
      · rw [if_neg hnone] at hb
        split at hb
        · exact hinv b hb
        · obtain ⟨i, hi, hget⟩ := mem_blocksAt.mp hb
          rw [hkeep.resolve_left hnone i hi] at hget
          cases hget

theorem irreversible_step (s : World) (a : Action) (s' : World) (hinv : Pointing s)
    (hallowed : Allowed s a) (hs : step s a = some s') : Irreversible s a s' := by
  cases a with
  | read request =>
      injection hs with hs
      subst hs
      exact ⟨fun b hb => absurd hb List.not_mem_nil, hinv⟩
  | commit k =>
      cases htxn : s.underWay[k]? with
      | none => rw [step, htxn] at hs; cases hs
      | some txn =>
          have hkeep := hallowed txn htxn
          refine ⟨?_, ?_⟩
          · -- A deletion removes what its snapshot hides, and that is what the row hides.
            obtain ⟨request, snapshot⟩ := txn
            intro b hb
            rw [removed, htxn] at hb
            cases request with
            | deleteHidden =>
                obtain ⟨hhidden, htext⟩ := hkeep
                dsimp only at hb hhidden htext
                rw [hhidden, htext] at hb
                exact hinv b hb
            | patchHidden raw => cases hb
            | reFilter lower phrases => cases hb
            | fullReprocess => cases hb
            | resetAndResubmit => cases hb
            | pipelineStore transcription tagged => cases hb
          · rw [step, htxn] at hs
            dsimp only at hs
            cases hnew : txn.request.apply txn.snapshot with
            | error e =>
                rw [hnew] at hs
                injection hs with hs
                subst hs
                exact hinv
            | ok new =>
                rw [hnew] at hs
                injection hs with hs
                subst hs
                exact pointing_commit hinv hkeep hnew _

/-- **Irreversible deletion hits the blocks that were hidden**, in every interleaving of
requests on an audio whose commits keep the indices in place. -/
theorem irreversible_of_allowed (transcriptionText speakerTaggedText : Option Str)
    (acts : List Action)
    (hallowed : Guarded step Allowed (World.start transcriptionText speakerTaggedText) acts) :
    Along step Irreversible (World.start transcriptionText speakerTaggedText) acts := by
  refine along_of_guarded step Pointing ?_ (fun b hb => ?_) hallowed
  · intro s a s' hinv ha hs
    have hstep := irreversible_step s a s' hinv ha hs
    exact ⟨hstep, hstep.pointing⟩
  · rw [World.start, blocksAt_nil] at hb
    cases hb

/-! ## A reprocess -/

theorem flushColumns_self (row new : Audio) : flushColumns row new row = new := by
  rw [flushColumns]
  congr <;> (split <;> simp_all)

/-- A commit of a request under way is always possible. -/
theorem along_commit {P : World → Action → World → Prop} {s : World} {k : Nat} {txn : Txn}
    {acts : List Action} (h : Along step P s (.commit k :: acts))
    (htxn : s.underWay[k]? = some txn) : ∃ s', P s (.commit k) s' := by
  have hex : ∃ s', step s (.commit k) = some s' := by
    rw [step, htxn]
    dsimp only
    cases txn.request.apply txn.snapshot with
    | error e => exact ⟨_, rfl⟩
    | ok new => exact ⟨_, rfl⟩
  obtain ⟨s', hs'⟩ := hex
  exact ⟨s', (h s' hs').1⟩

/-- A request that is alone. -/
theorem along_serial {P : World → Action → World → Prop} {row new : Audio} {d : List Block}
    {r : Request} {acts : List Action} (hnew : r.apply row = .ok new)
    (h : Along step P ⟨row, [], d⟩ (.read r :: .commit 0 :: acts)) :
    Along step P ⟨new, [], designate ⟨row, [], d⟩ new r⟩ acts := by
  obtain ⟨-, h⟩ := h _ rfl
  refine (h _ ?_).2
  change (match r.apply row with
    | .error _ => some (⟨row, [], d⟩ : World)
    | .ok new => some ⟨flushColumns row new row, [], designate _ (flushColumns row new row) r⟩) = _
  rw [hnew]
  dsimp only
  rw [flushColumns_self]
  cases r <;> rfl

/-- A text of one block. -/
def oneBlock (text : Str) : Str :=
  (⟨['A'], formatTime 0, formatTime 0, text⟩ : Written).print ++ ['\n']

theorem blocksOf_oneBlock (text : Str) (h : '\n' ∉ text) :
    ∃ b, blocksOf (some (oneBlock text)) = [b] ∧ b.bodyLines = [rstrip ('>' :: ' ' :: text)] := by
  have hzero : ∃ t, ClockReads (formatTime 0) t :=
    ⟨_, clockReads_formatTime (n := 0) (roundHalfEven_intCast 0) (by decide)⟩
  have hlay : LaysOut (oneBlock text) [⟨['A'], formatTime 0, formatTime 0, text⟩] := by
    rw [LaysOut, oneBlock, marked_append, marked_nil, marked_print]
    simp
  have hone : ∀ w ∈ [(⟨['A'], formatTime 0, formatTime 0, text⟩ : Written)],
      w.Stamped ∧ w.Clean := by
    intro w hw
    rw [List.mem_singleton.mp hw]
    have hstar : '*' ∉ ['A'] := by decide
    have hnewline : '\n' ∉ ['A'] := by decide
    exact ⟨⟨formatTime_stamp 0, formatTime_stamp 0⟩,
      ⟨List.cons_ne_nil _ _, hstar, hnewline, hzero, hzero, quoted_of_not_mem h⟩⟩
  obtain ⟨bs, hread, his⟩ := reparses_of_clean hlay (fun w hw => (hone w hw).1)
    fun w hw => (hone w hw).2
  cases his with
  | cons hb hnil =>
      cases hnil
      exact ⟨_, blocksOf_of_reparses hread, hb.bodyLines.trans (spoken_of_not_mem h)⟩

/-- The user hides the only block and deletes it. -/
theorem irreversible_hide_delete : Along step Irreversible
    (World.start none (some (oneBlock ['B', 'o', 'n'])))
    [.read (.patchHidden [0]), .commit 0, .read .deleteHidden, .commit 0] := by
  refine irreversible_of_allowed _ _ _ ⟨trivial, fun s₁ h₁ => ⟨fun txn htxn => ?_, fun s₂ h₂ =>
    ⟨trivial, fun s₃ h₃ => ⟨fun txn htxn => ?_, fun _ _ => trivial⟩⟩⟩⟩
  · injection h₁ with h₁
    subst h₁
    injection htxn with htxn
    subst htxn
    exact fun _ => rfl
  · injection h₁ with h₁
    subst h₁
    injection h₂ with h₂
    subst h₂
    injection h₃ with h₃
    subst h₃
    injection htxn with htxn
    subst htxn
    exact ⟨rfl, rfl⟩

/-- **A reprocess.** The only block is hidden, the meeting is reprocessed and its new
transcription stored, and the deletion removes the new block. -/
theorem reprocess_not_irreversible : ¬ Along step Irreversible
    (World.start none (some (oneBlock ['B', 'o', 'n'])))
    [.read (.patchHidden [0]), .commit 0, .read .fullReprocess, .commit 0,
      .read (.pipelineStore ['O', 'u', 'i'] (some (oneBlock ['O', 'u', 'i']))), .commit 0,
      .read .deleteHidden, .commit 0] := by
  intro h
  have h := along_serial (r := .patchHidden [0]) rfl h
  have h := along_serial (r := .fullReprocess) rfl h
  have h := along_serial (r := .pipelineStore ['O', 'u', 'i'] (some (oneBlock ['O', 'u', 'i'])))
    rfl h
  obtain ⟨-, h⟩ := h _ rfl
  obtain ⟨s', hstep⟩ := along_commit h rfl
  obtain ⟨b, hb, hbody⟩ := blocksOf_oneBlock ['B', 'o', 'n'] (by decide)
  obtain ⟨c, hc, hcbody⟩ := blocksOf_oneBlock ['O', 'u', 'i'] (by decide)
  have hremoved : ∀ b ∈ blocksAt (patchIndices [0]) (some (oneBlock ['O', 'u', 'i'])),
      b ∈ blocksAt (patchIndices [0]) (some (oneBlock ['B', 'o', 'n'])) := hstep.removed
  have hzero : patchIndices [0] = [0] := by decide
  rw [hzero] at hremoved
  have hmem := hremoved c (mem_blocksAt.mpr ⟨0, List.mem_cons_self, by rw [hc]; rfl⟩)
  obtain ⟨i, hi, hget⟩ := mem_blocksAt.mp hmem
  rw [List.mem_singleton] at hi
  rw [hi, hb] at hget
  injection hget with hbc
  rw [← hbc, hbody] at hcbody
  revert hcbody
  decide

end MesReunions.Transcript
