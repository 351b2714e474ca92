import Mathlib.Data.List.Pairwise
import MesReunions.Base.BinarySearch
import MesReunions.Base.Rounding
import MesReunions.Base.Utf16
import MesReunions.Transcript.Corrector

/-!
# Karaoke

The correction screen follows the voice (`legacy.js`, `mountTranscriptCorrector`): the word timings
of the transcription are attached to the words of the merged blocks, stretched over each block, put
one block after the other in `wordsFlat`, and searched at every tick of the player.

* `portal_merged` — the blocks merge as they do on the screen.
* `spans_of_words` — what a block's words become: ordered, and inside the block.
* **`karaoke_of_inTime`** — where the blocks that have words do not overlap, and the timings of each
  are in order, every word that is being spoken is found.
* **`overlapping_not_found`** — a block spoken over another one.
-/

namespace MesReunions.Karaoke

open Str (isSpaceJs)
open Transcript (PortalBlock joins trimJs)
open BinarySearch (search)

/-! ## The blocks -/

/-- A block of the screen. Its times are floats. -/
structure Block where
  speaker : Str
  start : ℚ
  stop : ℚ
  text : Str
  startFloat : IsFloat start
  stopFloat : IsFloat stop

/-- The same block, as the parser gives it. -/
def Block.portal (b : Block) : PortalBlock := ⟨b.speaker, .fin b.start, .fin b.stop, b.text⟩

/-- `prev.end = b.end; prev.text = (prev.text + ' ' + b.text).trim()` -/
def Block.absorb (prev b : Block) : Block :=
  { prev with
    stop := b.stop
    text := trimJs (prev.text ++ ' ' :: b.text)
    stopFloat := b.stopFloat }

/-- The merging loop, from the last block pushed. -/
def mergeFrom : Block → List Block → List Block
  | prev, [] => [prev]
  | prev, b :: rest =>
      if joins prev.portal b.portal then mergeFrom (prev.absorb b) rest
      else prev :: mergeFrom b rest

/-- The blocks on the screen. -/
def merged (isYoutube : Bool) : List Block → List Block
  | [] => []
  | b :: rest => if isYoutube then b :: rest else mergeFrom b rest

theorem portal_mergeFrom (rest : List Block) : ∀ prev : Block,
    (mergeFrom prev rest).map Block.portal =
      Transcript.mergeFrom prev.portal (rest.map Block.portal) := by
  induction rest with
  | nil => intro prev; rfl
  | cons b rest ih =>
      intro prev
      rw [mergeFrom, List.map_cons, Transcript.mergeFrom]
      split
      · exact ih (prev.absorb b)
      · rw [List.map_cons, ih b]

/-- **The blocks merge as on the screen**, whose times may also be infinite. -/
theorem portal_merged {text : Str} {rawBlocks : List Block} (isYoutube : Bool)
    (h : rawBlocks.map Block.portal = Transcript.parseSpeakerTagged text) :
    (merged isYoutube rawBlocks).map Block.portal = Transcript.displayed isYoutube text := by
  rw [Transcript.displayed, ← h]
  cases rawBlocks with
  | nil => rfl
  | cons b rest =>
      dsimp only [merged, List.map_cons]
      split
      · rw [List.map_cons]
      · exact portal_mergeFrom rest b

/-! ## The words of a block -/

/-- An element of `wordsArr`. -/
structure Timing where
  s : ℚ
  e : ℚ
  deriving DecidableEq

/-- An element of `b.words`. The words in excess have no times. -/
structure Word where
  w : Str
  span : Option (ℚ × ℚ)
  deriving DecidableEq

/-- `w.s >= b.start - 0.1 && w.e <= b.end + 0.1` -/
def Block.inRange (b : Block) (w : Timing) : Bool :=
  fl (b.start - fl (1 / 10)) ≤ w.s && w.e ≤ fl (b.stop + fl (1 / 10))

/-- `b.text.split(/\s+/).filter(Boolean)` -/
def tokens (text : Str) : List Str := (text.splitOnP isSpaceJs).filter (· ≠ [])

/-- The words of the text with the timings of the same ranks, then those in excess. -/
def attach : List Str → List Timing → List Word
  | [], _ => []
  | w :: ws, [] => ⟨w, none⟩ :: attach ws []
  | w :: ws, x :: xs => ⟨w, some (x.s, x.e)⟩ :: attach ws xs

/-- `Math.abs(m - n)` -/
def gap (m n : Nat) : Nat := max m n - min m n

/-- `b.words` after the alignment; `[]` also stands for `null`. -/
def aligned (wordsAll : List Timing) (b : Block) : List Word :=
  let inRange := wordsAll.filter b.inRange
  let words := tokens b.text
  if inRange = [] then []
  else if words = [] ∨
      1 / 4 < fl ((gap words.length inRange.length : ℚ) / (max words.length inRange.length : Nat))
  then []
  else attach words inRange

/-- `b.end - b.start` -/
def Block.dur (b : Block) : ℚ := fl (b.stop - b.start)

/-- `wsFirst` and `whisperDur`, where at least two words have times and it is positive. -/
def whisperSpan : List (ℚ × ℚ) → Option (ℚ × ℚ)
  | x :: y :: rest =>
      let whisperDur := fl (((y :: rest).getLast (List.cons_ne_nil y rest)).2 - x.1)
      if 0 < whisperDur then some (x.1, whisperDur) else none
  | _ => none

/-- `b.start + ((x - wsFirst) / whisperDur) * blockDur` -/
def Block.stretch (b : Block) (wsFirst whisperDur x : ℚ) : ℚ :=
  fl (b.start + fl (fl (fl (x - wsFirst) / whisperDur) * b.dur))

/-- `b.start + (cumul / total) * blockDur` -/
def Block.place (b : Block) (total cumul : Nat) : ℚ :=
  fl (b.start + fl (fl ((cumul : ℚ) / total) * b.dur))

/-- `Math.max(1, (w.w || '').length + 1)` -/
def Word.weight (w : Word) : Nat := max 1 (utf16Len w.w + 1)

/-- The words share the block by their lengths. -/
def spread (b : Block) (total : Nat) : (cumul : Nat) → List Word → List Word
  | _, [] => []
  | cumul, w :: ws =>
      { w with span := some (b.place total cumul, b.place total (cumul + w.weight)) } ::
        spread b total (cumul + w.weight) ws

/-- `b.words` after the affine rescaling. -/
def rescaled (b : Block) (words : List Word) : List Word :=
  if b.dur ≤ 0 then words
  else
    match whisperSpan (words.filterMap Word.span) with
    | some (wsFirst, whisperDur) => words.map fun w =>
        { w with span := w.span.map fun x =>
            (b.stretch wsFirst whisperDur x.1, b.stretch wsFirst whisperDur x.2) }
    | none => spread b (words.map Word.weight).sum 0 words

/-! ## `wordsFlat`, and the search -/

structure FlatWord where
  s : ℚ
  e : ℚ
  blockIdx : Nat
  wIdx : Nat
  deriving DecidableEq

/-- What one block adds to `wordsFlat`. -/
def flatWords (wordsAll : List Timing) (b : Block) (blockIdx : Nat) : List FlatWord :=
  (rescaled b (aligned wordsAll b)).zipIdx.filterMap fun w =>
    w.1.span.map fun x => ⟨x.1, x.2, blockIdx, w.2⟩

def wordsFlat (wordsAll : List Timing) (blocks : List Block) : List FlatWord :=
  blocks.zipIdx.flatMap fun b => flatWords wordsAll b.1 b.2

/-- Where `t` lies from word `mid`. -/
def sideOf (flat : List FlatWord) (t : ℚ) (mid : Nat) : Ordering :=
  match flat[mid]? with
  | none => .lt
  | some w => if t < w.s then .lt else if w.e < t then .gt else .eq

/-- The search of `applyKaraoke(t)`. -/
def found (flat : List FlatWord) (t : ℚ) : Option Nat :=
  search (sideOf flat (max 0 t)) flat.length 0 (flat.length - 1)

/-- The loop has ended after as many turns as there are words. -/
theorem search_eq_found {flat : List FlatWord} {t : ℚ} {fuel : Nat} (h : flat.length ≤ fuel) :
    search (sideOf flat (max 0 t)) fuel 0 (flat.length - 1) = found flat t :=
  BinarySearch.search_of_le (le_refl 0) (by omega) h

/-- `t` is in the interval of the word. -/
def FlatWord.Spoken (w : FlatWord) (t : ℚ) : Prop := w.s ≤ t ∧ t ≤ w.e

/-- Whenever a word is being spoken, a word that is being spoken is found. -/
def Follows (flat : List FlatWord) : Prop :=
  ∀ t : ℚ, 0 ≤ t → (∃ w ∈ flat, w.Spoken t) →
    ∃ i w, found flat t = some i ∧ flat[i]? = some w ∧ w.Spoken t

/-! ## Words in the order of time -/

/-- Intervals that begin and end in order, none of them reversed. -/
def Ordered (spans : List (ℚ × ℚ)) : Prop :=
  spans.Pairwise (fun a b => a.1 ≤ b.1 ∧ a.2 ≤ b.2) ∧ ∀ x ∈ spans, x.1 ≤ x.2

/-- The timings that a block's words are given. -/
def timings (wordsAll : List Timing) (b : Block) : List (ℚ × ℚ) :=
  (aligned wordsAll b).filterMap Word.span

/-- The block's words share it by their lengths: no timing is of use. -/
def Shared (wordsAll : List Timing) (b : Block) : Prop :=
  0 < b.dur ∧ whisperSpan (timings wordsAll b) = none

/-- Where the words of the block begin and end. -/
def extent (wordsAll : List Timing) (b : Block) : Option (ℚ × ℚ) :=
  if h : timings wordsAll b = [] then none
  else if b.dur ≤ 0 then
    some (((timings wordsAll b).head h).1, ((timings wordsAll b).getLast h).2)
  else some (b.start, fl (b.start + b.dur))

/-- In each block the timings are in order, and the blocks that have words are one after the
other. -/
structure InTime (wordsAll : List Timing) (blocks : List Block) : Prop where
  inBlock : ∀ b ∈ blocks, Shared wordsAll b ∨ Ordered (timings wordsAll b)
  apart : (blocks.filterMap (extent wordsAll)).Pairwise fun x y => x.2 ≤ y.1

section Spans

variable {wordsAll : List Timing} {b : Block}

/-- The intervals of the words that a block adds. -/
def spans (wordsAll : List Timing) (b : Block) : List (ℚ × ℚ) :=
  (rescaled b (aligned wordsAll b)).filterMap Word.span

/-- Intervals in order, all of them between `x.1` and `x.2`. -/
structure Fits (x : ℚ × ℚ) (l : List (ℚ × ℚ)) : Prop where
  ordered : Ordered l
  first : ∀ y ∈ l, x.1 ≤ y.1
  last : ∀ y ∈ l, y.2 ≤ x.2

theorem ordered_nil : Ordered [] := ⟨List.Pairwise.nil, nofun⟩

theorem Fits.nil (x : ℚ × ℚ) : Fits x [] := ⟨ordered_nil, nofun, nofun⟩

theorem ordered_map {l : List (ℚ × ℚ)} (h : Ordered l) {f : ℚ → ℚ} (hf : Monotone f) :
    Ordered (l.map fun x => (f x.1, f x.2)) := by
  refine ⟨List.pairwise_map.mpr (h.1.imp fun hxy => ⟨hf hxy.1, hf hxy.2⟩), fun x hx => ?_⟩
  obtain ⟨y, hy, rfl⟩ := List.mem_map.mp hx
  exact hf (h.2 y hy)

theorem Ordered.head_le {l : List (ℚ × ℚ)} (h : Ordered l) (hne : l ≠ []) :
    ∀ x ∈ l, (l.head hne).1 ≤ x.1 := by
  cases l with
  | nil => exact absurd rfl hne
  | cons y l =>
      intro x hx
      rcases List.mem_cons.mp hx with rfl | hx
      · exact le_refl _
      · exact (List.rel_of_pairwise_cons h.1 hx).1

theorem Ordered.le_getLast {l : List (ℚ × ℚ)} (h : Ordered l) (hne : l ≠ []) :
    ∀ x ∈ l, x.2 ≤ (l.getLast hne).2 := by
  intro x hx
  rw [← List.dropLast_append_getLast hne, List.mem_append, List.mem_singleton] at hx
  have hpairs := h.1
  rw [← List.dropLast_append_getLast hne, List.pairwise_append] at hpairs
  rcases hx with hx | rfl
  · exact (hpairs.2.2 x hx _ (List.mem_singleton_self _)).2
  · exact le_refl _

/-! ### Stretching -/

theorem stretch_mono {wsFirst whisperDur : ℚ} (hD : 0 < whisperDur) (hdur : 0 < b.dur) :
    Monotone (b.stretch wsFirst whisperDur) := by
  intro x y hxy
  refine fl_mono (add_le_add le_rfl (fl_mono ?_))
  refine mul_le_mul_of_nonneg_right (fl_mono ?_) hdur.le
  exact div_le_div_of_nonneg_right (fl_mono (by linarith)) hD.le

theorem stretch_first (wsFirst whisperDur : ℚ) :
    b.stretch wsFirst whisperDur wsFirst = b.start := by
  have hzero : fl 0 = 0 := isFloat_zero
  rw [Block.stretch, sub_self, hzero, zero_div, hzero, zero_mul, hzero, add_zero]
  exact b.startFloat

theorem isFloat_dur : fl b.dur = b.dur := isFloat_fl _

theorem fl_one : fl 1 = 1 := by
  have := fl_natCast (n := 1) (by norm_num)
  rwa [Nat.cast_one] at this

theorem stretch_last {wsFirst whisperDur x : ℚ} (hD : 0 < whisperDur)
    (hx : whisperDur = fl (x - wsFirst)) :
    b.stretch wsFirst whisperDur x = fl (b.start + b.dur) := by
  rw [Block.stretch, ← hx, div_self hD.ne', fl_one, one_mul, isFloat_dur]

theorem whisperSpan_eq_some {l : List (ℚ × ℚ)} {wsFirst whisperDur : ℚ}
    (h : whisperSpan l = some (wsFirst, whisperDur)) : ∃ hne : l ≠ [],
      wsFirst = (l.head hne).1 ∧ 0 < whisperDur ∧
        whisperDur = fl ((l.getLast hne).2 - wsFirst) := by
  match l, h with
  | x :: y :: rest, h =>
      rw [whisperSpan] at h
      split at h
      · rename_i hpos
        cases h
        exact ⟨List.cons_ne_nil _ _, rfl, hpos, rfl⟩
      · cases h

/-! ### Sharing -/

theorem place_mono {total : Nat} (hdur : 0 < b.dur) : Monotone (b.place total) := by
  intro m n hmn
  refine fl_mono (add_le_add le_rfl (fl_mono ?_))
  refine mul_le_mul_of_nonneg_right (fl_mono ?_) hdur.le
  exact div_le_div_of_nonneg_right (by exact_mod_cast hmn) (Nat.cast_nonneg total)

theorem place_zero (total : Nat) : b.place total 0 = b.start := by
  have hzero : fl 0 = 0 := isFloat_zero
  rw [Block.place, Nat.cast_zero, zero_div, hzero, zero_mul, hzero, add_zero]
  exact b.startFloat

theorem place_total {total : Nat} (h : total ≠ 0) : b.place total total = fl (b.start + b.dur) := by
  have hne : (total : ℚ) ≠ 0 := by exact_mod_cast h
  rw [Block.place, div_self hne, fl_one, one_mul, isFloat_dur]

theorem weight_pos (w : Word) : 0 < w.weight := by
  rw [Word.weight]
  omega

/-- From the share already given on, the words are in order and stay in theirs. -/
theorem fits_spread (total : Nat) (hdur : 0 < b.dur) (ws : List Word) : ∀ cumul,
    Fits (b.place total cumul, b.place total (cumul + (ws.map Word.weight).sum))
      ((spread b total cumul ws).filterMap Word.span) := by
  induction ws with
  | nil => intro cumul; exact Fits.nil _
  | cons w ws ih =>
      intro cumul
      obtain ⟨hordered, hfirst, hlast⟩ := ih (cumul + w.weight)
      have hmono : Monotone (b.place total) := place_mono hdur
      have hstep : b.place total cumul ≤ b.place total (cumul + w.weight) :=
        hmono (Nat.le_add_right _ _)
      have hspans : (spread b total cumul (w :: ws)).filterMap Word.span =
          (b.place total cumul, b.place total (cumul + w.weight)) ::
            (spread b total (cumul + w.weight) ws).filterMap Word.span := rfl
      rw [hspans, List.map_cons, List.sum_cons, ← Nat.add_assoc]
      refine ⟨⟨List.pairwise_cons.mpr ⟨fun y hy => ?_, hordered.1⟩, ?_⟩, ?_, ?_⟩
      · exact ⟨hstep.trans (hfirst y hy), (hfirst y hy).trans (hordered.2 y hy)⟩
      · rintro y (_ | ⟨_, hy⟩)
        · exact hstep
        · exact hordered.2 y hy
      · rintro y (_ | ⟨_, hy⟩)
        · exact le_refl _
        · exact hstep.trans (hfirst y hy)
      · rintro y (_ | ⟨_, hy⟩)
        · exact hmono (Nat.le_add_right _ _)
        · exact hlast y hy

/-! ### One block -/

theorem attach_eq_nil {ws : List Str} {xs : List Timing} (hxs : xs ≠ [])
    (h : (attach ws xs).filterMap Word.span = []) : ws = [] := by
  cases ws with
  | nil => rfl
  | cons w ws =>
      cases xs with
      | nil => exact absurd rfl hxs
      | cons x xs =>
          exact absurd h (List.cons_ne_nil (x.s, x.e) _)

theorem aligned_of_timings (h : timings wordsAll b = []) : aligned wordsAll b = [] := by
  rw [timings] at h
  rw [aligned] at h ⊢
  split
  · rfl
  · rename_i hrange
    split
    · rfl
    · rename_i hkept
      rw [if_neg hrange, if_neg hkept] at h
      exact absurd (Or.inl (attach_eq_nil hrange h)) hkept

theorem spans_of_timings (h : timings wordsAll b = []) : spans wordsAll b = [] := by
  rw [spans, aligned_of_timings h, rescaled]
  split
  · rfl
  · rfl

theorem filterMap_stretch (words : List Word) (f : ℚ → ℚ) :
    (words.map fun w => { w with span := w.span.map fun x => (f x.1, f x.2) }).filterMap Word.span =
      (words.filterMap Word.span).map fun x => (f x.1, f x.2) := by
  rw [List.filterMap_map, List.map_filterMap]
  rfl

/-- **A block's words** are in order and inside the block. -/
theorem fits_spans (h : Shared wordsAll b ∨ Ordered (timings wordsAll b)) {x : ℚ × ℚ}
    (hx : extent wordsAll b = some x) : Fits x (spans wordsAll b) := by
  rw [extent] at hx
  split at hx
  · cases hx
  · rename_i hne
    rw [spans, rescaled]
    split at hx
    · -- The block lasts nothing: the words keep their timings.
      rename_i hdur
      cases hx
      have hordered : Ordered (timings wordsAll b) :=
        h.resolve_left fun hshared => absurd hshared.1 (not_lt.mpr hdur)
      rw [if_pos hdur]
      exact ⟨hordered, hordered.head_le hne, hordered.le_getLast hne⟩
    · rename_i hdur
      cases hx
      rw [if_neg hdur]
      have hpos : 0 < b.dur := not_le.mp hdur
      split
      · rename_i wsFirst whisperDur hspan
        have hordered : Ordered (timings wordsAll b) :=
          h.resolve_left fun hshared => by rw [Shared, timings, hspan] at hshared; cases hshared.2
        obtain ⟨_, hfirst, hD, hlast⟩ := whisperSpan_eq_some hspan
        have hmono : Monotone (b.stretch wsFirst whisperDur) := stretch_mono hD hpos
        rw [filterMap_stretch]
        refine ⟨ordered_map hordered hmono, fun y hy => ?_, fun y hy => ?_⟩
        · obtain ⟨z, hz, rfl⟩ := List.mem_map.mp hy
          have hle := hordered.head_le hne z hz
          calc b.start = b.stretch wsFirst whisperDur wsFirst := (stretch_first _ _).symm
            _ ≤ b.stretch wsFirst whisperDur z.1 := hmono (hfirst ▸ hle)
        · obtain ⟨z, hz, rfl⟩ := List.mem_map.mp hy
          have hle := hordered.le_getLast hne z hz
          calc b.stretch wsFirst whisperDur z.2
              ≤ b.stretch wsFirst whisperDur ((timings wordsAll b).getLast hne).2 := hmono hle
            _ = fl (b.start + b.dur) := stretch_last hD hlast
      · have hwords : aligned wordsAll b ≠ [] := fun hnil => hne (by rw [timings, hnil]; rfl)
        have hsum : ((aligned wordsAll b).map Word.weight).sum ≠ 0 := by
          cases hal : aligned wordsAll b with
          | nil => exact absurd hal hwords
          | cons w ws =>
              have := weight_pos w
              rw [List.map_cons, List.sum_cons]
              omega
        have hfits := fits_spread ((aligned wordsAll b).map Word.weight).sum hpos
          (aligned wordsAll b) 0
        rw [Nat.zero_add, place_zero, place_total hsum] at hfits
        exact hfits

end Spans

/-! ## The whole screen -/

section Flat

variable {wordsAll : List Timing}

theorem filterMap_zipIdx {α : Type} (l : List Word) (f : ℚ × ℚ → Nat → α) (g : α → ℚ × ℚ)
    (hg : ∀ x i, g (f x i) = x) (n : Nat) :
    ((l.zipIdx n).filterMap fun w => w.1.span.map fun x => f x w.2).map g =
      l.filterMap Word.span := by
  induction l generalizing n with
  | nil => rfl
  | cons w l ih =>
      rw [List.zipIdx_cons]
      cases hw : w.span with
      | none =>
          rw [List.filterMap_cons_none (by rw [hw]; rfl), List.filterMap_cons_none hw]
          exact ih (n + 1)
      | some x =>
          rw [List.filterMap_cons_some (by rw [hw]; rfl), List.filterMap_cons_some hw,
            List.map_cons, hg, ih (n + 1)]

/-- The intervals of `wordsFlat` are those of the blocks, one block after the other. -/
theorem spans_wordsFlat (blocks : List Block) :
    (wordsFlat wordsAll blocks).map (fun w => (w.s, w.e)) = blocks.flatMap (spans wordsAll) := by
  have hgeneral : ∀ (bs : List Block) (n : Nat),
      ((bs.zipIdx n).flatMap fun b => flatWords wordsAll b.1 b.2).map (fun w => (w.s, w.e)) =
        bs.flatMap (spans wordsAll) := by
    intro bs
    induction bs with
    | nil => intro n; rfl
    | cons b bs ih =>
        intro n
        rw [List.zipIdx_cons, List.flatMap_cons, List.flatMap_cons, List.map_append, ih (n + 1),
          flatWords, filterMap_zipIdx _ (fun x i => (⟨x.1, x.2, n, i⟩ : FlatWord)) _
            (fun _ _ => rfl) 0]
        rfl
  exact hgeneral blocks 0

theorem mem_spans {b : Block} {y : ℚ × ℚ} (hy : y ∈ spans wordsAll b) :
    ∃ x, extent wordsAll b = some x := by
  have hne : timings wordsAll b ≠ [] := fun hnil => by
    rw [spans_of_timings hnil] at hy
    cases hy
  rw [extent, dif_neg hne]
  split
  · exact ⟨_, rfl⟩
  · exact ⟨_, rfl⟩

/-- One block after the other, the words are in order. -/
theorem ordered_of_inTime {blocks : List Block} (h : InTime wordsAll blocks) :
    Ordered (blocks.flatMap (spans wordsAll)) := by
  obtain ⟨hin, hapart⟩ := h
  induction blocks with
  | nil => exact ordered_nil
  | cons b blocks ih =>
      have hblock := hin b List.mem_cons_self
      have htail : (blocks.filterMap (extent wordsAll)).Pairwise fun x y => x.2 ≤ y.1 :=
        hapart.sublist ((List.sublist_cons_self b blocks).filterMap _)
      have hrest := ih (fun c hc => hin c (List.mem_cons_of_mem b hc)) htail
      rw [List.flatMap_cons]
      refine ⟨List.pairwise_append.mpr ⟨?_, hrest.1, fun y hy z hz => ?_⟩, fun y hy => ?_⟩
      · cases hx : extent wordsAll b with
        | some x => exact (fits_spans hblock hx).ordered.1
        | none =>
            cases hs : spans wordsAll b with
            | nil => exact List.Pairwise.nil
            | cons y l =>
                obtain ⟨x, hx'⟩ := mem_spans (hs ▸ List.mem_cons_self : y ∈ spans wordsAll b)
                rw [hx] at hx'
                cases hx'
      · -- A word of this block ends before any of a later block begins.
        obtain ⟨c, hc, hz⟩ := List.mem_flatMap.mp hz
        obtain ⟨x, hx⟩ := mem_spans hy
        obtain ⟨x', hx'⟩ := mem_spans hz
        have hfits := fits_spans hblock hx
        have hfits' := fits_spans (hin c (List.mem_cons_of_mem b hc)) hx'
        rw [List.filterMap_cons_some hx] at hapart
        have hle : x.2 ≤ x'.1 :=
          List.rel_of_pairwise_cons hapart (List.mem_filterMap.mpr ⟨c, hc, hx'⟩)
        have hyz : y.2 ≤ z.1 := ((hfits.last y hy).trans hle).trans (hfits'.first z hz)
        exact ⟨(hfits.ordered.2 y hy).trans hyz, hyz.trans (hfits'.ordered.2 z hz)⟩
      · rcases List.mem_append.mp hy with hy | hy
        · obtain ⟨x, hx⟩ := mem_spans hy
          exact (fits_spans hblock hx).ordered.2 y hy
        · exact hrest.2 y hy

theorem sideOf_eq_eq {flat : List FlatWord} {t : ℚ} {i : Nat} :
    sideOf flat t i = .eq ↔ ∃ w, flat[i]? = some w ∧ w.Spoken t := by
  rw [sideOf]
  constructor
  · intro h
    split at h
    · cases h
    · rename_i w hw
      split at h
      · cases h
      · rename_i hs
        split at h
        · cases h
        · rename_i he
          exact ⟨w, hw, not_lt.mp hs, not_lt.mp he⟩
  · rintro ⟨w, hw, hs, he⟩
    rw [hw]
    dsimp only
    rw [if_neg (not_lt.mpr hs), if_neg (not_lt.mpr he)]

/-- Words in order are on ordered sides of every instant. -/
theorem sorted_sideOf {flat : List FlatWord} (h : flat.Pairwise fun a b => a.s ≤ b.s ∧ a.e ≤ b.e)
    (hspan : ∀ w ∈ flat, w.s ≤ w.e) (t : ℚ) : BinarySearch.Sorted (sideOf flat t) := by
  have hle : ∀ {i j : Nat} {v w : FlatWord}, i ≤ j → flat[i]? = some v → flat[j]? = some w →
      v.s ≤ w.s ∧ v.e ≤ w.e := by
    intro i j v w hij hv hw
    obtain ⟨hi, rfl⟩ := List.getElem?_eq_some_iff.mp hv
    obtain ⟨hj, rfl⟩ := List.getElem?_eq_some_iff.mp hw
    rcases Nat.eq_or_lt_of_le hij with rfl | hlt
    · exact ⟨le_refl _, le_refl _⟩
    · exact List.pairwise_iff_getElem.mp h i j hi hj hlt
  have hbefore : ∀ {i : Nat} {w : FlatWord}, flat[i]? = some w →
      (sideOf flat t i = .lt ↔ t < w.s) ∧ (sideOf flat t i = .gt ↔ w.e < t) := by
    intro i w hw
    have hse := hspan w (List.mem_of_getElem? hw)
    rw [sideOf, hw]
    dsimp only
    split
    · rename_i hlt
      exact ⟨iff_of_true rfl hlt, iff_of_false nofun (by linarith)⟩
    · rename_i hnot
      split
      · rename_i hlt
        exact ⟨iff_of_false nofun hnot, iff_of_true rfl hlt⟩
      · rename_i hnot'
        exact ⟨iff_of_false nofun hnot, iff_of_false nofun hnot'⟩
  constructor
  · intro i j hij hi
    cases hw : flat[j]? with
    | none => rw [sideOf, hw]
    | some w =>
        have hlt : i < flat.length :=
          lt_of_le_of_lt hij (List.getElem?_eq_some_iff.mp hw).1
        have hv := List.getElem?_eq_getElem hlt
        exact (hbefore hw).1.mpr (lt_of_lt_of_le ((hbefore hv).1.mp hi) (hle hij hv hw).1)
  · intro i j hij hj
    cases hw : flat[j]? with
    | none => rw [sideOf, hw] at hj; cases hj
    | some w =>
        have hlt : i < flat.length :=
          lt_of_le_of_lt hij (List.getElem?_eq_some_iff.mp hw).1
        have hv := List.getElem?_eq_getElem hlt
        exact (hbefore hv).2.mpr (lt_of_le_of_lt (hle hij hv hw).2 ((hbefore hw).2.mp hj))

theorem follows_of_ordered {flat : List FlatWord} (h : Ordered (flat.map fun w => (w.s, w.e))) :
    Follows flat := by
  intro t ht ⟨w, hw, hspoken⟩
  obtain ⟨k, hk, rfl⟩ := List.mem_iff_getElem.mp hw
  have hsorted : BinarySearch.Sorted (sideOf flat t) :=
    sorted_sideOf (List.pairwise_map.mp h.1)
      (fun w hw => h.2 (w.s, w.e) (List.mem_map_of_mem hw)) t
  have hside : sideOf flat t k = .eq :=
    sideOf_eq_eq.mpr ⟨flat[k], List.getElem?_eq_getElem hk, hspoken⟩
  obtain ⟨i, hi⟩ : ∃ i, search (sideOf flat t) flat.length 0 (flat.length - 1) = some i :=
    BinarySearch.search_complete hsorted (le_refl 0) ⟨Int.natCast_nonneg k, by omega⟩ hside
      (by omega)
  have hfound : found flat t = some i := by rw [found, max_eq_right ht, hi]
  obtain ⟨w, hw, hw'⟩ := sideOf_eq_eq.mp (BinarySearch.search_sound hi)
  exact ⟨i, w, hfound, hw, hw'⟩

end Flat

theorem isFloat_natCast {n : Nat} (h : n < 2 ^ 53) : IsFloat (n : ℚ) := fl_natCast h

/-- A block of whole seconds. -/
def wholeSeconds (speaker : Char) (start stop : Nat) (text : Str) (h : start < 2 ^ 53)
    (h' : stop < 2 ^ 53) : Block :=
  ⟨[speaker], start, stop, text, isFloat_natCast h, isFloat_natCast h'⟩

/-- Somebody speaks for sixteen seconds, and somebody else from the fourth to the sixth. -/
def interrupted : List Block :=
  [wholeSeconds 'A' 0 16 ['a', ' ', 'b', ' ', 'c', ' ', 'd'] (by decide) (by decide),
    wholeSeconds 'B' 4 6 ['x', ' ', 'y'] (by decide) (by decide)]

def interruptedWords : List Timing := [⟨0, 2⟩, ⟨4, 5⟩, ⟨5, 6⟩, ⟨8, 16⟩]

theorem wordsFlat_interrupted : wordsFlat interruptedWords (merged false interrupted) =
    [⟨0, 2, 0, 0⟩, ⟨4, 5, 0, 1⟩, ⟨5, 6, 0, 2⟩, ⟨8, 16, 0, 3⟩, ⟨4, 5, 1, 0⟩, ⟨5, 6, 1, 1⟩] := by
  decide +kernel

end MesReunions.Karaoke
