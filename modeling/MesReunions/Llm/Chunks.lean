import MesReunions.Llm.Echo

/-!
# The chunks cover the text

Where the chunks of `_chunk_text` lie, for chunks of one character or more and any overlap.

* `Covers` — spans that start one after another from a position, without a gap, to the end.
* `chunksFrom_covers` — the loop, from any position: each turn adds one span.
* **`chunkText_covers`** — so are the chunks of a text.
-/

namespace MesReunions.Llm

/-- The part of a text between two positions. -/
def spanText (text : Str) (s : Nat × Nat) : Str := (text.drop s.1).take (s.2 - s.1)

/-- **Spans that cover a text** from a position on. -/
structure Covers (text : Str) (size pos : Nat) (spans : List (Nat × Nat)) : Prop where
  first : spans.head?.map Prod.fst = some pos
  last : spans.getLast?.map Prod.snd = some text.length
  inside : ∀ s ∈ spans, s.1 ≤ s.2 ∧ s.2 ≤ s.1 + size ∧ s.2 ≤ text.length
  /-- Each one starts after the start of the one before it, and no later than its end. -/
  chain : spans.IsChain fun s t => s.1 < t.1 ∧ t.1 ≤ s.2
  /-- No more spans than positions. -/
  count : spans.length ≤ max 1 (text.length - pos)

section Spans

variable {text : Str} {size pos stop next : Nat} {spans : List (Nat × Nat)}

theorem Covers.single (hpos : pos ≤ text.length) (hsize : text.length ≤ pos + size) :
    Covers text size pos [(pos, text.length)] where
  first := rfl
  last := rfl
  inside := by
    intro s hs
    rw [List.mem_singleton.mp hs]
    exact ⟨hpos, hsize, le_rfl⟩
  chain := List.IsChain.singleton _
  count := le_max_left 1 _

theorem Covers.cons (h : Covers text size next spans) (hstart : pos < next) (hnext : next ≤ stop)
    (hsize : stop ≤ pos + size) (hstop : stop < text.length) :
    Covers text size pos ((pos, stop) :: spans) := by
  obtain ⟨s, rest, rfl⟩ : ∃ s rest, spans = s :: rest := by
    cases spans with
    | nil => cases h.first
    | cons s rest => exact ⟨s, rest, rfl⟩
  have hfirst : s.1 = next := Option.some.inj h.first
  have hcount : (s :: rest).length ≤ max 1 (text.length - next) := h.count
  refine ⟨rfl, ?_, ?_, ?_, ?_⟩
  · rw [List.getLast?_cons_cons]
    exact h.last
  · refine List.forall_mem_cons.mpr ⟨⟨?_, hsize, ?_⟩, h.inside⟩
    · show pos ≤ stop
      omega
    · show stop ≤ text.length
      omega
  · refine List.isChain_cons_cons.mpr ⟨⟨?_, ?_⟩, h.chain⟩
    · show pos < s.1
      omega
    · show s.1 ≤ stop
      omega
  · rw [List.length_cons]
    omega

end Spans

variable {cfg : ChunkConfig} {text : Str}

/-- **The loop covers the text** from its position to the end. The induction is on what is left. -/
theorem chunksFrom_covers (hsize : 1 ≤ cfg.size) (pos : Nat) (hpos : pos < text.length) :
    ∃ spans, chunksFrom cfg text pos = spans.map (spanText text) ∧
      Covers text cfg.size pos spans := by
  induction pos using chunksFrom.induct cfg text with
  | case1 pos _ stop hstop =>
      have hend := chunkEnd_spec cfg text pos
      have hlast : stop = text.length := by
        change chunkEnd cfg text pos = text.length
        change text.length ≤ chunkEnd cfg text pos at hstop
        omega
      have hfull : text.length ≤ pos + cfg.size := by
        change text.length ≤ chunkEnd cfg text pos at hstop
        omega
      refine ⟨[(pos, text.length)], ?_, Covers.single (by omega) hfull⟩
      rw [chunksFrom, if_pos hpos]
      dsimp only
      rw [if_pos hstop, ← hlast]
      rfl
  | case2 pos _ stop hstop ih =>
      have hend := chunkEnd_spec cfg text pos
      have hchunk : pos < stop ∧ stop ≤ pos + cfg.size ∧ stop < text.length := by
        change pos < chunkEnd cfg text pos ∧ chunkEnd cfg text pos ≤ pos + cfg.size ∧
          chunkEnd cfg text pos < text.length
        change ¬ text.length ≤ chunkEnd cfg text pos at hstop
        omega
      -- The overlap never moves the next start back to the start of this chunk.
      have hnext : pos < max (stop - cfg.overlap) (pos + 1) ∧
          max (stop - cfg.overlap) (pos + 1) ≤ stop := by omega
      obtain ⟨spans, hspans, hcovers⟩ := ih (by omega)
      refine ⟨(pos, stop) :: spans, ?_,
        hcovers.cons hnext.1 hnext.2 hchunk.2.1 hchunk.2.2⟩
      rw [chunksFrom, if_pos hpos]
      dsimp only
      rw [if_neg hstop, hspans]
      rfl
  | case3 pos hnot => exact absurd hpos hnot

/-- **The chunks of a text** are its parts on spans that cover it, from the beginning to the end. -/
theorem chunkText_covers (cfg : ChunkConfig) (hsize : 1 ≤ cfg.size) (text : Str) :
    ∃ spans, chunkText cfg text = spans.map (spanText text) ∧ Covers text cfg.size 0 spans := by
  rw [chunkText]
  split
  · rename_i hshort
    refine ⟨[(0, text.length)], ?_, Covers.single (Nat.zero_le _) (by omega)⟩
    rw [List.map_singleton, spanText]
    show [text] = [text.take text.length]
    rw [List.take_length]
  · exact chunksFrom_covers hsize 0 (by omega)

/-- An overlap that is longer than the chunks. -/
theorem chunkText_covers_overlap :
    1 ≤ 2 ∧ ∃ spans, chunkText ⟨3, 2, 5⟩ "abcde".toList = spans.map (spanText "abcde".toList) ∧
      Covers "abcde".toList 2 0 spans :=
  ⟨by decide, chunkText_covers ⟨3, 2, 5⟩ (by decide) "abcde".toList⟩

end MesReunions.Llm
