import MesReunions.Base.Float
import MesReunions.Base.Split

/-!
# Chunks of subtitles

`services/video_ingest/app/chunking.py` and `types.py`: the segments of a video, in start order,
put together in chunks of some 75 seconds that overlap by some 15.

* `Run` — the segments of a chunk, and how many of them come before the next one.
* `runsAt` — the loop of `chunk`.
* **`runsAt_spec`** — one turn of it: a chunk is a piece of what is left, and the next one starts
  inside of it or right after.
-/

namespace MesReunions.Subtitles

open Str

/-- `TranscriptSegment`; times are finite. -/
structure Segment where
  text : Str
  startSeconds : ℚ
  durationSeconds : ℚ
  deriving DecidableEq

/-- `start_seconds + duration_seconds` -/
def Segment.stop (s : Segment) : PyFloat := .add (.fin s.startSeconds) (.fin s.durationSeconds)

/-- `" ".join(s.text.strip() for s in segs if s.text.strip())` -/
def textOf (segs : List Segment) : Str :=
  joinWords ((segs.map fun s => strip s.text).filter (· ≠ []))

/-- `FetchedTranscript.full_text` -/
def fullText (segments : List Segment) : Str := textOf segments

/-- `sorted(segments, key=lambda s: s.start_seconds)` -/
def inOrder (segments : List Segment) : List Segment :=
  segments.mergeSort fun a b => decide (a.startSeconds ≤ b.startSeconds)

/-- `ChunkDict` -/
structure ChunkDict where
  startSeconds : PyFloat
  endSeconds : PyFloat
  text : Str

/-- `chunk_segs` and `next_i - i`. -/
structure Run where
  segs : List Segment
  advance : Nat
  deriving DecidableEq

/-- The segments that go on a chunk after its first one. -/
def fill (target : ℚ) (chunkStart : PyFloat) : List Segment → List Segment
  | [] => []
  | s :: rest =>
      if PyFloat.lt (.fin target) (s.stop.sub chunkStart) then [] else s :: fill target chunkStart rest

/-- `chunk_end`, where the first segment of the chunk is `s`. -/
def endOf (s : Segment) (more : List Segment) : PyFloat := (more.getLastD s).stop

/-- `next_i - i`: the first segment that starts in the last `overlap` seconds, the first apart. -/
def advanceOf (overlap : ℚ) (s : Segment) (more : List Segment) : Nat :=
  let threshold := (endOf s more).sub (.fin overlap)
  1 + (more.takeWhile fun t => !threshold.le (.fin t.startSeconds)).length

/-- The loop of `chunk`; `skip` segments come before the next chunk. -/
def runsAt (target overlap : ℚ) (skip : Nat) : List Segment → List Run
  | [] => []
  | s :: rest =>
      match skip with
      | skip + 1 => runsAt target overlap skip rest
      | 0 =>
          let more := fill target (.fin s.startSeconds) rest
          if more.length = rest.length then [⟨s :: more, 1 + more.length⟩]
          else
            ⟨s :: more, advanceOf overlap s more⟩ ::
              runsAt target overlap (advanceOf overlap s more - 1) rest

def runs (segments : List Segment) (target overlap : ℚ) : List Run :=
  runsAt target overlap 0 (inOrder segments)

def Run.chunk (r : Run) : ChunkDict where
  startSeconds := match r.segs with
    | s :: _ => .fin s.startSeconds
    | [] => .nan
  endSeconds := match r.segs with
    | s :: more => endOf s more
    | [] => .nan
  text := textOf r.segs

/-- `chunk(segments, target_seconds=…, overlap_seconds=…)` -/
def chunk (segments : List Segment) (target overlap : ℚ) : List ChunkDict :=
  (runs segments target overlap).map Run.chunk

/-- The default values of `chunk`. -/
def targetSeconds : ℚ := 75

def overlapSeconds : ℚ := 15

/-- Segments that come in order are left so. -/
theorem inOrder_of_pairwise {segments : List Segment}
    (h : segments.Pairwise fun a b => a.startSeconds ≤ b.startSeconds) :
    inOrder segments = segments :=
  List.mergeSort_of_pairwise (h.imp fun hle => decide_eq_true hle)

/-! ## One turn of the loop -/

variable {target overlap : ℚ}

theorem runsAt_skip (skip : Nat) (xs : List Segment) :
    runsAt target overlap skip xs = runsAt target overlap 0 (xs.drop skip) := by
  induction xs generalizing skip with
  | nil => simp [runsAt]
  | cons s rest ih =>
      cases skip with
      | zero => rfl
      | succ skip => simpa [runsAt] using ih skip

theorem fill_prefix (target : ℚ) (chunkStart : PyFloat) (xs : List Segment) :
    fill target chunkStart xs <+: xs := by
  induction xs with
  | nil => exact List.prefix_rfl
  | cons s rest ih =>
      rw [fill]
      split
      · exact List.nil_prefix
      · exact List.prefix_cons_inj s |>.mpr ih

/-- **One chunk.** It is a piece of what is left, and either the last one, or the next one starts
at one of its segments but the first, or right after it. -/
theorem runsAt_spec (target overlap : ℚ) {xs : List Segment} (hne : xs ≠ []) :
    ∃ r rest, runsAt target overlap 0 xs = r :: rest ∧ r.segs <+: xs ∧ r.segs ≠ [] ∧
      (r.segs = xs ∧ rest = [] ∨
        1 ≤ r.advance ∧ r.advance ≤ r.segs.length ∧
          rest = runsAt target overlap 0 (xs.drop r.advance)) := by
  obtain ⟨s, more, rfl⟩ := List.exists_cons_of_ne_nil hne
  have hfill := fill_prefix target (.fin s.startSeconds) more
  simp only [runsAt]
  split
  · rename_i hall
    have heq := hfill.eq_of_length hall
    refine ⟨_, _, rfl, ?_, List.cons_ne_nil _ _, .inl ⟨?_, rfl⟩⟩
    · exact List.prefix_cons_inj s |>.mpr hfill
    · rw [heq]
  · refine ⟨_, _, rfl, List.prefix_cons_inj s |>.mpr hfill, List.cons_ne_nil _ _, .inr ⟨?_, ?_, ?_⟩⟩
    · exact Nat.le_add_right 1 _
    · have hle := (List.takeWhile_sublist (l := fill target (.fin s.startSeconds) more)
        fun t => !((endOf s (fill target (.fin s.startSeconds) more)).sub (.fin overlap)).le
          (.fin t.startSeconds)).length_le
      simp only [advanceOf, List.length_cons]
      omega
    · rw [runsAt_skip]
      obtain ⟨n, hn⟩ : ∃ n, advanceOf overlap s (fill target (.fin s.startSeconds) more) = n + 1 :=
        ⟨_, Nat.add_comm ..⟩
      rw [hn, Nat.add_sub_cancel, List.drop_succ_cons]

end MesReunions.Subtitles
