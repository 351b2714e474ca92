import MesReunions.Subtitles.Chunks

/-!
# The loop of `chunk`, by its indices

`chunk` walks over the sorted segments with `i`, `j` and `next_i`; `runsAt` is the same walk on what
is left of them.

* `whileLoop` — the loop, with its two fall-backs, as many turns as `fuel` says.
* **`whileLoop_eq`** — as many turns as there are segments are enough, and they are those of
  `runsAt`.
* `Follow` — from one chunk to the next: a step forward, and no gap.
* **`chunks_cover`** — the chunks are runs of segments that cover them all.
-/

namespace MesReunions.Subtitles

variable {target overlap : ℚ}

/-! ## The loop -/

/-- `segs[t]` still goes on a chunk that starts with `s`. -/
def fits (target : ℚ) (s t : Segment) : Bool :=
  !PyFloat.lt (.fin target) (t.stop.sub (.fin s.startSeconds))

/-- `t` starts in the last `overlap` seconds of a chunk that ends with `last`. -/
def inOverlap (overlap : ℚ) (last t : Segment) : Bool :=
  (last.stop.sub (.fin overlap)).le (.fin t.startSeconds)

/-- The `(i, j)` of each chunk from position `i` on, or `none` where the turns do not suffice. -/
def whileLoop (target overlap : ℚ) (segs : List Segment) : Nat → Nat → Option (List (Nat × Nat))
  | 0, i => if i < segs.length then none else some []
  | fuel + 1, i =>
      match segs.drop i with
      | [] => some []
      | s :: rest =>
          let more := rest.takeWhile (fits target s)
          let j := i + 1 + more.length
          if segs.length ≤ j then some [(i, j)]
          else
            -- `findIdx` is the length where nothing is found: the first fall-back.
            let next := i + 1 + more.findIdx (inOverlap overlap (more.getLastD s))
            let next := if next ≤ i then i + 1 else next
            (whileLoop target overlap segs fuel next).map ((i, j) :: ·)

/-- `segs[i:j]` -/
def slice (segs : List Segment) (r : Nat × Nat) : List Segment := (segs.drop r.1).take (r.2 - r.1)

/-! ## One walk -/

theorem fill_eq (s : Segment) (xs : List Segment) :
    fill target (.fin s.startSeconds) xs = xs.takeWhile (fits target s) := by
  induction xs with
  | nil => rfl
  | cons t xs ih =>
      rw [fill]
      split
      · rename_i hover
        rw [List.takeWhile_cons_of_neg (by simp [fits, hover])]
      · rename_i hover
        rw [List.takeWhile_cons_of_pos (by simp [fits, hover]), ih]

theorem findIdx_eq_length_takeWhile {α : Type} (p : α → Bool) (xs : List α) :
    xs.findIdx p = (xs.takeWhile fun x => !p x).length := by
  induction xs with
  | nil => rfl
  | cons x xs ih =>
      cases hx : p x with
      | true => simp [List.findIdx_cons, hx]
      | false => simp [List.findIdx_cons, hx, ih]

theorem advanceOf_eq (s : Segment) (more : List Segment) :
    advanceOf overlap s more = 1 + more.findIdx (inOverlap overlap (more.getLastD s)) := by
  rw [findIdx_eq_length_takeWhile]
  rfl

/-- The positions of runs, from `i` on. -/
def rangesFrom (i : Nat) : List Run → List (Nat × Nat)
  | [] => []
  | r :: rest => (i, i + r.segs.length) :: rangesFrom (i + r.advance) rest

/-- **The walk**: as many turns as there are segments left are enough. -/
theorem whileLoop_eq (segs : List Segment) {fuel i : Nat} (hfuel : segs.length ≤ i + fuel) :
    whileLoop target overlap segs fuel i =
      some (rangesFrom i (runsAt target overlap 0 (segs.drop i))) := by
  induction fuel generalizing i with
  | zero =>
      rw [whileLoop, if_neg (by omega), List.drop_eq_nil_of_le (by omega)]
      rfl
  | succ fuel ih =>
      rw [whileLoop]
      cases hdrop : segs.drop i with
      | nil => rfl
      | cons s rest =>
          have hlength : segs.length = i + 1 + rest.length := by
            have hall := congrArg List.length hdrop
            rw [List.length_drop, List.length_cons] at hall
            omega
          have hle : (rest.takeWhile (fits target s)).length ≤ rest.length :=
            (List.takeWhile_sublist _).length_le
          dsimp only
          rw [runsAt, fill_eq]
          by_cases hlast : (rest.takeWhile (fits target s)).length = rest.length
          · rw [if_pos (by omega), if_pos hlast]
            simp only [rangesFrom, List.length_cons]
            congr 3
            omega
          · rw [if_neg (by omega), if_neg hlast, if_neg (by omega), ih (by omega)]
            -- The walk goes on where `advanceOf` says.
            have hnext : i + 1 + (rest.takeWhile (fits target s)).findIdx
                (inOverlap overlap ((rest.takeWhile (fits target s)).getLastD s)) =
                i + advanceOf overlap s (rest.takeWhile (fits target s)) := by
              rw [advanceOf_eq, Nat.add_assoc]
            have hdropped : segs.drop (i + advanceOf overlap s (rest.takeWhile (fits target s))) =
                rest.drop (advanceOf overlap s (rest.takeWhile (fits target s)) - 1) := by
              rw [advanceOf_eq, Nat.add_sub_cancel_left, ← List.drop_drop, hdrop, Nat.add_comm 1,
                List.drop_succ_cons]
            have hlength' : i + 1 + (rest.takeWhile (fits target s)).length =
                i + (s :: rest.takeWhile (fits target s)).length := by
              rw [List.length_cons]
              omega
            rw [hnext, hdropped, ← runsAt_skip, hlength', Option.map_some, rangesFrom]

/-! ## What the chunks cover -/

/-- The next chunk starts further on, and not past the end of this one. -/
def Follow (r r' : Nat × Nat) : Prop := r.1 < r'.1 ∧ r'.1 ≤ r.2

/-- The chunks from position `i` on are pieces of the segments that leave nothing out. -/
structure Covers (n i : Nat) (ranges : List (Nat × Nat)) : Prop where
  first : ∀ r ∈ ranges.head?, r.1 = i
  bounds : ∀ r ∈ ranges, i ≤ r.1 ∧ r.1 < r.2 ∧ r.2 ≤ n
  follow : ranges.IsChain Follow
  covered : ∀ k, i ≤ k → k < n → ∃ r ∈ ranges, r.1 ≤ k ∧ k < r.2

/-- The chunk of these segments. -/
def chunkOf (segs : List Segment) : ChunkDict := Run.chunk ⟨segs, 0⟩

theorem length_of_runsAt {segs : List Segment} {i : Nat} {r : Run} {rest : List Run}
    (h : r :: rest = runsAt target overlap 0 (segs.drop i)) :
    i < segs.length ∧ i + r.segs.length ≤ segs.length ∧ r.segs ≠ [] ∧
      r.segs = slice segs (i, i + r.segs.length) ∧
      (i + r.segs.length = segs.length ∧ rest = [] ∨
        1 ≤ r.advance ∧ r.advance ≤ r.segs.length ∧
          rest = runsAt target overlap 0 (segs.drop (i + r.advance))) := by
  have hne : segs.drop i ≠ [] := by
    intro hnil
    rw [hnil] at h
    cases h
  have hi : i < segs.length := by
    by_contra hge
    exact hne (List.drop_eq_nil_of_le (not_lt.mp hge))
  obtain ⟨r', rest', hruns, hpre, hsegs, hnext⟩ := runsAt_spec target overlap hne
  rw [hruns] at h
  cases h
  have hle := hpre.length_le
  rw [List.length_drop] at hle
  refine ⟨hi, by omega, hsegs, ?_, ?_⟩
  · rw [slice, Nat.add_sub_cancel_left]
    exact List.prefix_iff_eq_take.mp hpre
  · rcases hnext with ⟨hall, hrest⟩ | ⟨hpos, hadv, hrest⟩
    · refine .inl ⟨?_, hrest⟩
      rw [hall, List.length_drop]
      omega
    · exact .inr ⟨hpos, hadv, by rw [hrest, List.drop_drop]⟩

theorem covers_rangesFrom {segs : List Segment} {rs : List Run} {i : Nat}
    (h : rs = runsAt target overlap 0 (segs.drop i)) :
    Covers segs.length i (rangesFrom i rs) := by
  induction rs generalizing i with
  | nil =>
      have hge : segs.length ≤ i := by
        by_contra hlt
        obtain ⟨s, rest, hdrop⟩ := List.exists_cons_of_ne_nil
          (show segs.drop i ≠ [] by rw [ne_eq, List.drop_eq_nil_iff]; exact hlt)
        obtain ⟨r, rest', hruns, -⟩ := runsAt_spec target overlap
          (List.cons_ne_nil s rest)
        rw [hdrop, hruns] at h
        cases h
      exact ⟨nofun, nofun, .nil, fun k hik hkn => absurd hkn (by omega)⟩
  | cons r rest ih =>
      obtain ⟨hi, hle, hne, -, hnext⟩ := length_of_runsAt h
      have hpos : 0 < r.segs.length := List.length_pos_iff.mpr hne
      rcases hnext with ⟨hend, rfl⟩ | ⟨hadv, hadvle, hrest⟩
      · refine ⟨?_, ?_, .singleton _, ?_⟩
        · rintro r' ⟨⟩
          rfl
        · intro r' hr'
          rw [List.mem_singleton.mp hr']
          exact ⟨le_refl i, by dsimp only; omega, hle⟩
        · exact fun k hik hkn => ⟨_, List.mem_cons_self, hik, by dsimp only; omega⟩
      · have hcovers := ih hrest
        refine ⟨?_, ?_, ?_, ?_⟩
        · rintro r' ⟨⟩
          rfl
        · intro r' hr'
          rcases List.mem_cons.mp hr' with rfl | hr'
          · exact ⟨le_refl i, by dsimp only; omega, hle⟩
          · obtain ⟨h₁, h₂, h₃⟩ := hcovers.bounds r' hr'
            exact ⟨by omega, h₂, h₃⟩
        · refine List.isChain_cons.mpr ⟨fun r' hr' => ?_, hcovers.follow⟩
          rw [Follow, hcovers.first r' hr']
          exact ⟨by dsimp only; omega, by dsimp only; omega⟩
        · intro k hik hkn
          by_cases hk : k < i + r.segs.length
          · exact ⟨_, List.mem_cons_self, hik, hk⟩
          · obtain ⟨r', hr', hin⟩ := hcovers.covered k (by omega) hkn
            exact ⟨r', List.mem_cons_of_mem _ hr', hin⟩

/-- The chunks are those of the ranges. -/
theorem chunks_rangesFrom {segs : List Segment} {rs : List Run} {i : Nat}
    (h : rs = runsAt target overlap 0 (segs.drop i)) :
    rs.map Run.chunk = (rangesFrom i rs).map fun r => chunkOf (slice segs r) := by
  induction rs generalizing i with
  | nil => rfl
  | cons r rest ih =>
      obtain ⟨-, -, -, hslice, hnext⟩ := length_of_runsAt h
      rw [List.map_cons, rangesFrom, List.map_cons, ← hslice]
      have hrest : rest.map Run.chunk =
          (rangesFrom (i + r.advance) rest).map fun r => chunkOf (slice segs r) := by
        rcases hnext with ⟨-, rfl⟩ | ⟨-, -, hrest⟩
        · rfl
        · exact ih hrest
      rw [hrest]
      rfl

theorem mem_rangesFrom {segs : List Segment} {rs : List Run} {i : Nat} {p : Nat × Nat}
    (h : rs = runsAt target overlap 0 (segs.drop i)) (hp : p ∈ rangesFrom i rs) :
    ∃ r ∈ rs, r.segs = slice segs p ∧ p.2 = p.1 + r.segs.length := by
  induction rs generalizing i with
  | nil => cases hp
  | cons r rest ih =>
      obtain ⟨-, -, -, hslice, hnext⟩ := length_of_runsAt h
      rcases List.mem_cons.mp hp with rfl | hp
      · exact ⟨r, List.mem_cons_self, hslice, rfl⟩
      · rcases hnext with ⟨-, rfl⟩ | ⟨-, -, hrest⟩
        · cases hp
        · obtain ⟨r', hr', hin⟩ := ih hrest hp
          exact ⟨r', List.mem_cons_of_mem _ hr', hin⟩

theorem stop_ne_nan (s : Segment) : s.stop ≠ .nan :=
  PyFloat.ofRat_ne_nan (s.startSeconds + s.durationSeconds)

/-- A chunk of more than one segment does not exceed the target. -/
theorem spans_of_mem {xs : List Segment} {skip : Nat} {r : Run}
    (hr : r ∈ runsAt target overlap skip xs) : r.segs.length = 1 ∨
      (r.chunk.endSeconds.sub r.chunk.startSeconds).le (.fin target) = true := by
  have hrun : ∀ (s : Segment) (more : List Segment) (n : Nat), (∀ t ∈ more, fits target s t = true) →
      (Run.mk (s :: more) n).segs.length = 1 ∨ ((Run.mk (s :: more) n).chunk.endSeconds.sub
        (Run.mk (s :: more) n).chunk.startSeconds).le (.fin target) = true := by
    intro s more n hfits
    by_cases hnil : more = []
    · subst hnil
      exact .inl rfl
    · refine .inr ?_
      have hlast : more.getLastD s ∈ more := by
        rw [List.getLastD_eq_getLast?, List.getLast?_eq_some_getLast hnil]
        exact List.getLast_mem hnil
      have hfit := hfits _ hlast
      rw [fits, Bool.not_eq_true'] at hfit
      exact PyFloat.le_of_not_lt (PyFloat.add_fin_ne_nan (stop_ne_nan _) _) hfit
  induction xs generalizing skip with
  | nil => cases hr
  | cons s rest ih =>
      cases skip with
      | succ skip => exact ih hr
      | zero =>
          have hfits : ∀ t ∈ fill target (.fin s.startSeconds) rest, fits target s t = true := by
            intro t ht
            rw [fill_eq] at ht
            exact List.mem_takeWhile_imp ht
          rw [runsAt] at hr
          split at hr
          · rw [List.mem_singleton.mp hr]
            exact hrun s _ _ hfits
          · rcases List.mem_cons.mp hr with rfl | hr
            · exact hrun s _ _ hfits
            · exact ih hr

theorem pairwise_inOrder (segments : List Segment) :
    (inOrder segments).Pairwise fun a b => a.startSeconds ≤ b.startSeconds := by
  have hsorted := List.pairwise_mergeSort
    (fun (a b c : Segment) hab hbc =>
      decide_eq_true ((of_decide_eq_true hab).trans
        (of_decide_eq_true hbc) : a.startSeconds ≤ c.startSeconds))
    (fun a b => by simpa using le_total a.startSeconds b.startSeconds) segments
  exact hsorted.imp fun h => of_decide_eq_true h

/-- A chunk starts with the segment at its position. -/
theorem start_slice {segs : List Segment} {r : Nat × Nat} (hr : r.1 < r.2) (hn : r.1 < segs.length) :
    (chunkOf (slice segs r)).startSeconds = .fin segs[r.1].startSeconds := by
  rw [slice, List.drop_eq_getElem_cons hn, show r.2 - r.1 = (r.2 - r.1 - 1) + 1 by omega,
    List.take_succ_cons]
  rfl

/-- **The chunks cover the subtitles.** The loop ends, whatever the times; its chunks are pieces of
the sorted segments, each one starting further on than the one before and not past its end, that
leave no segment out; they come in the order of their start, and none but a single segment is
longer than the target. -/
theorem chunks_cover (segments : List Segment) (target overlap : ℚ) :
    ∃ ranges : List (Nat × Nat),
      (∀ fuel, (inOrder segments).length ≤ fuel →
        whileLoop target overlap (inOrder segments) fuel 0 = some ranges) ∧
      chunk segments target overlap =
        ranges.map (fun r => chunkOf (slice (inOrder segments) r)) ∧
      Covers (inOrder segments).length 0 ranges ∧
      (chunk segments target overlap).Pairwise
        (fun c d => c.startSeconds.le d.startSeconds = true) ∧
      ∀ r ∈ ranges, r.2 = r.1 + 1 ∨
        ((chunkOf (slice (inOrder segments) r)).endSeconds.sub
          (chunkOf (slice (inOrder segments) r)).startSeconds).le (.fin target) = true := by
  have hruns : runs segments target overlap =
      runsAt target overlap 0 ((inOrder segments).drop 0) := rfl
  have hcovers := covers_rangesFrom hruns
  have hchunks : chunk segments target overlap =
      (rangesFrom 0 (runs segments target overlap)).map
        fun r => chunkOf (slice (inOrder segments) r) := chunks_rangesFrom hruns
  refine ⟨rangesFrom 0 (runs segments target overlap), ?_, hchunks, hcovers, ?_, ?_⟩
  · intro fuel hfuel
    exact whileLoop_eq (inOrder segments) (by omega)
  · rw [hchunks, List.pairwise_map]
    have hpositions : (rangesFrom 0 (runs segments target overlap)).Pairwise
        fun r r' => r.1 < r'.1 :=
      (hcovers.follow.imp fun _ _ h => h.1).pairwise
    refine hpositions.imp_of_mem fun {r r'} hr hr' hlt => ?_
    obtain ⟨-, hlt₁, hle₁⟩ := hcovers.bounds r hr
    obtain ⟨-, hlt₂, hle₂⟩ := hcovers.bounds r' hr'
    rw [start_slice hlt₁ (by omega), start_slice hlt₂ (by omega)]
    exact decide_eq_true (List.pairwise_iff_getElem.mp (pairwise_inOrder segments) _ _ _ _ hlt)
  · intro r hr
    obtain ⟨x, hx, hsegs, hlength⟩ := mem_rangesFrom hruns hr
    rcases spans_of_mem hx with hone | hspan
    · exact .inl (by rw [hlength, hone])
    · rw [← hsegs]
      exact .inr hspan

end MesReunions.Subtitles
