import MesReunions.Subtitles.Ranges

/-!
# Chunks that bring nothing new

A chunk restarts inside of the one before. Where the segment that has closed that one is long, it
may close the new one too, before anything new has gone on it.

* `ClosedBy`, `NextAt`, `Starts` — the walk of `chunk`, by what it finds.
* `Steady` — a segment that closes a chunk goes on the next one, and a chunk that is closed ends
  more than the overlap after those that it shares with the one before.
* **`noneRedundant_iff`** — in such a list, and in no other, each chunk brings a new segment and
  each segment is in two chunks at most.
* **`nested_chunks`** — a segment of more than a minute, after a shared one.
-/

namespace MesReunions.Subtitles

variable {target overlap : ℚ} {segs : List Segment} {i j k : Nat}

/-! ## Statements -/

/-- Segment `k` goes on a chunk that starts at `i`. -/
def FitsAt (target : ℚ) (segs : List Segment) (i k : Nat) : Prop :=
  ∃ s ∈ segs[i]?, ∃ t ∈ segs[k]?, fits target s t = true

/-- Segment `k` starts in the overlap of a chunk that ends before `j`. -/
def NearEnd (overlap : ℚ) (segs : List Segment) (j k : Nat) : Prop :=
  ∃ l ∈ segs[j - 1]?, ∃ t ∈ segs[k]?, inOverlap overlap l t = true

/-- A chunk from `i` is closed by segment `j`. -/
structure ClosedBy (target : ℚ) (segs : List Segment) (i j : Nat) : Prop where
  lt : i < j
  inside : j < segs.length
  fits : ∀ k, i < k → k < j → FitsAt target segs i k
  stops : ¬ FitsAt target segs i j

/-- After the chunk from `i` to `j`, the next one starts at `i'`. -/
structure NextAt (overlap : ℚ) (segs : List Segment) (i j i' : Nat) : Prop where
  gt : i < i'
  le : i' ≤ j
  near : i' < j → NearEnd overlap segs j i'
  before : ∀ k, i < k → k < i' → ¬ NearEnd overlap segs j k

/-- A chunk starts at this segment. -/
inductive Starts (target overlap : ℚ) (segs : List Segment) : Nat → Prop
  | zero : Starts target overlap segs 0
  | next {i j i' : Nat} (hi : Starts target overlap segs i) (hj : ClosedBy target segs i j)
      (hi' : NextAt overlap segs i j i') : Starts target overlap segs i'

/-- A segment that closes a chunk goes on the next one, and no segment is near the end of two
chunks that are closed, unless the second one starts with it. -/
def Steady (target overlap : ℚ) (segs : List Segment) : Prop :=
  ∀ i j i', Starts target overlap segs i → ClosedBy target segs i j →
    NextAt overlap segs i j i' →
      (i' < j → FitsAt target segs i' j) ∧
      ∀ j', ClosedBy target segs i' j' → ∀ k, i' < k → k < j → ¬ NearEnd overlap segs j' k

/-- Segment `k` is in this chunk. -/
def inRange (k : Nat) (r : Nat × Nat) : Bool := decide (r.1 ≤ k) && decide (k < r.2)

/-- The positions of the chunks. -/
def rangesOf (segments : List Segment) (target overlap : ℚ) : List (Nat × Nat) :=
  rangesFrom 0 (runs segments target overlap)

/-- Each chunk but the first has a segment that no chunk before it has; a segment is in two chunks
at most. -/
structure NoneRedundant (ranges : List (Nat × Nat)) : Prop where
  fresh : ∀ pre r post, ranges = pre ++ r :: post → pre ≠ [] →
    ∃ k, inRange k r = true ∧ ∀ r' ∈ pre, inRange k r' = false
  twice : ∀ k, ranges.countP (inRange k) ≤ 2

/-! ## The walk -/

theorem ClosedBy.unique {j₁ j₂ : Nat} (h₁ : ClosedBy target segs i j₁)
    (h₂ : ClosedBy target segs i j₂) : j₁ = j₂ := by
  rcases lt_trichotomy j₁ j₂ with hlt | heq | hgt
  · exact absurd (h₂.fits j₁ h₁.lt hlt) h₁.stops
  · exact heq
  · exact absurd (h₁.fits j₂ h₂.lt hgt) h₂.stops

theorem NextAt.unique {i₁ i₂ : Nat} (h₁ : NextAt overlap segs i j i₁)
    (h₂ : NextAt overlap segs i j i₂) : i₁ = i₂ := by
  rcases lt_trichotomy i₁ i₂ with hlt | heq | hgt
  · exact absurd (h₁.near (lt_of_lt_of_le hlt h₂.le)) (h₂.before i₁ h₁.gt hlt)
  · exact heq
  · exact absurd (h₂.near (lt_of_lt_of_le hgt h₁.le)) (h₁.before i₂ h₂.gt hgt)

/-- One chunk after the other. -/
structure Walks (target overlap : ℚ) (segs : List Segment) (r r' : Nat × Nat) : Prop where
  closed : ClosedBy target segs r.1 r.2
  next : NextAt overlap segs r.1 r.2 r'.1

/-- What the chunks from a position on are. -/
structure Walked (target overlap : ℚ) (segs : List Segment) (ranges : List (Nat × Nat)) : Prop where
  walks : ranges.IsChain (Walks target overlap segs)
  fits : ∀ r ∈ ranges, r.1 < r.2 ∧ ∀ k, r.1 < k → k < r.2 → FitsAt target segs r.1 k
  last : ∀ r ∈ ranges.getLast?, r.2 = segs.length

theorem getElem?_of_drop {s : Segment} {rest : List Segment} (h : segs.drop i = s :: rest) :
    segs[i]? = some s ∧ ∀ m, segs[i + 1 + m]? = rest[m]? := by
  constructor
  · rw [← List.head?_drop, h]
    rfl
  · intro m
    rw [Nat.add_assoc, ← List.getElem?_drop, h, Nat.add_comm 1, List.getElem?_cons_succ]

/-- **One turn**: where a chunk from `i` stops. -/
theorem fitsAt_takeWhile (target : ℚ) {s : Segment} {rest : List Segment} (h : segs.drop i = s :: rest) :
    (∀ k, i < k → k < i + 1 + (rest.takeWhile (fits target s)).length → FitsAt target segs i k) ∧
    ¬ FitsAt target segs i (i + 1 + (rest.takeWhile (fits target s)).length) := by
  obtain ⟨hi, hrest⟩ := getElem?_of_drop h
  have hsplit : ∀ m : Nat, rest[m]? =
      (rest.takeWhile (fits target s) ++ rest.dropWhile (fits target s))[m]? := by
    rw [List.takeWhile_append_dropWhile]
    exact fun _ => rfl
  constructor
  · intro k hik hk
    obtain ⟨m, rfl⟩ : ∃ m, k = i + 1 + m := ⟨k - i - 1, by omega⟩
    have hm : m < (rest.takeWhile (fits target s)).length := by omega
    refine ⟨s, hi, (rest.takeWhile (fits target s))[m], ?_, ?_⟩
    · rw [hrest, hsplit, List.getElem?_append_left hm]
      exact List.getElem?_eq_getElem hm
    · exact List.mem_takeWhile_imp (List.getElem_mem hm)
  · rintro ⟨s', hs', t, ht, hfits⟩
    obtain rfl := Option.some.inj (hi.symm.trans hs')
    rw [hrest, hsplit, List.getElem?_append_right (le_refl _), Nat.sub_self] at ht
    cases hdrop : rest.dropWhile (fits target s) with
    | nil =>
        rw [hdrop] at ht
        cases ht
    | cons u us =>
        rw [hdrop] at ht
        cases ht
        have hhead := List.head?_dropWhile_not (fits target s) rest
        rw [hdrop] at hhead
        simp [hfits] at hhead

/-- The last segment of a chunk. -/
theorem getLastD_takeWhile (target : ℚ) {s : Segment} {rest : List Segment} (h : segs.drop i = s :: rest) :
    segs[i + 1 + (rest.takeWhile (fits target s)).length - 1]? =
      some ((rest.takeWhile (fits target s)).getLastD s) := by
  obtain ⟨hi, hrest⟩ := getElem?_of_drop h
  cases hmore : rest.takeWhile (fits target s) with
  | nil => exact hi
  | cons t ts =>
      have hpre := List.takeWhile_prefix (fits target s) (l := rest)
      have hlast : rest[ts.length]? = some ((t :: ts).getLastD s) := by
        rw [hmore] at hpre
        obtain ⟨u, rfl⟩ := hpre
        rw [List.getElem?_append_left (by simp), List.getLastD_eq_getLast?,
          List.getLast?_eq_getElem?, List.length_cons, Nat.add_sub_cancel,
          List.getElem?_eq_getElem (by simp), Option.getD_some]
      rw [List.length_cons, show i + 1 + (ts.length + 1) - 1 = i + 1 + ts.length by omega, hrest]
      exact hlast

/-- Where the next chunk starts. -/
theorem nextAt_findIdx (target overlap : ℚ) {s : Segment} {rest : List Segment} (h : segs.drop i = s :: rest) :
    NextAt overlap segs i (i + 1 + (rest.takeWhile (fits target s)).length)
      (i + 1 + (rest.takeWhile (fits target s)).findIdx
        (inOverlap overlap ((rest.takeWhile (fits target s)).getLastD s))) := by
  obtain ⟨-, hrest⟩ := getElem?_of_drop h
  have hlast := getLastD_takeWhile target h
  have hpre := List.takeWhile_prefix (fits target s) (l := rest)
  generalize rest.takeWhile (fits target s) = more at hlast hpre ⊢
  generalize more.getLastD s = l at hlast ⊢
  have hmore : ∀ m (hm : m < more.length), segs[i + 1 + m]? = some more[m] := by
    intro m hm
    rw [hrest, hpre.getElem hm]
    exact List.getElem?_eq_getElem _
  refine ⟨by omega, ?_, ?_, ?_⟩
  · exact Nat.add_le_add_left List.findIdx_le_length _
  · intro hlt
    have hm : more.findIdx (inOverlap overlap l) < more.length := by omega
    exact ⟨l, hlast, _, hmore _ hm, List.findIdx_getElem⟩
  · rintro k hik hk ⟨l', hl', t, ht, hnear⟩
    obtain rfl := Option.some.inj (hlast.symm.trans hl')
    obtain ⟨m, rfl⟩ : ∃ m, k = i + 1 + m := ⟨k - i - 1, by omega⟩
    have hfind : m < more.findIdx (inOverlap overlap l) := by omega
    have hm : m < more.length := lt_of_lt_of_le hfind List.findIdx_le_length
    obtain rfl := Option.some.inj ((hmore m hm).symm.trans ht)
    rw [List.not_of_lt_findIdx hfind] at hnear
    cases hnear

theorem walked_rangesFrom {rs : List Run} (h : rs = runsAt target overlap 0 (segs.drop i)) :
    Walked target overlap segs (rangesFrom i rs) := by
  induction rs generalizing i with
  | nil => exact ⟨.nil, nofun, nofun⟩
  | cons r rest ih =>
      cases hdrop : segs.drop i with
      | nil =>
          rw [hdrop] at h
          cases h
      | cons s xs =>
          have hlength : segs.length = i + 1 + xs.length := by
            have hall := congrArg List.length hdrop
            rw [List.length_drop, List.length_cons] at hall
            omega
          have hle : (xs.takeWhile (fits target s)).length ≤ xs.length :=
            (List.takeWhile_sublist _).length_le
          obtain ⟨hfits, hstops⟩ := fitsAt_takeWhile target hdrop
          have hnext := nextAt_findIdx target overlap hdrop
          have hend : i + (s :: xs.takeWhile (fits target s)).length =
              i + 1 + (xs.takeWhile (fits target s)).length := by
            rw [List.length_cons]
            omega
          rw [hdrop, runsAt, fill_eq] at h
          split at h
          · rename_i hlast
            obtain ⟨rfl, rfl⟩ := List.cons.inj h
            rw [rangesFrom, rangesFrom, hend]
            refine ⟨.singleton _, ?_, ?_⟩
            · intro r hr
              rw [List.mem_singleton.mp hr]
              exact ⟨by dsimp only; omega, hfits⟩
            · intro r hr
              rw [List.getLast?_singleton, Option.mem_some_iff] at hr
              rw [← hr]
              dsimp only
              omega
          · rename_i hlast
            obtain ⟨rfl, hrest⟩ := List.cons.inj h
            have hrest : rest = runsAt target overlap 0
                (segs.drop (i + advanceOf overlap s (xs.takeWhile (fits target s)))) := by
              rw [hrest, runsAt_skip, ← List.drop_drop, hdrop, advanceOf_eq, Nat.add_sub_cancel_left,
                Nat.add_comm 1, List.drop_succ_cons]
            have hadvance : i + advanceOf overlap s (xs.takeWhile (fits target s)) = i + 1 +
                (xs.takeWhile (fits target s)).findIdx
                  (inOverlap overlap ((xs.takeWhile (fits target s)).getLastD s)) := by
              rw [advanceOf_eq, Nat.add_assoc]
            have hwalked := ih hrest
            have hfirst := (covers_rangesFrom hrest).first
            have hfound : (xs.takeWhile (fits target s)).findIdx
                (inOverlap overlap ((xs.takeWhile (fits target s)).getLastD s)) ≤
                (xs.takeWhile (fits target s)).length := List.findIdx_le_length
            obtain ⟨next, hnextMem, -⟩ := (covers_rangesFrom hrest).covered
              (i + advanceOf overlap s (xs.takeWhile (fits target s))) (le_refl _) (by omega)
            obtain ⟨r', ranges, hranges⟩ := List.exists_cons_of_ne_nil (List.ne_nil_of_mem hnextMem)
            rw [rangesFrom, hend]
            refine ⟨List.isChain_cons.mpr ⟨?_, hwalked.walks⟩, ?_, ?_⟩
            · intro r' hr'
              refine ⟨⟨by dsimp only; omega, by dsimp only; omega, hfits, hstops⟩, ?_⟩
              rw [hfirst r' hr', hadvance]
              exact hnext
            · intro r hr
              rcases List.mem_cons.mp hr with rfl | hr
              · exact ⟨by dsimp only; omega, hfits⟩
              · exact hwalked.fits r hr
            · intro r hr
              rw [hranges, List.getLast?_cons_cons, ← hranges] at hr
              exact hwalked.last r hr

/-! ## The order of the ends -/

/-- A segment that goes on a chunk goes on one that starts later. -/
theorem fits_mono {s s' t : Segment} (hle : s.startSeconds ≤ s'.startSeconds)
    (h : fits target s t = true) : fits target s' t = true := by
  rw [fits, Bool.not_eq_true'] at h ⊢
  rw [← Bool.not_eq_true] at h ⊢
  intro hlt
  refine h ?_
  have hstop := stop_ne_nan t
  cases hx : t.stop with
  | nan => exact absurd hx hstop
  | inf negative =>
      rw [hx] at hlt
      exact hlt
  | fin x =>
      rw [hx] at hlt
      exact PyFloat.lt_ofRat_mono (add_le_add_right (neg_le_neg hle) x) hlt

theorem fitsAt_mono (hsorted : segs.Pairwise fun a b => a.startSeconds ≤ b.startSeconds) {i' : Nat}
    (hi : i ≤ i') (hi' : i' < segs.length) (h : FitsAt target segs i k) :
    FitsAt target segs i' k := by
  obtain ⟨s, hs, t, ht, hfits⟩ := h
  refine ⟨segs[i'], List.getElem?_eq_getElem hi', t, ht, ?_⟩
  rcases hi.eq_or_lt with rfl | hlt
  · rw [Option.mem_def, List.getElem?_eq_getElem hi', Option.some.injEq] at hs
    rw [hs]
    exact hfits
  · have hlength : i < segs.length := hlt.trans hi'
    rw [Option.mem_def, List.getElem?_eq_getElem hlength, Option.some.injEq] at hs
    subst hs
    exact fits_mono (List.pairwise_iff_getElem.mp hsorted i i' hlength hi' hlt) hfits

/-- A chunk after another one, where the segments come in order. -/
structure Steps (target overlap : ℚ) (segs : List Segment) (r r' : Nat × Nat) : Prop where
  walks : Walks target overlap segs r r'
  follow : Follow r r'
  ends : r.2 ≤ r'.2
  /-- It ends further on exactly where the segment that has closed the other one goes on it. -/
  further : r.2 < r'.2 ↔ (r'.1 < r.2 → FitsAt target segs r'.1 r.2)

theorem closed_of_walked {ranges : List (Nat × Nat)} (h : Walked target overlap segs ranges) :
    ∀ r ∈ ranges, r.2 = segs.length ∨ ClosedBy target segs r.1 r.2 := by
  obtain ⟨hwalks, -, hlast⟩ := h
  induction ranges with
  | nil => nofun
  | cons r ranges ih =>
      intro x hx
      cases ranges with
      | nil =>
          rw [List.mem_singleton.mp hx]
          exact .inl (hlast r rfl)
      | cons r' ranges =>
          obtain ⟨hr, hrest⟩ := List.isChain_cons_cons.mp hwalks
          rcases List.mem_cons.mp hx with rfl | hx
          · exact .inr hr.closed
          · exact ih hrest (fun y hy => hlast y (by rw [List.getLast?_cons_cons]; exact hy)) x hx

theorem steps_of_walks (hsorted : segs.Pairwise fun a b => a.startSeconds ≤ b.startSeconds)
    {r r' : Nat × Nat} (hwalks : Walks target overlap segs r r')
    (hfits : r'.1 < r'.2 ∧ ∀ k, r'.1 < k → k < r'.2 → FitsAt target segs r'.1 k)
    (hend : r'.2 = segs.length ∨ ClosedBy target segs r'.1 r'.2) :
    Steps target overlap segs r r' := by
  have hinside := hwalks.closed.inside
  have hgt := hwalks.next.gt
  have hle := hwalks.next.le
  have hends : r.2 ≤ r'.2 := by
    rcases hend with hend | hclosed
    · omega
    · by_contra hlt
      rw [not_le] at hlt
      have hfit := hwalks.closed.fits r'.2 (by omega) hlt
      exact hclosed.stops (fitsAt_mono hsorted hgt.le (by omega) hfit)
  refine ⟨hwalks, ⟨hgt, hle⟩, hends, ?_⟩
  constructor
  · exact fun hlt hin => hfits.2 r.2 hin hlt
  · intro hfit
    rcases hle.eq_or_lt with heq | hlt
    · have hpos := hfits.1
      omega
    · rcases hends.eq_or_lt with hsame | hlt'
      · rcases hend with hend | hclosed
        · omega
        · have hstops := hclosed.stops
          rw [← hsame] at hstops
          exact absurd (hfit hlt) hstops
      · exact hlt'

theorem steps_of_walked (hsorted : segs.Pairwise fun a b => a.startSeconds ≤ b.startSeconds)
    {ranges : List (Nat × Nat)} (h : Walked target overlap segs ranges) :
    ranges.IsChain (Steps target overlap segs) := by
  have hclosed := closed_of_walked h
  refine h.walks.imp_of_mem_imp fun r r' _ hr' hwalks => ?_
  exact steps_of_walks hsorted hwalks (h.fits r' hr') (hclosed r' hr')

/-! ## Ranges -/

theorem inRange_eq_true {r : Nat × Nat} : inRange k r = true ↔ r.1 ≤ k ∧ k < r.2 := by
  simp [inRange]

theorem inRange_eq_false {r : Nat × Nat} : inRange k r = false ↔ (r.1 ≤ k → r.2 ≤ k) := by
  rw [← Bool.not_eq_true, inRange_eq_true]
  omega

/-- From one chunk to the next, neither end goes back. -/
structure Onwards (r r' : Nat × Nat) : Prop where
  follow : Follow r r'
  ends : r.2 ≤ r'.2

/-- **A chunk has something new** exactly when it ends further on. -/
theorem fresh_iff {ranges : List (Nat × Nat)} (h : ranges.IsChain Onwards) :
    (∀ pre r post, ranges = pre ++ r :: post → pre ≠ [] →
      ∃ k, inRange k r = true ∧ ∀ r' ∈ pre, inRange k r' = false) ↔
    ranges.IsChain fun r r' => r.2 < r'.2 := by
  constructor
  · intro hfresh
    rw [List.isChain_iff_forall_rel_of_append_cons_cons] at h ⊢
    intro r r' pre post heq
    have hstep := h heq
    obtain ⟨k, hk, hnew⟩ := hfresh (pre ++ [r]) r' post (by simp [heq]) (by simp)
    have hold := hnew r (by simp)
    rw [inRange_eq_true] at hk
    rw [inRange_eq_false] at hold
    have hgt := hstep.follow.1
    have hpast := hold (by omega)
    omega
  · rintro hends pre r post rfl hne
    obtain ⟨pre, p, rfl⟩ := (List.eq_nil_or_concat' pre).resolve_left hne
    -- The first segment past the chunk before is in none of those before.
    have hstep : Onwards p r ∧ p.2 < r.2 := by
      rw [List.isChain_iff_forall_rel_of_append_cons_cons] at h hends
      have heq : pre ++ [p] ++ r :: post = pre ++ p :: r :: post := by simp
      exact ⟨h heq, hends heq⟩
    have hpairwise := hends.pairwise
    refine ⟨p.2, inRange_eq_true.mpr ⟨hstep.1.follow.2, hstep.2⟩, fun r' hr' => ?_⟩
    rw [inRange_eq_false]
    intro _
    rcases List.mem_append.mp hr' with hr' | hr'
    · rw [List.append_assoc, List.pairwise_append] at hpairwise
      exact (hpairwise.2.2 r' hr' p (by simp)).le
    · rw [List.mem_singleton.mp hr']

/-- **No segment is in three chunks** exactly when a chunk starts past the one before the last. -/
theorem twice_iff {ranges : List (Nat × Nat)} (h : ranges.IsChain Onwards) :
    (∀ k, ranges.countP (inRange k) ≤ 2) ↔
      ∀ pre a b c post, ranges = pre ++ a :: b :: c :: post → a.2 ≤ c.1 := by
  constructor
  · rintro htwice pre a b c post rfl
    by_contra hlt
    rw [not_le] at hlt
    rw [List.isChain_iff_forall_rel_of_append_cons_cons] at h
    have hab : Onwards a b := h rfl
    have hbc : Onwards b c :=
      h (show pre ++ a :: b :: c :: post = (pre ++ [a]) ++ b :: c :: post by simp)
    obtain ⟨⟨hab₁, hab₂⟩, hab₃⟩ := hab
    obtain ⟨⟨hbc₁, hbc₂⟩, hbc₃⟩ := hbc
    have ha : inRange c.1 a = true := inRange_eq_true.mpr ⟨by omega, hlt⟩
    have hb : inRange c.1 b = true := inRange_eq_true.mpr ⟨by omega, by omega⟩
    have hc : inRange c.1 c = true := inRange_eq_true.mpr ⟨le_refl _, by omega⟩
    have hcount := htwice c.1
    rw [List.countP_append, List.countP_cons_of_pos ha, List.countP_cons_of_pos hb,
      List.countP_cons_of_pos hc] at hcount
    omega
  · intro hspaced k
    induction ranges with
    | nil => simp
    | cons a ranges ih =>
        have hrest := ih (List.isChain_cons.mp h).2 fun pre x y z post heq =>
          hspaced (a :: pre) x y z post (by rw [heq]; rfl)
        by_cases ha : inRange k a = true
        · rw [List.countP_cons_of_pos ha]
          cases ranges with
          | nil => simp
          | cons b ranges =>
              -- The chunks after the next one start past this one.
              have hpast : ranges.countP (inRange k) = 0 := by
                rw [List.countP_eq_zero]
                intro c hc hin
                obtain ⟨pre, post, rfl⟩ := List.append_of_mem hc
                have hahead : a.2 ≤ c.1 := by
                  cases pre with
                  | nil => exact hspaced [] a b c post rfl
                  | cons d pre =>
                      have hd : a.2 ≤ d.1 := hspaced [] a b d (pre ++ c :: post) rfl
                      have hpositions := (h.imp fun _ _ hstep => hstep.follow.1).pairwise
                      have hdc : d.1 < c.1 := by
                        rw [List.cons_append, List.pairwise_cons, List.pairwise_cons,
                          List.pairwise_cons] at hpositions
                        exact hpositions.2.2.1 c (by simp)
                      omega
                rw [inRange_eq_true] at ha hin
                omega
              have hb : (b :: ranges).countP (inRange k) ≤ 1 := by
                rw [List.countP_cons, hpast]
                split <;> omega
              omega
        · rw [List.countP_cons_of_neg ha]
          exact hrest

/-! ## When none is redundant -/

theorem starts_of_mem {ranges : List (Nat × Nat)} (hwalks : ranges.IsChain (Walks target overlap segs))
    (hfirst : ∀ r ∈ ranges.head?, Starts target overlap segs r.1) :
    ∀ r ∈ ranges, Starts target overlap segs r.1 := by
  induction ranges with
  | nil => nofun
  | cons r ranges ih =>
      obtain ⟨hnext, hrest⟩ := List.isChain_cons.mp hwalks
      have hr : Starts target overlap segs r.1 := hfirst r rfl
      intro x hx
      rcases List.mem_cons.mp hx with rfl | hx
      · exact hr
      · exact ih hrest (fun y hy => .next hr (hnext y hy).closed (hnext y hy).next) x hx

/-- A chunk that is closed is not the last one. -/
theorem next_of_closed {ranges pre post : List (Nat × Nat)} {r : Nat × Nat}
    (h : Walked target overlap segs ranges) (heq : ranges = pre ++ r :: post)
    (hclosed : ClosedBy target segs r.1 j) :
    r.2 = j ∧ ∃ r' post', post = r' :: post' ∧ Walks target overlap segs r r' := by
  have hmem : r ∈ ranges := by simp [heq]
  have hinside := hclosed.inside
  have hj : r.2 = j := by
    rcases closed_of_walked h r hmem with hend | hclosed'
    · exact absurd ((h.fits r hmem).2 j hclosed.lt (by omega)) hclosed.stops
    · exact hclosed'.unique hclosed
  refine ⟨hj, ?_⟩
  cases post with
  | nil =>
      have hend := h.last r (by simp [heq])
      omega
  | cons r' post' =>
      exact ⟨r', post', rfl, List.isChain_iff_forall_rel_of_append_cons_cons.mp h.walks heq⟩

theorem mem_of_starts {ranges : List (Nat × Nat)} (h : Walked target overlap segs ranges)
    (hcovers : Covers segs.length 0 ranges) (hi : Starts target overlap segs i)
    (hlt : i < segs.length) : ∃ r ∈ ranges, r.1 = i := by
  induction hi with
  | zero =>
      obtain ⟨r, hr, hle, -⟩ := hcovers.covered 0 (le_refl 0) hlt
      exact ⟨r, hr, by omega⟩
  | next _ hj hi' ih =>
      obtain ⟨r, hr, rfl⟩ := ih (hj.lt.trans hj.inside)
      obtain ⟨pre, post, heq⟩ := List.append_of_mem hr
      obtain ⟨rfl, r', post', rfl, hwalks⟩ := next_of_closed h heq hj
      exact ⟨r', by simp [heq], hwalks.next.unique hi'⟩

/-- **When no chunk is redundant**: each chunk but the first has a segment of its own and no segment
is in three of them, exactly when each segment that closes a chunk goes on the next one, and no
chunk that is closed ends within the overlap of a segment that the one before has too, but for the
one it starts with. -/
theorem noneRedundant_iff (segments : List Segment) (target overlap : ℚ) :
    NoneRedundant (rangesOf segments target overlap) ↔
      Steady target overlap (inOrder segments) := by
  have hruns : runs segments target overlap =
      runsAt target overlap 0 ((inOrder segments).drop 0) := rfl
  have hcovers := covers_rangesFrom hruns
  have hwalked := walked_rangesFrom hruns
  have hsteps := steps_of_walked (pairwise_inOrder segments) hwalked
  have honwards : (rangesOf segments target overlap).IsChain Onwards :=
    hsteps.imp fun _ _ h => ⟨h.follow, h.ends⟩
  have hadjacent := List.isChain_iff_forall_rel_of_append_cons_cons.mp hsteps
  constructor
  · rintro ⟨hfresh, htwice⟩ i j i' hi hj hi'
    obtain ⟨r, hr, rfl⟩ := mem_of_starts hwalked hcovers hi (hj.lt.trans hj.inside)
    obtain ⟨pre, post, heq⟩ := List.append_of_mem hr
    obtain ⟨rfl, r', post', rfl, hwalks⟩ := next_of_closed hwalked heq hj
    obtain rfl := hwalks.next.unique hi'
    constructor
    · have hends := List.isChain_iff_forall_rel_of_append_cons_cons.mp
        ((fresh_iff honwards).mp hfresh) heq
      exact (hadjacent heq).further.mp hends
    · intro j' hj' k hk hkj hnear
      have heq' : rangesFrom 0 (runs segments target overlap) = (pre ++ [r]) ++ r' :: post' := by
        simp [heq]
      obtain ⟨rfl, r'', post'', rfl, hwalks'⟩ := next_of_closed hwalked heq' hj'
      have hspaced := (twice_iff honwards).mp htwice pre r r' r'' post'' heq
      exact hwalks'.next.before k hk (by omega) hnear
  · intro hsteady
    have hstarts := starts_of_mem hwalked.walks fun r hr => by
      rw [hcovers.first r hr]
      exact .zero
    constructor
    · rw [fresh_iff honwards]
      refine hsteps.imp_of_mem_imp fun r r' hr _ hstep => hstep.further.mpr ?_
      exact (hsteady r.1 r.2 r'.1 (hstarts r hr) hstep.walks.closed hstep.walks.next).1
    · rw [twice_iff honwards]
      intro pre a b c post heq
      by_contra hlt
      rw [not_le] at hlt
      have hab := hadjacent heq
      have hbc : Steps target overlap (inOrder segments) b c := by
        have heq' : rangesFrom 0 (runs segments target overlap) =
            (pre ++ [a]) ++ b :: c :: post := by
          rw [List.append_assoc]
          exact heq
        exact hadjacent heq'
      have hmem : a ∈ rangesOf segments target overlap := by simp [heq]
      have hgt := hbc.walks.next.gt
      have hends := hab.ends
      exact (hsteady a.1 a.2 b.1 (hstarts a hmem) hab.walks.closed hab.walks.next).2 b.2
        hbc.walks.closed c.1 hgt hlt (hbc.walks.next.near (by omega))

/-- Four captions; the last one takes eighty seconds. -/
def longLast : List Segment :=
  [⟨['B', 'i', 'e', 'n', '.'], 0, 60⟩, ⟨['U', 'n', '.'], 60, 5⟩, ⟨['D', 'e', 'u', 'x', '.'], 65, 5⟩,
    ⟨['F', 'i', 'n', 'i', '.'], 70, 80⟩]

/-- **A long caption after shared ones nests the chunks**: it closes the second and the third one
before anything new has gone on them. -/
theorem nested_chunks : ¬ ∀ segments : List Segment,
    (∀ s ∈ segments, 0 ≤ s.durationSeconds ∧ Str.strip s.text ≠ []) →
      NoneRedundant (rangesOf segments targetSeconds overlapSeconds) := by
  intro h
  have hranges : rangesOf longLast targetSeconds overlapSeconds =
      [(0, 3), (1, 3), (2, 3), (3, 4)] := by
    rw [rangesOf, runs, inOrder_of_pairwise (by simp [longLast]; norm_num)]
    decide +kernel
  have hnone := h longLast (by simp [longLast]; decide)
  rw [hranges] at hnone
  obtain ⟨k, hk, hnew⟩ := hnone.fresh [(0, 3)] (1, 3) [(2, 3), (3, 4)] rfl (by simp)
  have hold := hnew (0, 3) (by simp)
  rw [inRange_eq_true] at hk
  rw [inRange_eq_false] at hold
  have hpast := hold (by omega)
  omega

end MesReunions.Subtitles
