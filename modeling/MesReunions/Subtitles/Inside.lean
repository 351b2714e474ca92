import MesReunions.Subtitles.WordTimes

/-!
# Sentences inside their chunk

Where `sentence_align_segments` puts the sentences of a chunk, and `_split_long_phrase` the parts
of a phrase. A position counts a separator after each sentence, the total counts none.

* `Stacked` — sentences one after the other, between two times.
* `Roomy` — no sentence starts after the last character.
* **`within_of_inTime`** — then each sentence is inside of its chunk, up to a hundredth.
* **`last_outside`** — five short sentences; the last one starts after the end.
-/

namespace MesReunions.Subtitles

open Str PyFloat

/-! ## Statements -/

/-- A chunk from `a` to `b`. -/
structure Coarse.Spans (c : Coarse) (a b : ℚ) : Prop where
  start : c.startSeconds = some (.fin a)
  stop : c.endSeconds = some (.fin b)
  lt : a < b

/-- The sentences of a chunk are inside of it, up to a hundredth, and in start order. -/
structure StaysInside (a b : ℚ) (ps : List Piece) : Prop where
  inside : ∀ p ∈ ps, ∃ s e, p.startSeconds = .fin s ∧ p.endSeconds = .fin e ∧
    a - 1 / 100 ≤ s ∧ s ≤ e ∧ e ≤ b + 1 / 100
  sorted : ps.Pairwise fun p q => p.startSeconds.le q.startSeconds = true

/-- The sentences that are kept of each chunk are its own, and stay inside. -/
def Within (coarse : List Coarse) (out : List Piece) : Prop :=
  ∃ kept : List (List Piece), out = kept.flatten ∧ List.Forall₂ (fun c ps =>
    (∃ all, alignOne c = .ok all ∧ ps.Sublist all) ∧ ∀ a b, c.Spans a b → StaysInside a b ps)
    coarse kept

/-- The parts that are not blank. -/
def spoken (parts : List Str) : List Str := (parts.map strip).filter (· ≠ [])

/-- The last part starts, each separator before it counted, in the characters of all of them. -/
def Roomy (parts : List Str) : Prop :=
  ((spoken parts).dropLast.map fun p => p.length + 1).sum ≤ totalOf parts

/-- So do the parts that a long phrase is cut into. -/
def RoomyPhrase (seg : Piece) : Prop :=
  let soft := cutAfter isSoftEnd false seg.text
  if 1 < soft.length then Roomy soft
  else ∀ n, ((seg.endSeconds.sub seg.startSeconds).divRat 15).toInt = .ok n →
    Roomy ((packets (max 1 ((words seg.text).length / (max 1 n).toNat)) (words seg.text)).map
      joinWords)

/-- The sentences of a chunk that do not fit on twenty seconds. -/
def longPhrases (c : Coarse) (a b : ℚ) : List Piece :=
  let parts := cutAfter isSentenceEnd false (strip (c.text.getD []))
  (place (.fin a) (sub (.fin b) (.fin a)) (totalOf parts) 0 parts).filter fun seg =>
    PyFloat.lt (.fin longPhraseThreshold) (seg.endSeconds.sub seg.startSeconds)

/-- In the text of the chunk, and in each of its long phrases, the last part starts in time. -/
structure InTime (c : Coarse) (a b : ℚ) : Prop where
  start : |a| ≤ 2 ^ 40
  stop : |b| ≤ 2 ^ 40
  sentences : Roomy (cutAfter isSentenceEnd false (strip (c.text.getD [])))
  phrases : ∀ seg ∈ longPhrases c a b, RoomyPhrase seg

/-! ## One position -/

/-- The position of a character, at most the end. -/
def frac (cursor total : Nat) : ℚ := min (fl ((cursor : ℚ) / total)) 1

/-- The time at a position, in hundredths. -/
def timeAt (a d r : ℚ) : ℚ := fl ((roundHalfEven (100 * fl (a + fl (r * d))) : ℚ) / 100)

theorem fl_one : fl 1 = 1 := by
  exact_mod_cast fl_natCast (n := 1) (by decide)

theorem frac_nonneg (cursor total : Nat) : 0 ≤ frac cursor total :=
  le_min (fl_nonneg (by positivity)) zero_le_one

theorem frac_le_one (cursor total : Nat) : frac cursor total ≤ 1 := min_le_right _ _

theorem frac_mono {m n : Nat} (h : m ≤ n) (total : Nat) : frac m total ≤ frac n total := by
  refine min_le_min_right 1 (fl_mono (div_le_div_of_nonneg_right ?_ (by positivity)))
  exact_mod_cast h

theorem frac_zero (total : Nat) : frac 0 total = 0 := by
  rw [frac, Nat.cast_zero, zero_div, isFloat_zero]
  exact min_eq_left zero_le_one

theorem minOne_ratio (cursor total : Nat) : minOne (ratio cursor total) = fin (frac cursor total) := by
  have hpos : (0 : ℚ) ≤ (cursor : ℚ) / total := by positivity
  rw [minOne, ratio]
  rcases le_or_gt overflowAt ((cursor : ℚ) / total) with hover | hlt
  · have hone : (1 : ℚ) ≤ (cursor : ℚ) / total := by
      refine le_trans ?_ hover
      exact le_trans (by norm_num) overflowAt_gt.le
    have hge : 1 ≤ fl ((cursor : ℚ) / total) := by
      rw [← fl_one]
      exact fl_mono hone
    rw [ofRat_of_ge hover, frac, min_eq_right hge]
    rfl
  · rw [ofRat_of_lt (by rwa [abs_of_nonneg hpos]), frac]
    by_cases h : fl ((cursor : ℚ) / total) < 1
    · have hone : lt (fin (fl ((cursor : ℚ) / total))) (fin 1) = true := decide_eq_true h
      rw [if_pos hone, min_eq_left h.le]
    · have hone : ¬ lt (fin (fl ((cursor : ℚ) / total))) (fin 1) = true :=
        fun hlt => h (of_decide_eq_true hlt)
      rw [if_neg hone, min_eq_right (not_lt.mp h)]

/-- A start that is not too late is a fraction too. -/
theorem ratio_of_le {cursor total : Nat} (h : cursor ≤ total) :
    ratio cursor total = fin (frac cursor total) := by
  have hle : (cursor : ℚ) / total ≤ 1 := div_le_one_of_le₀ (by exact_mod_cast h) (by positivity)
  have hpos : (0 : ℚ) ≤ (cursor : ℚ) / total := by positivity
  have hfl : fl ((cursor : ℚ) / total) ≤ 1 := by
    rw [← fl_one]
    exact fl_mono hle
  have hlt : |(cursor : ℚ) / total| < overflowAt := by
    rw [abs_of_nonneg hpos]
    exact lt_of_le_of_lt hle (lt_trans (by norm_num) overflowAt_gt)
  rw [ratio, ofRat_of_lt hlt, frac, min_eq_left hfl]

theorem timeAt_mono {a d r r' : ℚ} (hd : 0 ≤ d) (h : r ≤ r') : timeAt a d r ≤ timeAt a d r' := by
  refine fl_mono (div_le_div_of_nonneg_right ?_ (by norm_num))
  have hmul : fl (r * d) ≤ fl (r' * d) := fl_mono (mul_le_mul_of_nonneg_right h hd)
  have hadd : fl (a + fl (r * d)) ≤ fl (a + fl (r' * d)) := fl_mono (by linarith)
  exact_mod_cast roundHalfEven_mono (by linarith : 100 * fl (a + fl (r * d)) ≤ _)

/-- A rounding of a number of this size moves it by little. -/
theorem abs_fl_sub_small {x : ℚ} (h : |x| < 2 ^ 43) : |fl x - x| ≤ 1 / 2048 := by
  have hulp := ulp_le_of_lt (q := x) (k := 43) (by norm_num) (by exact_mod_cast h)
  have hnear := abs_fl_sub_le x
  norm_num at hulp
  linarith

theorem isFloat_pow {k : Nat} (hk : k ≤ 52) : IsFloat ((2 : ℚ) ^ k) := by
  have hcast : ((2 ^ k : Nat) : ℚ) = (2 : ℚ) ^ k := by push_cast; rfl
  rw [← hcast]
  exact fl_natCast (Nat.pow_lt_pow_right (by norm_num) (by omega))

theorem lt_overflowAt_of_le {x : ℚ} (h : |x| ≤ 2 ^ 44) : |x| < overflowAt :=
  lt_of_le_of_lt h (lt_trans (by norm_num) overflowAt_gt)

/-- **One position**, as the code computes it. -/
theorem position_eq {a d r : ℚ} (ha : |a| ≤ 2 ^ 41) (hd : |d| ≤ 2 ^ 42) (hr : 0 ≤ r)
    (hr1 : r ≤ 1) : (add (fin a) (mul (fin r) (fin d))).round2 = fin (timeAt a d r) := by
  have hmul : |r * d| ≤ 2 ^ 42 := by
    rw [abs_mul, abs_of_nonneg hr]
    calc r * |d| ≤ 1 * |d| := mul_le_mul_of_nonneg_right hr1 (abs_nonneg d)
      _ ≤ 2 ^ 42 := by rwa [one_mul]
  have hfl : |fl (r * d)| ≤ 2 ^ 42 := abs_fl_le (isFloat_pow (by norm_num)) hmul
  have hadd : |a + fl (r * d)| ≤ 2 ^ 43 := by
    calc |a + fl (r * d)| ≤ |a| + |fl (r * d)| := abs_add_le _ _
      _ ≤ 2 ^ 43 := by linarith
  have hsum : |fl (a + fl (r * d))| ≤ 2 ^ 43 := abs_fl_le (isFloat_pow (by norm_num)) hadd
  have hround : |(roundHalfEven (100 * fl (a + fl (r * d))) : ℚ) / 100| ≤ 2 ^ 44 := by
    have hnear := abs_le.mp (abs_roundHalfEven_sub_le (100 * fl (a + fl (r * d))))
    obtain ⟨hlow, hhigh⟩ := abs_le.mp hsum
    rw [abs_le, le_div_iff₀ (by norm_num), div_le_iff₀ (by norm_num)]
    constructor <;> linarith [hnear.1, hnear.2]
  rw [mul, ofRat_of_lt (lt_overflowAt_of_le (hmul.trans (by norm_num))), add,
    ofRat_of_lt (lt_overflowAt_of_le (hadd.trans (by norm_num))), round2,
    ofRat_of_lt (lt_overflowAt_of_le hround), timeAt]

/-- A number in hundredths. -/
def IsHundredth (x : ℚ) : Prop := ∃ k : Int, x = fl ((k : ℚ) / 100)

theorem isHundredth_timeAt (a d r : ℚ) : IsHundredth (timeAt a d r) := ⟨_, rfl⟩

/-- Rounding to hundredths moves a number by half of one, and by one rounding. -/
theorem hundredth_near {x : ℚ} (h : |x| ≤ 2 ^ 42) :
    |fl ((roundHalfEven (100 * x) : ℚ) / 100) - x| ≤ 1 / 200 + 1 / 2048 := by
  have hround := abs_le.mp (abs_roundHalfEven_sub_le (100 * x))
  generalize hy : (roundHalfEven (100 * x) : ℚ) / 100 = y
  have hclose : |y - x| ≤ 1 / 200 := by
    rw [← hy, abs_le]
    constructor <;> linarith [hround.1, hround.2]
  have hsize : |y| < 2 ^ 43 := by
    calc |y| ≤ |y - x| + |x| := by simpa using abs_add_le (y - x) x
      _ < 2 ^ 43 := by linarith
  calc |fl y - x| ≤ |fl y - y| + |y - x| := abs_sub_le _ _ _
    _ ≤ 1 / 200 + 1 / 2048 := by linarith [abs_fl_sub_small hsize]

/-- What is close to a number in hundredths is rounded to it. -/
theorem hundredth_eq {x y : ℚ} (hy : IsHundredth y) (hsize : |y| ≤ 2 ^ 42)
    (h : |x - y| ≤ 2 / 2048) : fl ((roundHalfEven (100 * x) : ℚ) / 100) = y := by
  obtain ⟨k, hk⟩ := hy
  have hexact : |(k : ℚ) / 100| < 2 ^ 43 := by
    by_contra hge
    have hlarge := le_abs_fl (isFloat_pow (k := 43) (by norm_num)) (not_lt.mp hge)
    rw [← hk] at hlarge
    linarith
  have hfl := abs_fl_sub_small hexact
  rw [← hk] at hfl
  have hnear : roundHalfEven (100 * x) = k := by
    refine roundHalfEven_of_near ?_
    have h1 := abs_le.mp h
    have h2 := abs_le.mp hfl
    rw [abs_lt]
    constructor <;> linarith [h1.1, h1.2, h2.1, h2.2]
  rw [hnear, ← hk]

/-- At the start, a float is added to nothing. -/
theorem start_near {a d : ℚ} (ha : |a| ≤ 2 ^ 41) : |fl (a + fl (0 * d)) - a| ≤ 1 / 2048 := by
  rw [zero_mul, isFloat_zero, add_zero]
  exact abs_fl_sub_small (lt_of_le_of_lt ha (by norm_num))

/-- At the end, the duration is added to the start. -/
theorem stop_near {a b : ℚ} (ha : |a| ≤ 2 ^ 41) (hb : |b| ≤ 2 ^ 41) :
    |fl (a + fl (1 * fl (b - a))) - b| ≤ 2 / 2048 := by
  rw [one_mul, isFloat_fl]
  have hd : |b - a| ≤ 2 ^ 42 := by
    calc |b - a| ≤ |b| + |a| := abs_sub b a
      _ ≤ 2 ^ 42 := by linarith
  have hfirst := abs_fl_sub_small (lt_of_le_of_lt hd (by norm_num))
  have hfl : |fl (b - a)| ≤ 2 ^ 42 := abs_fl_le (isFloat_pow (by norm_num)) hd
  have hsum : |a + fl (b - a)| < 2 ^ 43 := by
    calc |a + fl (b - a)| ≤ |a| + |fl (b - a)| := abs_add_le _ _
      _ < 2 ^ 43 := by linarith
  have hsecond := abs_fl_sub_small hsum
  have h1 := abs_le.mp hfirst
  have h2 := abs_le.mp hsecond
  rw [abs_le]
  constructor <;> linarith [h1.1, h1.2, h2.1, h2.2]

/-- **A chunk** starts and stops where it is said to, up to a hundredth. -/
theorem timeAt_near {a d r t : ℚ} (ht : |t| ≤ 2 ^ 41)
    (h : |fl (a + fl (r * d)) - t| ≤ 2 / 2048) : |timeAt a d r - t| ≤ 1 / 100 := by
  rw [timeAt]
  generalize fl (a + fl (r * d)) = x at h ⊢
  have hsize : |x| ≤ 2 ^ 42 := by
    calc |x| ≤ |x - t| + |t| := by simpa using abs_add_le (x - t) t
      _ ≤ 2 ^ 42 := by linarith
  calc |fl ((roundHalfEven (100 * x) : ℚ) / 100) - t| ≤
        |fl ((roundHalfEven (100 * x) : ℚ) / 100) - x| + |x - t| := abs_sub_le _ _ _
    _ ≤ 1 / 100 := by linarith [hundredth_near hsize]

/-- **A phrase** starts and stops where it is said to. -/
theorem timeAt_zero_eq {s d : ℚ} (hs : IsHundredth s) (hsize : |s| ≤ 2 ^ 41) :
    timeAt s d 0 = s :=
  hundredth_eq hs (hsize.trans (by norm_num)) ((start_near hsize).trans (by norm_num))

theorem timeAt_one_eq {s e : ℚ} (he : IsHundredth e) (hs : |s| ≤ 2 ^ 41) (hsize : |e| ≤ 2 ^ 41) :
    timeAt s (fl (e - s)) 1 = e :=
  hundredth_eq he (hsize.trans (by norm_num)) (stop_near hs hsize)

/-! ## One after the other -/

/-- The sentences are one after the other, from `lo` to `hi`, in hundredths. -/
def Stacked (lo hi : ℚ) : List Piece → Prop
  | [] => lo ≤ hi
  | p :: ps => ∃ s e, p.startSeconds = fin s ∧ p.endSeconds = fin e ∧ IsHundredth s ∧
      IsHundredth e ∧ lo ≤ s ∧ s ≤ e ∧ Stacked e hi ps

theorem Stacked.le {lo hi : ℚ} {ps : List Piece} (h : Stacked lo hi ps) : lo ≤ hi := by
  induction ps generalizing lo with
  | nil => exact h
  | cons p ps ih =>
      obtain ⟨s, e, -, -, -, -, hlo, hse, hrest⟩ := h
      exact hlo.trans (hse.trans (ih hrest))

theorem Stacked.of_le {lo lo' hi : ℚ} {ps : List Piece} (h : Stacked lo hi ps) (hle : lo' ≤ lo) :
    Stacked lo' hi ps := by
  cases ps with
  | nil => exact hle.trans h
  | cons p ps =>
      obtain ⟨s, e, hs, he, hs', he', hlo, hrest⟩ := h
      exact ⟨s, e, hs, he, hs', he', hle.trans hlo, hrest⟩

theorem Stacked.append {lo mid hi : ℚ} {ps qs : List Piece} (hps : Stacked lo mid ps)
    (hqs : Stacked mid hi qs) : Stacked lo hi (ps ++ qs) := by
  induction ps generalizing lo with
  | nil => exact hqs.of_le hps
  | cons p ps ih =>
      obtain ⟨s, e, hs, he, hs', he', hlo, hse, hrest⟩ := hps
      exact ⟨s, e, hs, he, hs', he', hlo, hse, ih hrest⟩

/-- What is one after the other is inside, and in start order. -/
theorem Stacked.inside {lo hi : ℚ} {ps : List Piece} (h : Stacked lo hi ps) :
    (∀ p ∈ ps, ∃ s e, p.startSeconds = fin s ∧ p.endSeconds = fin e ∧ lo ≤ s ∧ s ≤ e ∧ e ≤ hi) ∧
    ps.Pairwise fun p q => p.startSeconds.le q.startSeconds = true := by
  induction ps generalizing lo with
  | nil => exact ⟨fun p hp => absurd hp List.not_mem_nil, List.Pairwise.nil⟩
  | cons p ps ih =>
      obtain ⟨s, e, hs, he, -, -, hlo, hse, hrest⟩ := h
      obtain ⟨hinside, hsorted⟩ := ih hrest
      constructor
      · intro q hq
        rcases List.mem_cons.mp hq with rfl | hq
        · exact ⟨s, e, hs, he, hlo, hse, hrest.le⟩
        · obtain ⟨s', e', hs', he', hle, hq'⟩ := hinside q hq
          exact ⟨s', e', hs', he', hlo.trans (hse.trans hle), hq'⟩
      · refine List.pairwise_cons.mpr ⟨fun q hq => ?_, hsorted⟩
        obtain ⟨s', e', hs', -, hle, -⟩ := hinside q hq
        rw [hs, hs']
        exact decide_eq_true (hse.trans hle)

/-! ## The loop over the parts -/

/-- No part that is not blank starts after the end. -/
def StartsBefore (total cursor : Nat) : List Str → Prop
  | [] => True
  | p :: parts =>
      if strip p = [] then StartsBefore total cursor parts
      else cursor ≤ total ∧ StartsBefore total (cursor + (strip p).length + 1) parts

/-- The last part is the one that starts the latest. -/
theorem startsBefore_of_sum {total : Nat} {parts : List Str} : ∀ cursor,
    (spoken parts ≠ [] →
      cursor + ((spoken parts).dropLast.map fun p => p.length + 1).sum ≤ total) →
    StartsBefore total cursor parts := by
  induction parts with
  | nil => exact fun _ _ => trivial
  | cons p parts ih =>
      intro cursor h
      rw [StartsBefore]
      by_cases hp : strip p = []
      · rw [if_pos hp]
        have hspoken : spoken (p :: parts) = spoken parts := by simp [spoken, hp]
        rw [hspoken] at h
        exact ih cursor h
      · rw [if_neg hp]
        have hspoken : spoken (p :: parts) = strip p :: spoken parts := by simp [spoken, hp]
        rw [hspoken] at h
        have hsum := h (List.cons_ne_nil _ _)
        refine ⟨by omega, ih _ fun hne => ?_⟩
        rw [List.dropLast_cons_of_ne_nil hne, List.map_cons, List.sum_cons] at hsum
        omega

theorem Roomy.startsBefore {parts : List Str} (h : Roomy parts) :
    StartsBefore (totalOf parts) 0 parts :=
  startsBefore_of_sum 0 fun _ => by simpa [Roomy] using h

/-- **The loop**: the sentences are one after the other, up to the end. -/
theorem place_stacked {a d : ℚ} (ha : |a| ≤ 2 ^ 41) (hd : |d| ≤ 2 ^ 42) (hd0 : 0 ≤ d)
    {total : Nat} {parts : List Str} : ∀ cursor, StartsBefore total cursor parts →
      Stacked (timeAt a d (frac cursor total)) (timeAt a d 1)
        (place (fin a) (fin d) total cursor parts) := by
  induction parts with
  | nil => exact fun cursor _ => timeAt_mono hd0 (frac_le_one cursor total)
  | cons p parts ih =>
      intro cursor h
      rw [StartsBefore] at h
      simp only [place]
      by_cases hp : strip p = []
      · rw [if_pos hp] at h ⊢
        exact ih cursor h
      · rw [if_neg hp] at h ⊢
        refine ⟨timeAt a d (frac cursor total),
          timeAt a d (frac (cursor + (strip p).length + 1) total), ?_, ?_, isHundredth_timeAt ..,
          isHundredth_timeAt .., le_rfl, ?_, ih _ h.2⟩
        · rw [ratio_of_le h.1]
          exact position_eq ha hd (frac_nonneg ..) (frac_le_one ..)
        · rw [minOne_ratio]
          exact position_eq ha hd (frac_nonneg ..) (frac_le_one ..)
        · exact timeAt_mono hd0 (frac_mono (by omega) total)

/-! ## Long phrases -/

theorem sub_fin {s e : ℚ} (hs : |s| ≤ 2 ^ 41) (he : |e| ≤ 2 ^ 41) :
    sub (fin e) (fin s) = fin (fl (e - s)) ∧ |fl (e - s)| ≤ 2 ^ 42 := by
  have hd : |e - s| ≤ 2 ^ 42 := by
    calc |e - s| ≤ |e| + |s| := abs_sub e s
      _ ≤ 2 ^ 42 := by linarith
  refine ⟨?_, abs_fl_le (isFloat_pow (by norm_num)) hd⟩
  have hsub : sub (fin e) (fin s) = ofRat (e - s) := by
    rw [sub_eq_add_neg e s]
    rfl
  rw [hsub, ofRat_of_lt (lt_overflowAt_of_le (hd.trans (by norm_num)))]

/-- The parts of a phrase are inside of it. -/
theorem placed_stacked {seg : Piece} {s e : ℚ} (hstart : seg.startSeconds = fin s)
    (hend : seg.endSeconds = fin e) (hs : IsHundredth s) (he : IsHundredth e) (hse : s ≤ e)
    (hs41 : |s| ≤ 2 ^ 41) (he41 : |e| ≤ 2 ^ 41) {parts : List Str} (h : Roomy parts) :
    Stacked s e (placed seg parts) := by
  obtain ⟨hsub, hd⟩ := sub_fin hs41 he41
  have hd0 : 0 ≤ fl (e - s) := fl_nonneg (by linarith)
  simp only [placed]
  split
  · exact ⟨s, e, hstart, hend, hs, he, le_rfl, hse, le_rfl⟩
  · have hplace := place_stacked hs41 hd hd0 0 h.startsBefore
    rw [frac_zero, timeAt_zero_eq hs hs41, timeAt_one_eq he hs41 he41] at hplace
    rwa [hstart, hend, hsub]

theorem splitIfLong_stacked {seg : Piece} {ps : List Piece} {s e : ℚ}
    (hstart : seg.startSeconds = fin s) (hend : seg.endSeconds = fin e) (hs : IsHundredth s)
    (he : IsHundredth e) (hse : s ≤ e) (hs41 : |s| ≤ 2 ^ 41) (he41 : |e| ≤ 2 ^ 41)
    (hroomy : PyFloat.lt (.fin longPhraseThreshold) (seg.endSeconds.sub seg.startSeconds) = true →
      RoomyPhrase seg) (h : splitIfLong seg = .ok ps) : Stacked s e ps := by
  have hself : Stacked s e [seg] := ⟨s, e, hstart, hend, hs, he, le_rfl, hse, le_rfl⟩
  have hplaced : ∀ {parts : List Str}, Roomy parts → Stacked s e (placed seg parts) :=
    placed_stacked hstart hend hs he hse hs41 he41
  rw [splitIfLong] at h
  split at h
  · rename_i hlong
    have hphrase := hroomy hlong
    simp only [RoomyPhrase] at hphrase
    simp only [splitLongPhrase] at h
    split at h
    · rename_i hsoft
      rw [if_pos hsoft] at hphrase
      cases h
      exact hplaced hphrase
    · rename_i hsoft
      rw [if_neg hsoft] at hphrase
      obtain ⟨n, hn, h⟩ := ok_of_bind h
      split at h
      · cases h
        exact hself
      · cases h
        exact hplaced (hphrase n hn)
  · cases h
    exact hself

/-- **Cutting keeps the order.** -/
theorem mapM_stacked {segs : List Piece} {lo hi : ℚ} (h : Stacked lo hi segs)
    (hlo : -2 ^ 41 ≤ lo) (hhi : hi ≤ 2 ^ 41)
    (hroomy : ∀ seg ∈ segs,
      PyFloat.lt (.fin longPhraseThreshold) (seg.endSeconds.sub seg.startSeconds) = true →
        RoomyPhrase seg) {pss : List (List Piece)} (hpss : segs.mapM splitIfLong = .ok pss) :
    Stacked lo hi pss.flatten := by
  induction segs generalizing lo pss with
  | nil =>
      cases hpss
      exact h
  | cons seg segs ih =>
      obtain ⟨s, e, hstart, hend, hs, he, hle, hse, hrest⟩ := h
      rw [List.mapM_cons] at hpss
      obtain ⟨ps, hps, hpss⟩ := ok_of_bind hpss
      obtain ⟨qss, hqss, hpss⟩ := ok_of_bind hpss
      cases hpss
      have hehi := hrest.le
      have hfirst : Stacked s e ps := splitIfLong_stacked hstart hend hs he hse
        (abs_le.mpr ⟨by linarith, by linarith⟩) (abs_le.mpr ⟨by linarith, by linarith⟩)
        (hroomy seg List.mem_cons_self) hps
      have htail := ih hrest (by linarith)
        (fun seg' hseg' => hroomy seg' (List.mem_cons_of_mem seg hseg')) hqss
      exact (hfirst.of_le hle).append htail

/-! ## Chunks -/

theorem staysInside_of_inTime {c : Coarse} {a b : ℚ} (hspans : c.Spans a b) (h : InTime c a b)
    {ps : List Piece} (hps : alignOne c = .ok ps) : StaysInside a b ps := by
  by_cases hne : ps = []
  · subst hne
    exact ⟨fun p hp => absurd hp List.not_mem_nil, List.Pairwise.nil⟩
  · obtain ⟨t0, t1, pss, ht0, ht1, -, hpss, rfl⟩ := alignOne_cases hps hne
    rw [hspans.start] at ht0
    rw [hspans.stop] at ht1
    cases ht0
    cases ht1
    have ha : |a| ≤ 2 ^ 41 := h.start.trans (by norm_num)
    have hb : |b| ≤ 2 ^ 41 := h.stop.trans (by norm_num)
    have hlt := hspans.lt
    obtain ⟨hsub, hd⟩ := sub_fin ha hb
    have hplace := place_stacked ha hd (fl_nonneg (by linarith)) 0 h.sentences.startsBefore
    have hzero := abs_le.mp
      (timeAt_near (d := fl (b - a)) ha ((start_near ha).trans (by norm_num)))
    have hone := abs_le.mp (timeAt_near hb (stop_near ha hb))
    rw [frac_zero] at hplace
    have ha40 := abs_le.mp h.start
    have hb40 := abs_le.mp h.stop
    rw [hsub] at hpss
    have hphrases := h.phrases
    simp only [longPhrases, List.mem_filter, hsub] at hphrases
    have hstacked := mapM_stacked hplace (by linarith [hzero.1, ha40.1])
      (by linarith [hone.2, hb40.2]) (fun seg hseg hlong => hphrases seg ⟨hseg, hlong⟩) hpss
    obtain ⟨hinside, hsorted⟩ := hstacked.inside
    refine ⟨fun p hp => ?_, hsorted⟩
    obtain ⟨s, e, hs, he, hlo, hse, hhi⟩ := hinside p hp
    exact ⟨s, e, hs, he, by linarith [hzero.1], hse, by linarith [hone.2]⟩

theorem StaysInside.sublist {a b : ℚ} {ps qs : List Piece} (h : StaysInside a b ps)
    (hqs : qs.Sublist ps) : StaysInside a b qs :=
  ⟨fun p hp => h.inside p (hqs.subset hp), h.sorted.sublist hqs⟩

/-- What is kept of several lists is kept of each. -/
theorem kept_of_sublist {α : Type} {xss : List (List α)} {ys : List α}
    (h : ys.Sublist xss.flatten) :
    ∃ kept : List (List α), ys = kept.flatten ∧ List.Forall₂ (fun ks xs => ks.Sublist xs) kept xss := by
  induction xss generalizing ys with
  | nil =>
      refine ⟨[], ?_, .nil⟩
      rw [List.flatten_nil] at h ⊢
      exact List.sublist_nil.mp h
  | cons xs xss ih =>
      rw [List.flatten_cons] at h
      obtain ⟨ks, ls, rfl, hks, hls⟩ := List.sublist_append_iff.mp h
      obtain ⟨kept, rfl, hkept⟩ := ih hls
      exact ⟨ks :: kept, rfl, .cons hks hkept⟩

/-- **Sentences stay inside of their chunk.** Where no part of a text, nor of a phrase of more than
twenty seconds, starts after its last character when the separators before it are counted, and no
time is beyond `2 ^ 40` seconds. -/
theorem within_of_inTime {coarse : List Coarse} {out : List Piece}
    (hout : sentenceAlignSegments coarse = .ok out)
    (h : ∀ c ∈ coarse, ∀ a b, c.Spans a b → InTime c a b) : Within coarse out := by
  obtain ⟨pss, hpss, heq⟩ := ok_of_bind hout
  clear hout
  cases heq
  obtain ⟨kept, hkept, hsub⟩ := kept_of_sublist (dedupeAfter_sublist none pss.flatten)
  refine ⟨kept, hkept, ?_⟩
  clear hkept
  induction coarse generalizing pss kept with
  | nil =>
      cases hpss
      cases hsub
      exact .nil
  | cons c coarse ih =>
      rw [List.mapM_cons] at hpss
      obtain ⟨ps, hps, hpss⟩ := ok_of_bind hpss
      obtain ⟨qss, hqss, hpss⟩ := ok_of_bind hpss
      cases hpss
      cases hsub with
      | cons hks hrest =>
          refine .cons ⟨⟨ps, hps, hks⟩, fun a b hspans => ?_⟩
            (ih (fun c' hc' => h c' (List.mem_cons_of_mem c hc')) _ hqss _ hrest)
          exact (staysInside_of_inTime hspans (h c List.mem_cons_self a b hspans) hps).sublist hks

/-- Two sentences; the first one takes more than twenty seconds. -/
def twoSentences : Coarse where
  text := some ['B', 'i', 'e', 'n', '.', ' ', 'A', 'h', '.']
  startSeconds := some (.fin 0)
  endSeconds := some (.fin 70)

theorem twoSentences_within : Within [twoSentences]
    [⟨.fin 0, .fin (105 / 2), ['B', 'i', 'e', 'n', '.']⟩,
      ⟨.fin (105 / 2), .fin 70, ['A', 'h', '.']⟩] := by
  refine within_of_inTime (by decide +kernel) fun c hc a b hspans => ?_
  rw [List.mem_singleton.mp hc] at hspans ⊢
  obtain ⟨ha, hb, -⟩ := hspans
  cases ha
  cases hb
  refine ⟨by norm_num, by norm_num, ?_, fun seg hseg => ?_⟩
  · rw [Roomy]
    decide
  · have hlong : longPhrases twoSentences 0 70 =
        [⟨.fin 0, .fin (105 / 2), ['B', 'i', 'e', 'n', '.']⟩] := by
      decide +kernel
    rw [hlong, List.mem_singleton] at hseg
    subst hseg
    intro n hn
    have hthree : ((sub (fin (105 / 2)) (fin 0)).divRat 15).toInt = .ok 3 := by decide +kernel
    rw [hthree] at hn
    cases hn
    rw [Roomy]
    decide

/-- Five short sentences. -/
def fiveSentences : Coarse where
  text := some ['a', '.', ' ', 'b', '.', ' ', 'c', '.', ' ', 'd', '.', ' ', 'e', '.']
  startSeconds := some (.fin 0)
  endSeconds := some (.fin 10)

/-- **The fifth of five short sentences** starts two seconds after the end. -/
theorem last_outside : ¬ ∀ (coarse : List Coarse) (out : List Piece),
    (∀ c ∈ coarse, ∃ a b, c.Spans a b) → sentenceAlignSegments coarse = .ok out →
      Within coarse out := by
  intro h
  have hspans : fiveSentences.Spans 0 10 := ⟨rfl, rfl, by norm_num⟩
  obtain ⟨kept, hkept, hall⟩ := h [fiveSentences]
    [⟨.fin 0, .fin 3, ['a', '.']⟩, ⟨.fin 3, .fin 6, ['b', '.']⟩, ⟨.fin 6, .fin 9, ['c', '.']⟩,
      ⟨.fin 9, .fin 10, ['d', '.']⟩, ⟨.fin 12, .fin 10, ['e', '.']⟩]
    (fun c hc => ⟨0, 10, List.mem_singleton.mp hc ▸ hspans⟩) (by decide +kernel)
  cases hall with
  | cons hfirst hrest =>
      cases hrest
      rw [List.flatten_singleton] at hkept
      subst hkept
      obtain ⟨s, e, hs, he, -, hse, -⟩ := (hfirst.2 0 10 hspans).inside
        ⟨.fin 12, .fin 10, ['e', '.']⟩ (by decide)
      cases hs
      cases he
      norm_num at hse

end MesReunions.Subtitles
