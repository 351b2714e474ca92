import Mathlib.Data.List.Basic

/-!
# Cutting a list at its heads

A list in which some elements are heads is a preamble without heads followed by
sections, each a head and the elements up to the next one.

* **`cut`** — preamble and sections, from the right.
* **`cut_eq_iff`** — they are the only such decomposition.
* **`cut_map`**, **`cut_filter`** — what a map or a filter that keeps heads does to the
  cut.
-/

namespace MesReunions.Sections

universe u v

variable {α : Type u} {β : Type v}

/-- The preamble, and the sections. -/
def cut (isHead : α → Bool) : List α → List α × List (α × List α)
  | [] => ([], [])
  | a :: as =>
      let c := cut isHead as
      if isHead a then ([], (a, c.1) :: c.2) else (a :: c.1, c.2)

/-- The elements of the sections, in order. -/
def flat (secs : List (α × List α)) : List α := secs.flatMap fun s => s.1 :: s.2

@[simp] theorem flat_nil : flat ([] : List (α × List α)) = [] := rfl

@[simp] theorem flat_cons (s : α × List α) (secs : List (α × List α)) :
    flat (s :: secs) = s.1 :: (s.2 ++ flat secs) := rfl

@[simp] theorem cut_nil (isHead : α → Bool) : cut isHead [] = ([], []) := rfl

theorem cut_head {isHead : α → Bool} {a : α} (h : isHead a = true) (as : List α) :
    cut isHead (a :: as) = ([], (a, (cut isHead as).1) :: (cut isHead as).2) := by
  simp [cut, h]

theorem cut_other {isHead : α → Bool} {a : α} (h : isHead a = false) (as : List α) :
    cut isHead (a :: as) = (a :: (cut isHead as).1, (cut isHead as).2) := by
  simp [cut, h]

/-- Elements that are no heads join the preamble. -/
theorem cut_append {isHead : α → Bool} {as : List α} (h : ∀ a ∈ as, isHead a = false)
    (bs : List α) : cut isHead (as ++ bs) = (as ++ (cut isHead bs).1, (cut isHead bs).2) := by
  induction as with
  | nil => rfl
  | cons a as ih =>
      rw [List.cons_append, cut_other (h a List.mem_cons_self),
        ih fun x hx => h x (List.mem_cons_of_mem _ hx)]
      rfl

/-- A decomposition into a preamble and sections. -/
structure IsCut (isHead : α → Bool) (pre : List α) (secs : List (α × List α)) : Prop where
  preamble : ∀ a ∈ pre, isHead a = false
  head : ∀ s ∈ secs, isHead s.1 = true
  rest : ∀ s ∈ secs, ∀ a ∈ s.2, isHead a = false

theorem isCut_cut (isHead : α → Bool) (as : List α) :
    IsCut isHead (cut isHead as).1 (cut isHead as).2 ∧
      (cut isHead as).1 ++ flat (cut isHead as).2 = as := by
  induction as with
  | nil =>
      refine ⟨⟨?_, ?_, ?_⟩, rfl⟩ <;> simp
  | cons a as ih =>
      obtain ⟨⟨hpre, hhead, hrest⟩, hflat⟩ := ih
      cases ha : isHead a with
      | true =>
          rw [cut_head ha]
          refine ⟨⟨by simp, ?_, ?_⟩, by simp [hflat]⟩
          · intro s hs
            rcases List.mem_cons.mp hs with rfl | hs
            · exact ha
            · exact hhead s hs
          · intro s hs
            rcases List.mem_cons.mp hs with rfl | hs
            · exact hpre
            · exact hrest s hs
      | false =>
          rw [cut_other ha]
          refine ⟨⟨?_, hhead, hrest⟩, by simp [hflat]⟩
          intro b hb
          rcases List.mem_cons.mp hb with rfl | hb
          · exact ha
          · exact hpre b hb

theorem mem_of_mem_cut {isHead : α → Bool} {as : List α} {s : α × List α}
    (h : s ∈ (cut isHead as).2) : ∀ a ∈ s.1 :: s.2, a ∈ as := by
  intro a ha
  rw [← (isCut_cut isHead as).2]
  exact List.mem_append_right _ (List.mem_flatMap.mpr ⟨s, h, ha⟩)

/-- Sections are cut as they were put together. -/
theorem cut_flat {isHead : α → Bool} {secs : List (α × List α)} :
    ∀ {pre : List α}, IsCut isHead pre secs → cut isHead (pre ++ flat secs) = (pre, secs) := by
  induction secs with
  | nil =>
      intro pre h
      rw [cut_append h.preamble]
      simp
  | cons s secs ih =>
      intro pre h
      have hsub : IsCut isHead s.2 secs :=
        ⟨h.rest s List.mem_cons_self, fun t ht => h.head t (List.mem_cons_of_mem _ ht),
          fun t ht => h.rest t (List.mem_cons_of_mem _ ht)⟩
      rw [cut_append h.preamble, flat_cons, cut_head (h.head s List.mem_cons_self), ih hsub]
      simp

theorem cut_eq_iff {isHead : α → Bool} {as pre : List α} {secs : List (α × List α)} :
    cut isHead as = (pre, secs) ↔ IsCut isHead pre secs ∧ pre ++ flat secs = as := by
  constructor
  · intro h
    have hcut := isCut_cut isHead as
    rw [h] at hcut
    exact hcut
  · rintro ⟨h, rfl⟩
    exact cut_flat h

/-- A map that keeps heads heads, and others others, keeps the cut. -/
theorem cut_map {isHead : α → Bool} {isHead' : β → Bool} {f : α → β} {as : List α}
    (h : ∀ a ∈ as, isHead' (f a) = isHead a) :
    cut isHead' (as.map f) = ((cut isHead as).1.map f,
      (cut isHead as).2.map fun s => (f s.1, s.2.map f)) := by
  induction as with
  | nil => rfl
  | cons a as ih =>
      have ih := ih fun x hx => h x (List.mem_cons_of_mem _ hx)
      have ha := h a List.mem_cons_self
      cases hh : isHead a with
      | true =>
          rw [hh] at ha
          rw [List.map_cons, cut_head ha, cut_head hh, ih]
          rfl
      | false =>
          rw [hh] at ha
          rw [List.map_cons, cut_other ha, cut_other hh, ih]
          rfl

/-- A filter that keeps the heads acts on the preamble and inside each section. -/
theorem cut_filter {isHead keep : α → Bool} (h : ∀ a, isHead a = true → keep a = true)
    (as : List α) : cut isHead (as.filter keep) = ((cut isHead as).1.filter keep,
      (cut isHead as).2.map fun s => (s.1, s.2.filter keep)) := by
  induction as with
  | nil => rfl
  | cons a as ih =>
      cases hh : isHead a with
      | true =>
          rw [List.filter_cons_of_pos (h a hh), cut_head hh, cut_head hh, ih]
          rfl
      | false =>
          rw [cut_other hh]
          by_cases hk : keep a = true
          · rw [List.filter_cons_of_pos hk, cut_other hh, ih, List.filter_cons_of_pos hk]
          · rw [List.filter_cons_of_neg hk, ih, List.filter_cons_of_neg hk]

/-- There is one section a head. -/
theorem length_cut (isHead : α → Bool) (as : List α) :
    (cut isHead as).2.length = as.countP isHead := by
  induction as with
  | nil => rfl
  | cons a as ih =>
      cases hh : isHead a with
      | true => rw [cut_head hh, List.countP_cons_of_pos hh, List.length_cons, ih]
      | false => rw [cut_other hh, List.countP_cons_of_neg (by simp [hh]), ih]

end MesReunions.Sections
