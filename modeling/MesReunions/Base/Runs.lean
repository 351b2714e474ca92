import Mathlib.Data.List.SplitBy

/-!
# Runs of equal keys

`runs key xs` cuts a list where the key changes.

* **`runs_filter`** — runs that are kept or dropped as wholes are the runs of what is kept, as long
  as no two of one key come together.
* **`apart_of_length`** — where some do, there are fewer runs.
-/

namespace MesReunions.Runs

universe u v

variable {α : Type u} {κ : Type v} [DecidableEq κ] (key : α → κ)

/-- The maximal runs of one key. -/
def runs (xs : List α) : List (List α) := xs.splitBy fun a b => key a == key b

/-- Not empty, and of one key. -/
def IsRun (g : List α) : Prop := g ≠ [] ∧ ∀ a ∈ g, ∀ b ∈ g, key a = key b

/-- Two runs that would not be one. -/
def Apart (g h : List α) : Prop := g.head?.map key ≠ h.head?.map key

instance (g h : List α) : Decidable (Apart key g h) := by unfold Apart; infer_instance

variable {key}

theorem IsRun.chain {g : List α} (h : IsRun key g) :
    g.IsChain fun a b => (key a == key b) = true := by
  refine List.Pairwise.isChain (List.pairwise_of_forall_mem_list fun a ha b hb => ?_)
  exact beq_iff_eq.mpr (h.2 a ha b hb)

theorem isRun_of_mem {xs g : List α} (h : g ∈ runs key xs) : IsRun key g := by
  refine ⟨List.ne_nil_of_mem_splitBy h, ?_⟩
  have hchain : g.IsChain fun a b => key a = key b :=
    (List.isChain_of_mem_splitBy h).imp fun a b hab => beq_iff_eq.mp hab
  -- Every element has the key of the first.
  obtain ⟨c, g', hg⟩ := List.exists_cons_of_ne_nil (List.ne_nil_of_mem_splitBy h)
  have hpair : g.Pairwise fun a b => key a = key b := List.isChain_iff_pairwise.mp hchain
  have hfirst : ∀ a ∈ g, key c = key a := by
    intro a ha
    rw [hg] at ha hpair
    rcases List.mem_cons.mp ha with rfl | ha
    · rfl
    · exact List.rel_of_pairwise_cons hpair ha
  exact fun a ha b hb => (hfirst a ha).symm.trans (hfirst b hb)

@[simp] theorem flatten_runs (xs : List α) : (runs key xs).flatten = xs := List.flatten_splitBy ..

theorem runs_of_isRun {g : List α} (h : IsRun key g) : runs key g = [g] :=
  List.splitBy_of_isChain h.1 h.chain

omit [DecidableEq κ] in
theorem IsRun.head_eq {g : List α} (h : IsRun key g) {a : α} (ha : a ∈ g) :
    g.head?.map key = some (key a) := by
  obtain ⟨b, g', rfl⟩ := List.exists_cons_of_ne_nil h.1
  exact congrArg some (h.2 b List.mem_cons_self a ha)

theorem apart_runs (xs : List α) : (runs key xs).IsChain (Apart key) := by
  have hchain := List.isChain_getLast_head_splitBy (fun a b => key a == key b) xs
  rw [List.isChain_iff_getElem] at hchain ⊢
  intro i hi
  obtain ⟨hg, hh, hne⟩ := hchain i hi
  have hrun : ∀ j (hj : j < (runs key xs).length), IsRun key (runs key xs)[j] :=
    fun j hj => isRun_of_mem (List.getElem_mem _)
  rw [beq_eq_false_iff_ne] at hne
  intro heq
  apply hne
  have hlast := (hrun i (Nat.lt_of_succ_lt hi)).head_eq (List.getLast_mem hg)
  have hhead := (hrun (i + 1) hi).head_eq (List.head_mem hh)
  exact Option.some.inj (hlast.symm.trans (heq.trans hhead))

/-- Wholes of one key each are the runs of the list they make, if no two would be one. -/
theorem runs_flatten {L : List (List α)} (hrun : ∀ g ∈ L, IsRun key g)
    (hapart : L.IsChain (Apart key)) : runs key L.flatten = L := by
  refine List.splitBy_flatten (fun hnil => (hrun [] hnil).1 rfl) (fun g hg => (hrun g hg).chain) ?_
  have hchain : L.IsChain fun g h => (g ∈ L ∧ h ∈ L) ∧ Apart key g h :=
    (List.isChain_iff_getElem.mpr fun i hi => ⟨⟨List.getElem_mem _, List.getElem_mem _⟩,
      List.isChain_iff_getElem.mp hapart i hi⟩)
  refine hchain.imp fun g h hgh => ?_
  obtain ⟨⟨hg, hh⟩, hne⟩ := hgh
  refine ⟨(hrun g hg).1, (hrun h hh).1, ?_⟩
  rw [beq_eq_false_iff_ne]
  intro heq
  apply hne
  rw [(hrun g hg).head_eq (List.getLast_mem (hrun g hg).1),
    (hrun h hh).head_eq (List.head_mem (hrun h hh).1), heq]

/-- Filtering the elements drops whole runs. -/
theorem filter_eq_flatten {p : α → Bool} {xs : List α}
    (hwhole : ∀ g ∈ runs key xs, (∀ a ∈ g, p a = false) ∨ ∀ a ∈ g, p a = true) :
    xs.filter p = ((runs key xs).filter fun g => g.all p).flatten := by
  have hkept : ∀ L : List (List α), (∀ g ∈ L, g ≠ []) →
      (∀ g ∈ L, (∀ a ∈ g, p a = false) ∨ ∀ a ∈ g, p a = true) →
      L.flatten.filter p = (L.filter fun g => g.all p).flatten := by
    intro L
    induction L with
    | nil => intros; rfl
    | cons g L ih =>
        intro hne hw
        have ih := ih (fun h hh => hne h (List.mem_cons_of_mem _ hh))
          fun h hh => hw h (List.mem_cons_of_mem _ hh)
        rw [List.flatten_cons, List.filter_append, ih]
        rcases hw g List.mem_cons_self with hnone | hall
        · -- A run that is dropped has an element that is.
          obtain ⟨a, g', rfl⟩ := List.exists_cons_of_ne_nil (hne g List.mem_cons_self)
          have hdrop : (a :: g').filter p = [] :=
            List.filter_eq_nil_iff.mpr fun b hb => by rw [hnone b hb]; exact Bool.false_ne_true
          rw [hdrop, List.nil_append, List.filter_cons_of_neg]
          simp [hnone a List.mem_cons_self]
        · rw [List.filter_eq_self.mpr hall, List.filter_cons_of_pos, List.flatten_cons]
          exact List.all_eq_true.mpr hall
  have hflat := hkept (runs key xs) (fun g hg => (isRun_of_mem hg).1) hwhole
  rwa [flatten_runs] at hflat

/-- **Dropping whole runs.** -/
theorem runs_filter {p : α → Bool} {xs : List α}
    (hwhole : ∀ g ∈ runs key xs, (∀ a ∈ g, p a = false) ∨ ∀ a ∈ g, p a = true)
    (hapart : ((runs key xs).filter fun g => g.all p).IsChain (Apart key)) :
    runs key (xs.filter p) = (runs key xs).filter fun g => g.all p := by
  rw [filter_eq_flatten hwhole]
  exact runs_flatten (fun g hg => isRun_of_mem (List.mem_filter.mp hg).1) hapart

/-- An element of the same key in front makes the first run longer. -/
theorem length_runs_cons {a b : α} (h : key a = key b) (m : List α) :
    (runs key (a :: b :: m)).length = (runs key (b :: m)).length := by
  obtain ⟨g, gs, hgs⟩ := List.exists_cons_of_ne_nil
    (List.splitBy_ne_nil (r := fun a b => key a == key b).mpr (List.cons_ne_nil b m))
  have hruns : runs key (b :: m) = g :: gs := hgs
  have hall : ∀ h ∈ g :: gs, IsRun key h := fun h hh => isRun_of_mem (hruns ▸ hh)
  have hg := hall g List.mem_cons_self
  obtain ⟨c, g', rfl⟩ := List.exists_cons_of_ne_nil hg.1
  have hflat : c :: (g' ++ gs.flatten) = b :: m := by
    rw [← @flatten_runs _ _ _ key (b :: m), hruns]
    rfl
  injection hflat with hc hm
  subst hc
  have hlong : runs key (a :: c :: m) = (a :: c :: g') :: gs := by
    have heq : a :: c :: m = ((a :: c :: g') :: gs).flatten := by
      rw [← hm]
      rfl
    rw [heq]
    refine runs_flatten ?_ ?_
    · intro h' hh
      rcases List.mem_cons.mp hh with rfl | hh
      · refine ⟨List.cons_ne_nil _ _, fun x hx y hy => ?_⟩
        have hkey : ∀ z ∈ a :: c :: g', key z = key c := by
          intro z hz
          rcases List.mem_cons.mp hz with rfl | hz
          · exact h
          · exact hg.2 z hz c List.mem_cons_self
        rw [hkey x hx, hkey y hy]
      · exact hall h' (List.mem_cons_of_mem _ hh)
    · have hchain := @apart_runs _ _ _ key (c :: m)
      rw [hruns, List.isChain_cons] at hchain
      rw [List.isChain_cons]
      refine ⟨fun h' hh heq => hchain.1 h' hh ?_, hchain.2⟩
      rw [← heq]
      exact congrArg some h.symm
  rw [hlong, hruns]
  rfl

/-- A whole in front of a list that begins with its key. -/
theorem length_runs_append {g m : List α} {b : α} (hg : ∀ a ∈ g, key a = key b) :
    (runs key (g ++ b :: m)).length = (runs key (b :: m)).length := by
  induction g with
  | nil => rfl
  | cons a g ih =>
      have ih := ih fun c hc => hg c (List.mem_cons_of_mem _ hc)
      rw [← ih]
      cases g with
      | nil => exact length_runs_cons (hg a List.mem_cons_self) m
      | cons c g =>
          refine length_runs_cons ?_ (g ++ b :: m)
          rw [hg a List.mem_cons_self, hg c (List.mem_cons_of_mem _ List.mem_cons_self)]

/-- **Counting runs.** Wholes of one key each make as many runs, at most; and if they make as
many, no two are one. -/
theorem apart_of_length {L : List (List α)} (hrun : ∀ g ∈ L, IsRun key g) :
    (runs key L.flatten).length ≤ L.length ∧
      ((runs key L.flatten).length = L.length → L.IsChain (Apart key)) := by
  induction L with
  | nil => exact ⟨Nat.le_refl _, fun _ => .nil⟩
  | cons g L ih =>
      obtain ⟨hle, hchain⟩ := ih fun h hh => hrun h (List.mem_cons_of_mem _ hh)
      have hg := hrun g List.mem_cons_self
      cases L with
      | nil =>
          rw [List.flatten_cons, List.flatten_nil, List.append_nil, runs_of_isRun hg]
          exact ⟨Nat.le_refl _, fun _ => .singleton _⟩
      | cons h L =>
          have hh := hrun h (List.mem_cons_of_mem _ List.mem_cons_self)
          obtain ⟨b, h', rfl⟩ := List.exists_cons_of_ne_nil hh.1
          by_cases hkey : Apart key g (b :: h')
          · have hsplit : runs key (g :: (b :: h') :: L).flatten =
                g :: runs key ((b :: h') :: L).flatten := by
              rw [List.flatten_cons, runs, List.splitBy_append]
              · exact congrArg (· ++ _) (runs_of_isRun hg)
              · intro a ha c hc
                rw [beq_eq_false_iff_ne]
                intro heq
                apply hkey
                injection hc with hc
                subst hc
                rw [hg.head_eq (List.mem_of_getLast? ha), heq]
                rfl
            rw [hsplit, List.length_cons, List.length_cons]
            refine ⟨Nat.succ_le_succ hle, fun heq => ?_⟩
            refine List.isChain_cons.mpr ⟨fun x hx => ?_, hchain (Nat.succ.inj heq)⟩
            injection hx with hx
            rw [← hx]
            exact hkey
          · have hsame : ∀ a ∈ g, key a = key b := by
              intro a ha
              have heq := Decidable.not_not.mp hkey
              rw [hg.head_eq ha] at heq
              exact Option.some.inj heq
            have hlength : (runs key (g :: (b :: h') :: L).flatten).length =
                (runs key ((b :: h') :: L).flatten).length := length_runs_append hsame
            rw [hlength]
            refine ⟨Nat.le_succ_of_le hle, fun heq => ?_⟩
            rw [List.length_cons] at heq
            omega

end MesReunions.Runs
