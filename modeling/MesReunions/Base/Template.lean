import MesReunions.Base.Replace
import MesReunions.Base.Scan

/-!
# Templates

A template holds placeholders, each in braces of its own. They may be filled at once, or by one
replacement of the whole text after the other.

* `fill` — all at once; `fillUpTo` — only the first ones.
* **`replace_fillUpTo`** — a replacement fills its placeholder, if the text holds it nowhere else.
* **`replaceAll_eq_fill`** — one after the other is at once, if no value brings a placeholder that
  is still to come.
-/

namespace MesReunions.Str

/-! ## Occurrences -/

/-- How often `p` occurs in a text. -/
def occurrences (p : Str) : Str → Nat
  | [] => 0
  | c :: s => (if p.isPrefixOf (c :: s) then 1 else 0) + occurrences p s

/-- The first character does not come back, so occurrences do not overlap. -/
def Opens (p : Str) : Prop := ∃ c r, p = c :: r ∧ c ∉ r

/-- Nothing starts in a text where the first character is missing. -/
theorem occurrences_append_of_not_mem {c : Char} {r u : Str} (hu : c ∉ u) (x : Str) :
    occurrences (c :: r) (u ++ x) = occurrences (c :: r) x := by
  induction u with
  | nil => rfl
  | cons d u ih =>
      have hne : c ≠ d := fun h => hu (h ▸ List.mem_cons_self)
      have hpre : (c :: r).isPrefixOf (d :: (u ++ x)) = false := by
        simp [List.isPrefixOf, hne]
      rw [List.cons_append, occurrences, hpre, ih fun h => hu (List.mem_cons_of_mem _ h)]
      simp

theorem occurrences_self_append {p : Str} (hp : Opens p) (x : Str) :
    occurrences p (p ++ x) = 1 + occurrences p x := by
  obtain ⟨c, r, rfl, hc⟩ := hp
  have hpre : (c :: r).isPrefixOf (c :: (r ++ x)) = true := by
    rw [List.isPrefixOf_iff_prefix]
    exact List.prefix_append (c :: r) x
  rw [List.cons_append, occurrences, if_pos hpre, occurrences_append_of_not_mem hc]

theorem le_occurrences_append (p u x : Str) : occurrences p x ≤ occurrences p (u ++ x) := by
  induction u with
  | nil => exact le_refl _
  | cons d u ih => exact ih.trans (Nat.le_add_left _ _)

/-! ## Replacing -/

theorem replaceFrom_skip (old new u x : Str) :
    replaceFrom old new u.length (u ++ x) = replaceFrom old new 0 x := by
  induction u with
  | nil => rfl
  | cons c u ih => exact ih

theorem replace_self_append {p : Str} (hp : Opens p) (v x : Str) :
    replace p v (p ++ x) = v ++ replace p v x := by
  obtain ⟨c, r, rfl, -⟩ := hp
  have hpre : (c :: r).isPrefixOf (c :: (r ++ x)) = true := by
    rw [List.isPrefixOf_iff_prefix]
    exact List.prefix_append (c :: r) x
  rw [replace, List.cons_append, replaceFrom, if_pos hpre, List.length_cons, Nat.add_sub_cancel,
    replaceFrom_skip, replace]

/-- A text in which no occurrence starts is left as it is. -/
theorem replace_append_of_none {p v u x : Str}
    (h : occurrences p (u ++ x) = occurrences p x) :
    replace p v (u ++ x) = u ++ replace p v x := by
  induction u with
  | nil => rfl
  | cons c u ih =>
      rw [List.cons_append, occurrences] at h
      have hle := le_occurrences_append p u x
      have hnone : ¬ p.isPrefixOf (c :: (u ++ x)) = true := by
        intro hpre
        rw [if_pos hpre] at h
        omega
      rw [if_neg hnone] at h
      rw [List.cons_append, replace, replaceFrom, if_neg hnone, ← replace, ih (by omega),
        List.cons_append]

/-- **A replacement finds the parts that are the placeholder**, if it finds no more than these. -/
theorem replace_parts {p v : Str} (hp : Opens p) {ps : List (Bool × Str)}
    (hown : ∀ b ∈ ps, b.1 = true → b.2 = p) :
    ps.countP (·.1) ≤ occurrences p (ps.flatMap (·.2)) ∧
      (occurrences p (ps.flatMap (·.2)) = ps.countP (·.1) →
        replace p v (ps.flatMap (·.2)) = ps.flatMap fun b => if b.1 then v else b.2) := by
  induction ps with
  | nil => exact ⟨le_refl _, fun _ => rfl⟩
  | cons b ps ih =>
      obtain ⟨hle, heq⟩ := ih fun b hb => hown b (List.mem_cons_of_mem _ hb)
      rw [List.flatMap_cons, List.flatMap_cons]
      cases hb : b.1 with
      | true =>
          have hcount : (b :: ps).countP (·.1) = ps.countP (·.1) + 1 := List.countP_cons_of_pos hb
          rw [hown b List.mem_cons_self hb, occurrences_self_append hp, hcount]
          refine ⟨by omega, fun h => ?_⟩
          rw [replace_self_append hp, heq (by omega)]
          simp
      | false =>
          have hmono := le_occurrences_append p b.2 (ps.flatMap (·.2))
          have hcount : (b :: ps).countP (·.1) = ps.countP (·.1) :=
            List.countP_cons_of_neg (by simp [hb])
          rw [hcount]
          refine ⟨by omega, fun h => ?_⟩
          rw [replace_append_of_none (by omega), heq (by omega)]
          simp

/-! ## Templates -/

/-- A name in braces. -/
def IsPlaceholder (p : Str) : Prop :=
  ∃ name, p = '{' :: (name ++ ['}']) ∧ '{' ∉ name ∧ '}' ∉ name

/-- A piece of a template. -/
inductive Token where
  | lit (c : Char)
  | hole (i : Nat)

/-- The pieces of a template; the next `skip` characters belong to a placeholder. -/
def tokens (holes : List Str) : (skip : Nat) → Str → List Token
  | _, [] => []
  | skip + 1, _ :: s => tokens holes skip s
  | 0, c :: s =>
      match holes.findIdx? (·.isPrefixOf (c :: s)) with
      | some i => .hole i :: tokens holes ((holes.getD i []).length - 1) s
      | none => .lit c :: tokens holes 0 s

/-- A piece, when the first `k` placeholders have got their values. -/
def tokenText (subs : List (Str × Str)) (k : Nat) : Token → Str
  | .lit c => [c]
  | .hole i => match subs[i]? with
    | some (p, v) => if i < k then v else p
    | none => []

/-- The template with its first `k` placeholders replaced at once. -/
def fillUpTo (subs : List (Str × Str)) (k : Nat) (template : Str) : Str :=
  (tokens (subs.map (·.1)) 0 template).flatMap (tokenText subs k)

/-- The template with each placeholder replaced by its value. -/
def fill (subs : List (Str × Str)) (template : Str) : Str :=
  fillUpTo subs subs.length template

/-- One replacement after the other. -/
def replaceAll (subs : List (Str × Str)) (template : Str) : Str :=
  subs.foldl (fun s q => replace q.1 q.2 s) template

/-- The placeholders of a list of values. -/
structure Placeholders (subs : List (Str × Str)) : Prop where
  shape : ∀ q ∈ subs, IsPlaceholder q.1
  nodup : (subs.map (·.1)).Nodup

/-- Where its turn comes, each placeholder is where the template has it and nowhere else. -/
def NoneBrought (subs : List (Str × Str)) (template : Str) : Prop :=
  ∀ k (hk : k < subs.length),
    occurrences subs[k].1 (fillUpTo subs k template) = occurrences subs[k].1 template

/-! ## The pieces of a template -/

theorem IsPlaceholder.opens {p : Str} (h : IsPlaceholder p) : Opens p := by
  obtain ⟨name, rfl, hopen, -⟩ := h
  exact ⟨'{', name ++ ['}'], rfl, by simp [hopen]⟩

/-- No placeholder is the start of another one. -/
theorem IsPlaceholder.eq_of_prefix {p q x : Str} (hp : IsPlaceholder p) (hq : IsPlaceholder q)
    (hpx : p <+: x) (hqx : q <+: x) : p = q := by
  obtain ⟨n, rfl, -, hn⟩ := hp
  obtain ⟨m, rfl, -, hm⟩ := hq
  obtain ⟨y, rfl⟩ := hpx
  obtain ⟨z, hz⟩ := hqx
  simp only [List.cons_append, List.append_assoc, List.nil_append, List.cons.injEq,
    true_and] at hz
  have hmem : ∀ {w : Str}, '}' ∉ w → ∀ c ∈ w, (c != '}') = true := by
    intro w hw c hc
    simp only [bne_iff_ne, ne_eq]
    rintro rfl
    exact hw hc
  rw [(Scan.append_inj_of_stop (p := (· != '}')) (hmem hm) (by simp) (hmem hn) (by simp) hz).1]

/-- Which piece it is. -/
def Token.isHole (k : Nat) : Token → Bool
  | .lit _ => false
  | .hole i => i == k

/-- What a placeholder that was found takes. -/
theorem placeholder_split {q s : Str} {c : Char} (hq : IsPlaceholder q) (hpre : q <+: c :: s) :
    ∃ r, q = '{' :: r ∧ '{' ∉ r ∧ c = '{' ∧ s = r ++ s.drop (q.length - 1) := by
  obtain ⟨name, rfl, hopen, -⟩ := hq
  obtain ⟨rest, hrest⟩ := hpre
  obtain ⟨rfl, rfl⟩ := List.cons.inj hrest
  refine ⟨_, rfl, by simp [hopen], rfl, ?_⟩
  rw [List.length_cons, Nat.add_sub_cancel, List.append_eq, List.drop_left]

/-- The pieces of a template count the occurrences of a placeholder. -/
theorem occurrences_eq_countP {holes : List Str} (hshape : ∀ p ∈ holes, IsPlaceholder p)
    (hnodup : holes.Nodup) {k : Nat} (hk : k < holes.length) (skip : Nat) (s : Str) :
    occurrences holes[k] (s.drop skip) = (tokens holes skip s).countP (Token.isHole k) := by
  have hplace := hshape _ (List.getElem_mem hk)
  fun_induction tokens holes skip s with
  | case1 skip => simp [occurrences]
  | case2 skip c s ih => exact ih
  | case3 c s i hi ih =>
      obtain ⟨hlt, hpre, -⟩ := List.findIdx?_eq_some_iff_getElem.mp hi
      have hprefix : holes[i] <+: c :: s := List.isPrefixOf_iff_prefix.mp hpre
      have hget : holes.getD i [] = holes[i] := List.getD_eq_getElem _ _ hlt
      obtain ⟨r, hr, hopen, rfl, hs⟩ :=
        placeholder_split (hshape _ (List.getElem_mem hlt)) hprefix
      rw [hget] at ih ⊢
      rw [List.drop_zero]
      by_cases hik : i = k
      · subst hik
        have hcons : '{' :: s = holes[i] ++ s.drop (holes[i].length - 1) := by
          rw [hr, List.cons_append, ← hr, ← hs]
        rw [hcons, occurrences_self_append hplace.opens, ih,
          List.countP_cons_of_pos (by simp [Token.isHole]), Nat.add_comm]
      · have hnot : holes[k].isPrefixOf ('{' :: s) = false := by
          rw [Bool.eq_false_iff]
          intro hpk
          have heq := hplace.eq_of_prefix (hshape _ (List.getElem_mem hlt))
            (List.isPrefixOf_iff_prefix.mp hpk) hprefix
          exact hik ((List.Nodup.getElem_inj_iff hnodup).mp heq).symm
        obtain ⟨name, hname, -, -⟩ := hplace
        rw [occurrences, hnot, List.countP_cons_of_neg (by simp [Token.isHole, hik]), ← ih, hname]
        conv_lhs => rw [hs]
        rw [occurrences_append_of_not_mem hopen]
        simp
  | case4 c s hnone ih =>
      have hnot := List.findIdx?_eq_none_iff.mp hnone _ (List.getElem_mem hk)
      rw [List.drop_zero] at ih ⊢
      rw [occurrences, hnot, ih, List.countP_cons_of_neg (by simp [Token.isHole])]
      simp

variable {subs : List (Str × Str)}

theorem Placeholders.isPlaceholder (h : Placeholders subs) :
    ∀ p ∈ subs.map (·.1), IsPlaceholder p := by
  intro p hp
  obtain ⟨q, hq, rfl⟩ := List.mem_map.mp hp
  exact h.shape q hq

/-- Nothing is filled: the template. -/
theorem fillUpTo_zero (h : Placeholders subs) (template : Str) :
    fillUpTo subs 0 template = template := by
  have hall : ∀ skip s, (tokens (subs.map (·.1)) skip s).flatMap (tokenText subs 0) =
      s.drop skip := by
    intro skip s
    fun_induction tokens (subs.map (·.1)) skip s with
    | case1 skip => simp
    | case2 skip c s ih => exact ih
    | case3 c s i hi ih =>
        obtain ⟨hlt, hpre, -⟩ := List.findIdx?_eq_some_iff_getElem.mp hi
        have hlt' : i < subs.length := by simpa using hlt
        have hget : (subs.map (·.1)).getD i [] = subs[i].1 := by
          rw [List.getD_eq_getElem _ _ hlt, List.getElem_map]
        have hprefix : subs[i].1 <+: c :: s := by
          rw [List.getElem_map] at hpre
          exact List.isPrefixOf_iff_prefix.mp hpre
        obtain ⟨r, hr, -, rfl, hs⟩ := placeholder_split (h.shape _ (List.getElem_mem hlt')) hprefix
        have htext : tokenText subs 0 (.hole i) = subs[i].1 := by
          simp [tokenText, List.getElem?_eq_getElem hlt']
        rw [List.flatMap_cons, ih, hget, htext, List.drop_zero, hr, List.cons_append, ← hr, ← hs]
    | case4 c s hnone ih =>
        rw [List.flatMap_cons, ih]
        rfl
  exact hall 0 template

/-- The placeholder whose turn it is gets its value, and the other pieces stay. -/
theorem tokenText_succ {k : Nat} {p v : Str} (hk : subs[k]? = some (p, v)) (t : Token) :
    tokenText subs (k + 1) t = if t.isHole k then v else tokenText subs k t := by
  cases t with
  | lit c => rfl
  | hole i =>
      by_cases hik : i = k
      · subst hik
        simp [tokenText, hk, Token.isHole]
      · have hlt : i < k + 1 ↔ i < k := by omega
        simp [tokenText, Token.isHole, hik, hlt]

/-- **A replacement fills its placeholder**, if the text holds it nowhere else. -/
theorem replace_fillUpTo (h : Placeholders subs) {k : Nat} (hk : k < subs.length)
    {template : Str} (hnone : occurrences subs[k].1 (fillUpTo subs k template) =
      occurrences subs[k].1 template) :
    replace subs[k].1 subs[k].2 (fillUpTo subs k template) = fillUpTo subs (k + 1) template := by
  have hk? : subs[k]? = some (subs[k].1, subs[k].2) := List.getElem?_eq_getElem hk
  have hparts : fillUpTo subs k template =
      ((tokens (subs.map (·.1)) 0 template).map
        fun t => (t.isHole k, tokenText subs k t)).flatMap (·.2) := by
    rw [List.flatMap_map]
    rfl
  have hown : ∀ b ∈ (tokens (subs.map (·.1)) 0 template).map
      (fun t => (t.isHole k, tokenText subs k t)), b.1 = true → b.2 = subs[k].1 := by
    intro b hb hhole
    obtain ⟨t, -, rfl⟩ := List.mem_map.mp hb
    cases t with
    | lit c => cases hhole
    | hole i =>
        obtain rfl : i = k := by simpa [Token.isHole] using hhole
        simp [tokenText, hk?]
  have hcount : occurrences subs[k].1 template =
      ((tokens (subs.map (·.1)) 0 template).map
        fun t => (t.isHole k, tokenText subs k t)).countP (·.1) := by
    have := occurrences_eq_countP h.isPlaceholder h.nodup (by simpa using hk) 0 template
    rw [List.getElem_map, List.drop_zero] at this
    rw [this, List.countP_map]
    rfl
  have hopens := (h.shape _ (List.getElem_mem hk)).opens
  have hreplace := (replace_parts (v := subs[k].2) hopens hown).2 (by rw [← hparts, hnone, hcount])
  rw [hparts, hreplace, List.flatMap_map, fillUpTo]
  congr 1
  funext t
  exact (tokenText_succ hk? t).symm

/-- The text when the first `k` replacements have been made. -/
theorem foldl_take_eq (h : Placeholders subs) {template : Str} (hnone : NoneBrought subs template)
    {k : Nat} (hk : k ≤ subs.length) :
    (subs.take k).foldl (fun s q => replace q.1 q.2 s) template = fillUpTo subs k template := by
  induction k with
  | zero => exact (fillUpTo_zero h template).symm
  | succ k ih =>
      rw [List.take_succ_eq_append_getElem hk, List.foldl_append, ih (by omega)]
      exact replace_fillUpTo h hk (hnone k hk)

/-- **One replacement after the other is all at once**, if no value brings a placeholder that is
still to come. -/
theorem replaceAll_eq_fill (h : Placeholders subs) {template : Str}
    (hnone : NoneBrought subs template) : replaceAll subs template = fill subs template := by
  have := foldl_take_eq h hnone (le_refl subs.length)
  rwa [List.take_length] at this

end MesReunions.Str
