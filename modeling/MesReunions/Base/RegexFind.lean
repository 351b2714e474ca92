import MesReunions.Base.FindAll
import MesReunions.Base.Regex

/-!
# The matches of a pattern in a text

`re.findall` and `re.fullmatch`, for a pattern without groups.

* `findMatches`, `fullMatches` — the two functions.
* `Over` — patterns that read characters of one class only.
* **`mem_findMatches`** — so are their matches.
-/

namespace MesReunions.Regex

variable {γ : Type}

/-- The first way to read a pattern at a place: the text that is read, and its length. -/
def readAt (r : Regex Char γ) (prev : Option Char) (s : Str) : Option (Str × Nat) :=
  (run r ⟨prev, s, []⟩).head?.map fun t =>
    (s.take (s.length - t.rest.length), s.length - t.rest.length)

/-- `r.findall(s)` -/
def findMatches (r : Regex Char γ) (s : Str) : List Str := Str.findAll (readAt r) none 0 s

/-- `r.fullmatch(s)` -/
def fullMatches (r : Regex Char γ) (s : Str) : Bool :=
  (run r ⟨none, s, []⟩).any fun t => t.rest.isEmpty

/-! ## What is read -/

/-- Every character that the pattern reads is of the class. -/
def Over (q : Char → Bool) : Regex Char γ → Prop
  | empty | notBehind _ | notAhead _ => True
  | char p | plus p => ∀ c, p c = true → q c = true
  | seq r t | alt r t => Over q r ∧ Over q t
  | opt r | group _ r => Over q r

theorem exists_plusFrom {q p : Char → Bool} (hp : ∀ c, p c = true → q c = true)
    {groups : List (γ × Str)} {s : Str} {t : Pos Char γ} (ht : t ∈ plusFrom p groups s) :
    ∃ u, s = u ++ t.rest ∧ ∀ c ∈ u, q c = true := by
  induction s with
  | nil => exact absurd ht List.not_mem_nil
  | cons c s ih =>
      rw [plusFrom] at ht
      split at ht
      · rename_i hc
        rcases List.mem_append.mp ht with ht | ht
        · obtain ⟨u, hs, hu⟩ := ih ht
          exact ⟨c :: u, by rw [hs, List.cons_append], List.forall_mem_cons.mpr ⟨hp c hc, hu⟩⟩
        · rw [List.mem_singleton.mp ht]
          exact ⟨[c], rfl, List.forall_mem_singleton.mpr (hp c hc)⟩
      · exact absurd ht List.not_mem_nil

/-- **What is read** is of the class. The induction is on the pattern. -/
theorem exists_read {q : Char → Bool} {r : Regex Char γ} (h : Over q r) {s t : Pos Char γ}
    (ht : t ∈ run r s) : ∃ u, s.rest = u ++ t.rest ∧ ∀ c ∈ u, q c = true := by
  induction r generalizing s t with
  | empty =>
      rw [List.mem_singleton.mp ht]
      exact ⟨[], rfl, nofun⟩
  | char p =>
      rw [run] at ht
      split at ht
      · exact absurd ht List.not_mem_nil
      · rename_i c rest hrest
        split at ht
        · rename_i hc
          rw [List.mem_singleton.mp ht]
          exact ⟨[c], hrest, List.forall_mem_singleton.mpr (h c hc)⟩
        · exact absurd ht List.not_mem_nil
  | seq r r' ihr ihr' =>
      obtain ⟨m, hm, ht⟩ := List.mem_flatMap.mp ht
      obtain ⟨u, hu, hqu⟩ := ihr h.1 hm
      obtain ⟨v, hv, hqv⟩ := ihr' h.2 ht
      exact ⟨u ++ v, by rw [hu, hv, List.append_assoc], List.forall_mem_append.mpr ⟨hqu, hqv⟩⟩
  | alt r r' ihr ihr' =>
      rcases List.mem_append.mp ht with ht | ht
      · exact ihr h.1 ht
      · exact ihr' h.2 ht
  | opt r ih =>
      rcases List.mem_append.mp ht with ht | ht
      · exact ih h ht
      · rw [List.mem_singleton.mp ht]
        exact ⟨[], rfl, nofun⟩
  | plus p => exact exists_plusFrom h ht
  | group g r ih =>
      obtain ⟨m, hm, rfl⟩ := List.mem_map.mp ht
      obtain ⟨u, hu, hq⟩ := ih (t := m) h hm
      exact ⟨u, hu, hq⟩
  | notBehind p =>
      rw [run] at ht
      split at ht
      · exact absurd ht List.not_mem_nil
      · rw [List.mem_singleton.mp ht]
        exact ⟨[], rfl, nofun⟩
  | notAhead p =>
      rw [run] at ht
      split at ht
      · exact absurd ht List.not_mem_nil
      · rw [List.mem_singleton.mp ht]
        exact ⟨[], rfl, nofun⟩

/-- **The matches** of such a pattern are of the class. -/
theorem mem_findMatches {q : Char → Bool} {r : Regex Char γ} (h : Over q r) {s x : Str}
    (hx : x ∈ findMatches r s) : ∀ c ∈ x, q c = true := by
  obtain ⟨prev, s', n, hread⟩ := Str.exists_of_mem_findAll hx
  obtain ⟨t, ht, hpair⟩ := Option.map_eq_some_iff.mp hread
  obtain ⟨u, hu, hq⟩ := exists_read h (List.mem_of_mem_head? ht)
  have hrest : s' = u ++ t.rest := hu
  have hlength : s'.length - t.rest.length = u.length := by
    rw [hrest, List.length_append]
    omega
  have hxu : x = u := by
    rw [← (Prod.mk.inj hpair).1, hlength, hrest, List.take_left]
  rw [hxu]
  exact hq

end MesReunions.Regex
