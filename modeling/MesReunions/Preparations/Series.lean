import MesReunions.Base.Str
import Mathlib.Data.List.Sort
import Mathlib.Logic.Relation

/-!
# The series of a preparation

`get_preparation_series` of the device authority: up to the root of the series, ten parents at
most, then down, each time to the oldest child that is not in the trash.

* `ascend`, `descend` — the two loops.
* `climb` — the preparation and its ancestors.
* `Below` — under the top, at most ten times the oldest live child.
* `Listed` — what a series should be.
* **`series_iff`** — the series is that of the preparation exactly when the line of its parents
  meets itself, or the preparation is reached again from the top.
* **`second_child`** — a preparation that has an older sibling.
-/

namespace MesReunions.Preparations.Series

variable {ι : Type} [DecidableEq ι]

/-! ## The rows -/

/-- A row of `preparations`, of one user. Dates are in the format of `isoformat`. -/
structure Preparation (ι : Type) where
  id : ι
  seriesParentId : Option ι
  targetMeetingDate : Option Str
  createdAt : Nat
  createdText : Str
  trashed : Bool

/-- A row of `meetings`, of the same user. -/
structure Meeting (ι : Type) where
  id : Nat
  preparationId : Option ι
  createdAt : Nat
  trashed : Bool

structure Db (ι : Type) where
  preparations : List (Preparation ι)
  meetings : List (Meeting ι)

/-- `filter(Preparation.id == i).first()` -/
def Db.find (db : Db ι) (i : ι) : Option (Preparation ι) :=
  db.preparations.find? fun p => p.id = i

/-- The oldest child that is not in the trash. -/
def Db.oldestChild (db : Db ι) (i : ι) : Option (Preparation ι) :=
  ((db.preparations.filter fun p => p.seriesParentId = some i && !p.trashed).insertionSort
    fun p q => p.createdAt ≤ q.createdAt).head?

/-! ## The loops -/

/-- `MAX_DEPTH` -/
def maxDepth : Nat := 10

/-- The first loop, with `n` turns left: the root, or `none` when a row is not found. A row that
was visited ends the loop, and the root is the preparation that was asked for. -/
def ascend (db : Db ι) (asked : ι) : (n : Nat) → (current : ι) → (visited : List ι) → Option ι
  | 0, current, _ => some current
  | n + 1, current, visited =>
      if current ∈ visited then some asked
      else
        match db.find current with
        | none => none
        | some p =>
            match p.seriesParentId with
            | none => some p.id
            | some parent => ascend db asked n parent (current :: visited)

/-- The second loop: the chain. -/
def descend (db : Db ι) : (n : Nat) → (cursor : ι) → (seen : List ι) → List (Preparation ι)
  | 0, _, _ => []
  | n + 1, cursor, seen =>
      if cursor ∈ seen then []
      else
        match db.find cursor with
        | none => []
        | some p => p ::
            match db.oldestChild cursor with
            | none => []
            | some child => descend db n child.id (cursor :: seen)

/-- An item of the series. -/
structure Item (ι : Type) where
  id : ι
  targetMeetingDate : Option Str
  created : Str
  isCurrent : Bool
  hasMeeting : Bool
  meetingId : Option Nat
  status : String

/-- `meetings_by_prep.get(pid)`: the most recent meeting. -/
def Db.meetingOf (db : Db ι) (i : ι) : Option (Meeting ι) :=
  ((db.meetings.filter fun m => m.preparationId = some i && !m.trashed).insertionSort
    fun m n => n.createdAt ≤ m.createdAt).head?

def enrich (db : Db ι) (asked : ι) (p : Preparation ι) : Item ι where
  id := p.id
  targetMeetingDate := p.targetMeetingDate
  created := p.createdText
  isCurrent := p.id = asked
  hasMeeting := (db.meetingOf p.id).isSome
  meetingId := (db.meetingOf p.id).map (·.id)
  status := if p.trashed then "trashed" else if (db.meetingOf p.id).isSome then "done" else "pending"

/-- `_sort_key(item)`, as an order; a date that is missing, or empty, comes last. -/
def Item.before (a b : Item ι) : Bool :=
  let missing (i : Item ι) : Nat := if (i.targetMeetingDate.getD []) = [] then 1 else 0
  let date (i : Item ι) : Str := i.targetMeetingDate.getD []
  decide (missing a < missing b) || (missing a == missing b &&
    (decide (date a < date b) || (date a == date b && decide (a.created ≤ b.created))))

/-- What is answered. -/
inductive Response (ι : Type) where
  | notFound
  | series (rootId : ι) (seriesParentId : Option ι) (items : List (Item ι))

/-- `get_preparation_series(preparation_id)` -/
def getPreparationSeries (db : Db ι) (asked : ι) : Response ι :=
  match ascend db asked maxDepth asked [] with
  | none => .notFound
  | some rootId =>
      let chain := descend db (maxDepth + 1) rootId []
      .series rootId (if rootId = asked then none else some rootId)
        ((chain.map (enrich db asked)).insertionSort fun a b => a.before b = true)

/-! ## What a series should be -/

/-- One of the two is the parent of the other. -/
def Linked (db : Db ι) (a b : ι) : Prop :=
  ∃ p ∈ db.preparations, (p.id = a ∧ p.seriesParentId = some b) ∨
    (p.id = b ∧ p.seriesParentId = some a)

/-- No duplicate, the preparation once, as the current one, and nothing that is not connected. -/
def Listed (db : Db ι) (asked : ι) : Response ι → Prop
  | .notFound => True
  | .series _ _ items => (items.map Item.id).Nodup ∧
      (items.filter Item.isCurrent).map Item.id = [asked] ∧
      ∀ item ∈ items, Relation.ReflTransGen (Linked db) asked item.id

/-- `series_parent_id` -/
def Db.parentOf (db : Db ι) (i : ι) : Option ι := (db.find i).bind Preparation.seriesParentId

/-- A preparation, its parent, and so on, `n` at most. -/
def climb (db : Db ι) : (n : Nat) → ι → List ι
  | 0, _ => []
  | n + 1, i => i ::
      match db.parentOf i with
      | none => []
      | some parent => climb db n parent

/-- From `top` down to `i`, in at most `n` links, each is the oldest live child of its parent. -/
inductive Below (db : Db ι) (i : ι) : Nat → ι → Prop
  | refl (n : Nat) : Below db i n i
  | down {n : Nat} {top : ι} {child : Preparation ι} : db.oldestChild top = some child →
      Below db i n child.id → Below db i (n + 1) top

/-- A preparation that is not found on the way up (and 404 is answered), a line of parents that
meets itself, or a top that the preparation is below. -/
def Reached (db : Db ι) (asked : ι) : Prop :=
  (∃ i ∈ climb db maxDepth asked, db.find i = none) ∨
    ¬ (climb db maxDepth asked).Nodup ∨
    ∀ top, (climb db (maxDepth + 1) asked).getLast? = some top →
      (db.find top).isSome = true ∧ Below db asked maxDepth top

/-! ## The way up -/

theorem id_of_find {db : Db ι} {i : ι} {p : Preparation ι} (h : db.find i = some p) :
    p ∈ db.preparations ∧ p.id = i :=
  ⟨List.mem_of_find?_eq_some h, by simpa using List.find?_some h⟩

theorem parentOf_of_find {db : Db ι} {i : ι} {p : Preparation ι} (h : db.find i = some p) :
    db.parentOf i = p.seriesParentId := by
  rw [Db.parentOf, h]
  rfl

theorem climb_succ_none {db : Db ι} {i : ι} (h : db.parentOf i = none) (n : Nat) :
    climb db (n + 1) i = [i] := by
  rw [climb, h]

theorem climb_succ_some {db : Db ι} {i parent : ι} (h : db.parentOf i = some parent) (n : Nat) :
    climb db (n + 1) i = i :: climb db n parent := by
  rw [climb, h]

theorem climb_ne_nil (db : Db ι) (n : Nat) (i : ι) : climb db (n + 1) i ≠ [] := List.cons_ne_nil _ _

/-- **The root.** A line that meets itself ends at the preparation that was asked for, one that
leaves the table nowhere, and any other at its last row. -/
theorem ascend_eq (db : Db ι) (asked : ι) (n : Nat) (i : ι) {visited : List ι}
    (hvisited : visited.Nodup) :
    (¬ (climb db n i ++ visited).Nodup → ascend db asked n i visited = some asked) ∧
      ((climb db n i ++ visited).Nodup →
        ((∃ j ∈ climb db n i, db.find j = none) → ascend db asked n i visited = none) ∧
        ((∀ j ∈ climb db n i, db.find j ≠ none) →
          ascend db asked n i visited = (climb db (n + 1) i).getLast?)) := by
  induction n generalizing i visited with
  | zero =>
      refine ⟨fun h => absurd hvisited h, fun _ => ⟨?_, fun _ => ?_⟩⟩
      · rintro ⟨j, hj, -⟩
        cases hj
      · cases hparent : db.parentOf i with
        | none => rw [climb_succ_none hparent]; rfl
        | some parent => rw [climb_succ_some hparent]; rfl
  | succ n ih =>
      by_cases hseen : i ∈ visited
      · have hnot : ¬ (climb db (n + 1) i ++ visited).Nodup := fun h =>
          (List.nodup_append.mp h).2.2 i List.mem_cons_self i hseen rfl
        refine ⟨fun _ => ?_, fun h => absurd h hnot⟩
        rw [ascend, if_pos hseen]
      rw [ascend, if_neg hseen]
      have hone : ([i] ++ visited).Nodup := List.nodup_cons.mpr ⟨hseen, hvisited⟩
      cases hfind : db.find i with
      | none =>
          have hparent : db.parentOf i = none := by rw [Db.parentOf, hfind]; rfl
          rw [climb_succ_none hparent]
          exact ⟨fun h => absurd hone h, fun _ => ⟨fun _ => rfl, fun h =>
            absurd hfind (h i List.mem_cons_self)⟩⟩
      | some p =>
          have hparent := parentOf_of_find hfind
          cases hp : p.seriesParentId with
          | none =>
              rw [hp] at hparent
              rw [climb_succ_none hparent, climb_succ_none hparent]
              refine ⟨fun h => absurd hone h, fun _ => ⟨?_, fun _ => ?_⟩⟩
              · rintro ⟨j, hj, hnone⟩
                rw [List.mem_singleton.mp hj, hfind] at hnone
                cases hnone
              · simp [hp, (id_of_find hfind).2]
          | some parent =>
              rw [hp] at hparent
              rw [climb_succ_some hparent, climb_succ_some hparent (n + 1)]
              have hperm : (climb db n parent ++ (i :: visited)).Perm
                  (i :: (climb db n parent ++ visited)) := List.perm_middle
              have hmiddle : ((i :: climb db n parent) ++ visited).Nodup ↔
                  (climb db n parent ++ (i :: visited)).Nodup :=
                hperm.nodup_iff.symm
              obtain ⟨hloop, hline⟩ := ih parent (List.nodup_cons.mpr ⟨hseen, hvisited⟩)
              have hlast : (i :: climb db (n + 1) parent).getLast? =
                  (climb db (n + 1) parent).getLast? :=
                List.getLast?_cons_of_ne_nil (climb_ne_nil db n parent)
              rw [hmiddle, hlast]
              simp only [hp]
              refine ⟨hloop, fun hnodup => ⟨?_, fun hall => ?_⟩⟩
              · rintro ⟨j, hj, hnone⟩
                refine (hline hnodup).1 ⟨j, (List.mem_cons.mp hj).resolve_left ?_, hnone⟩
                rintro rfl
                rw [hfind] at hnone
                cases hnone
              · exact (hline hnodup).2 fun j hj => hall j (List.mem_cons_of_mem _ hj)

/-! ## The way down -/

theorem oldestChild_spec {db : Db ι} {i : ι} {child : Preparation ι}
    (h : db.oldestChild i = some child) :
    child ∈ db.preparations ∧ child.seriesParentId = some i := by
  have hmem := (List.mem_insertionSort _).mp (List.mem_of_head? h)
  obtain ⟨hmem, hchild⟩ := List.mem_filter.mp hmem
  simp only [Bool.and_eq_true, decide_eq_true_eq] at hchild
  exact ⟨hmem, hchild.1⟩

theorem find_isSome_of_mem {db : Db ι} {p : Preparation ι} (h : p ∈ db.preparations) :
    (db.find p.id).isSome = true := by
  rw [Db.find, List.find?_isSome]
  exact ⟨p, h, decide_eq_true rfl⟩

/-- What is in the chain is below its top. -/
theorem below_of_mem_descend {db : Db ι} {n : Nat} {top : ι} {seen : List ι} {p : Preparation ι}
    (h : p ∈ descend db (n + 1) top seen) : Below db p.id n top := by
  induction n generalizing top seen with
  | zero =>
      rw [descend] at h
      split at h
      · cases h
      · cases hfind : db.find top with
        | none =>
            rw [hfind] at h
            cases h
        | some q =>
            rw [hfind] at h
            rcases List.mem_cons.mp h with rfl | h
            · rw [(id_of_find hfind).2]
              exact .refl 0
            · cases hchild : db.oldestChild top with
              | none =>
                  rw [hchild] at h
                  cases h
              | some child =>
                  rw [hchild] at h
                  cases h
  | succ n ih =>
      rw [descend] at h
      split at h
      · cases h
      · cases hfind : db.find top with
        | none =>
            rw [hfind] at h
            cases h
        | some q =>
            rw [hfind] at h
            rcases List.mem_cons.mp h with rfl | h
            · rw [(id_of_find hfind).2]
              exact .refl _
            · cases hchild : db.oldestChild top with
              | none =>
                  rw [hchild] at h
                  cases h
              | some child =>
                  rw [hchild] at h
                  exact .down hchild (ih h)

/-- No row is in the chain twice. -/
theorem nodup_descend (db : Db ι) (n : Nat) (cursor : ι) (seen : List ι) :
    ((descend db n cursor seen).map Preparation.id).Nodup ∧
      ∀ p ∈ descend db n cursor seen, p.id ∉ seen := by
  induction n generalizing cursor seen with
  | zero => exact ⟨.nil, nofun⟩
  | succ n ih =>
      rw [descend]
      split
      · exact ⟨.nil, nofun⟩
      · rename_i hseen
        cases hfind : db.find cursor with
        | none => exact ⟨.nil, nofun⟩
        | some p =>
            have hid := (id_of_find hfind).2
            cases hchild : db.oldestChild cursor with
            | none =>
                refine ⟨List.nodup_singleton _, fun q hq => ?_⟩
                rw [List.mem_singleton.mp hq, hid]
                exact hseen
            | some child =>
                obtain ⟨hnodup, hnot⟩ := ih child.id (cursor :: seen)
                refine ⟨?_, fun q hq => ?_⟩
                · rw [List.map_cons, List.nodup_cons, List.mem_map]
                  refine ⟨?_, hnodup⟩
                  rintro ⟨q, hq, hqid⟩
                  exact hnot q hq (by rw [hqid, hid]; exact List.mem_cons_self)
                · rcases List.mem_cons.mp hq with rfl | hq
                  · rw [hid]
                    exact hseen
                  · exact fun hmem => hnot q hq (List.mem_cons_of_mem _ hmem)

/-- Rows that were seen lead to rows that were seen. -/
theorem Below.mem_seen {db : Db ι} {i : ι} {n : Nat} {top : ι} (h : Below db i n top)
    {seen : List ι} (hclosed : ∀ s ∈ seen, ∀ child, db.oldestChild s = some child → child.id ∈ seen)
    (htop : top ∈ seen) : i ∈ seen := by
  induction h with
  | refl n => exact htop
  | down hchild _ ih => exact ih (hclosed _ htop _ hchild)

/-- **The chain.** It has all that is below its top. -/
theorem Below.mem_descend {db : Db ι} {i : ι} {m n : Nat} {top : ι} (h : Below db i m top)
    (hmn : m < n) {seen : List ι}
    (hclosed : ∀ s ∈ seen, ∀ child, db.oldestChild s = some child →
      child.id = top ∨ child.id ∈ seen)
    (htop : (db.find top).isSome = true) :
    i ∈ seen ∨ i ∈ (descend db n top seen).map Preparation.id := by
  induction n generalizing m top seen with
  | zero => omega
  | succ n ih =>
      by_cases hseen : top ∈ seen
      · refine Or.inl (h.mem_seen (fun s hs child hchild => ?_) hseen)
        rcases hclosed s hs child hchild with hsame | hmem
        · rw [hsame]
          exact hseen
        · exact hmem
      · obtain ⟨p, hfind⟩ := Option.isSome_iff_exists.mp htop
        have hid := (id_of_find hfind).2
        rw [descend, if_neg hseen, hfind]
        dsimp only
        cases h with
        | refl m => exact Or.inr (List.mem_map.mpr ⟨p, List.mem_cons_self, hid⟩)
        | @down m _ child hchild hbelow =>
            rw [hchild]
            have hnext := @ih _ _ hbelow (by omega) (top :: seen) (fun s hs child' hchild' => ?_)
              (find_isSome_of_mem (oldestChild_spec hchild).1)
            · rcases hnext with hmem | hmem
              · rcases List.mem_cons.mp hmem with rfl | hmem
                · exact Or.inr (List.mem_map.mpr ⟨p, List.mem_cons_self, hid⟩)
                · exact Or.inl hmem
              · rw [List.map_cons]
                exact Or.inr (List.mem_cons_of_mem _ hmem)
            · rcases List.mem_cons.mp hs with rfl | hs
              · rw [hchild] at hchild'
                cases hchild'
                exact Or.inl rfl
              · rcases hclosed s hs child' hchild' with hsame | hmem
                · rw [hsame]
                  exact Or.inr List.mem_cons_self
                · exact Or.inr (List.mem_cons_of_mem _ hmem)

theorem mem_chain_iff (db : Db ι) (asked top : ι) :
    asked ∈ (descend db (maxDepth + 1) top []).map Preparation.id ↔
      (db.find top).isSome = true ∧ Below db asked maxDepth top := by
  constructor
  · intro h
    obtain ⟨p, hp, rfl⟩ := List.mem_map.mp h
    refine ⟨?_, below_of_mem_descend hp⟩
    -- Without a row at the top there is no chain.
    by_contra hnone
    rw [Bool.not_eq_true, Option.isSome_eq_false_iff, Option.isNone_iff_eq_none] at hnone
    rw [descend, if_neg List.not_mem_nil, hnone] at hp
    cases hp
  · rintro ⟨htop, hbelow⟩
    exact (hbelow.mem_descend (Nat.lt_succ_self _) (fun s hs => absurd hs List.not_mem_nil)
      htop).resolve_left List.not_mem_nil

/-! ## The series -/

theorem connected_climb (db : Db ι) {n : Nat} {i j : ι} (h : j ∈ climb db n i) :
    Relation.ReflTransGen (Linked db) i j := by
  induction n generalizing i with
  | zero => cases h
  | succ n ih =>
      cases hparent : db.parentOf i with
      | none =>
          rw [climb_succ_none hparent, List.mem_singleton] at h
          rw [h]
      | some parent =>
          rw [climb_succ_some hparent] at h
          rcases List.mem_cons.mp h with rfl | h
          · exact .refl
          · obtain ⟨p, hfind, hp⟩ := Option.bind_eq_some_iff.mp hparent
            obtain ⟨hmem, hid⟩ := id_of_find hfind
            exact .head ⟨p, hmem, Or.inl ⟨hid, hp⟩⟩ (ih h)

theorem Below.connected {db : Db ι} {i : ι} {n : Nat} {top : ι} (h : Below db i n top) :
    Relation.ReflTransGen (Linked db) top i := by
  induction h with
  | refl n => exact .refl
  | down hchild _ ih =>
      obtain ⟨hmem, hparent⟩ := oldestChild_spec hchild
      exact .head ⟨_, hmem, Or.inr ⟨rfl, hparent⟩⟩ ih

/-- A list without duplicates has the current item once, or not at all. -/
theorem current_eq {items : List (Item ι)} {asked : ι}
    (hcurrent : ∀ item ∈ items, item.isCurrent = decide (item.id = asked))
    (hnodup : (items.map Item.id).Nodup) :
    (items.filter Item.isCurrent).map Item.id = [asked] ↔ asked ∈ items.map Item.id := by
  have hfilter : (items.filter Item.isCurrent).map Item.id =
      (items.map Item.id).filter (· = asked) := by
    rw [List.filter_map, List.filter_congr hcurrent]
    rfl
  rw [hfilter, List.filter_eq]
  constructor
  · intro h
    have hcount : (items.map Item.id).count asked = 1 := by
      have hlength := congrArg List.length h
      simpa using hlength
    exact List.count_pos_iff.mp (by omega)
  · intro h
    rw [List.count_eq_one_of_mem hnodup h]
    rfl

/-- A chain below a top to which the preparation is connected. -/
theorem listed_iff_mem {db : Db ι} {asked top : ι}
    (hconnected : Relation.ReflTransGen (Linked db) asked top) (parent : Option ι) :
    Listed db asked (.series top parent
      (((descend db (maxDepth + 1) top []).map (enrich db asked)).insertionSort
        fun a b => a.before b = true)) ↔
      asked ∈ (descend db (maxDepth + 1) top []).map Preparation.id := by
  have hperm := List.perm_insertionSort (fun a b : Item ι => a.before b = true)
    ((descend db (maxDepth + 1) top []).map (enrich db asked))
  generalize ((descend db (maxDepth + 1) top []).map (enrich db asked)).insertionSort
    (fun a b => a.before b = true) = items at hperm
  have hids : (items.map Item.id).Perm
      ((descend db (maxDepth + 1) top []).map Preparation.id) := by
    have hmap := hperm.map Item.id
    rwa [List.map_map] at hmap
  have hnodup := hids.nodup_iff.mpr (nodup_descend db (maxDepth + 1) top []).1
  have hitem : ∀ item ∈ items, ∃ p ∈ descend db (maxDepth + 1) top [], enrich db asked p = item :=
    fun item hmem => List.mem_map.mp (hperm.mem_iff.mp hmem)
  have hcurrent : ∀ item ∈ items, item.isCurrent = decide (item.id = asked) := by
    intro item hmem
    obtain ⟨p, -, rfl⟩ := hitem item hmem
    rfl
  have hall : ∀ item ∈ items, Relation.ReflTransGen (Linked db) asked item.id := by
    intro item hmem
    obtain ⟨p, hp, rfl⟩ := hitem item hmem
    exact hconnected.trans (below_of_mem_descend hp).connected
  rw [Listed, current_eq hcurrent hnodup, hids.mem_iff]
  exact ⟨fun h => h.2.1, fun h => ⟨hnodup, h, hall⟩⟩

/-- **The series of a preparation.** Where a series is answered, it has no duplicate, the
preparation once and as the current one, and nothing that is not connected to it, exactly when the
preparation is below the top of its line of parents, or the line meets itself. -/
theorem series_iff (db : Db ι) (asked : ι) :
    Listed db asked (getPreparationSeries db asked) ↔ Reached db asked := by
  have happend : climb db maxDepth asked ++ [] = climb db maxDepth asked := List.append_nil _
  obtain ⟨hloop, hline⟩ := ascend_eq db asked maxDepth asked List.nodup_nil
  rw [happend] at hloop hline
  rw [getPreparationSeries]
  by_cases hnodup : (climb db maxDepth asked).Nodup
  · obtain ⟨hmissing, hfound⟩ := hline hnodup
    by_cases hnone : ∃ i ∈ climb db maxDepth asked, db.find i = none
    · rw [hmissing hnone]
      exact iff_of_true trivial (Or.inl hnone)
    · have hall : ∀ i ∈ climb db maxDepth asked, db.find i ≠ none := fun i hi h => hnone ⟨i, hi, h⟩
      rw [hfound hall]
      obtain ⟨top, htop⟩ := Option.isSome_iff_exists.mp
        (List.getLast?_isSome.mpr (climb_ne_nil db maxDepth asked))
      rw [htop]
      have hreached : Reached db asked ↔
          (db.find top).isSome = true ∧ Below db asked maxDepth top := by
        constructor
        · rintro (h | h | h)
          · exact absurd h hnone
          · exact absurd hnodup h
          · exact h top htop
        · intro h
          refine Or.inr (Or.inr fun top' htop' => ?_)
          rw [htop] at htop'
          cases htop'
          exact h
      rw [hreached, ← mem_chain_iff]
      exact listed_iff_mem (connected_climb db (List.mem_of_getLast? htop)) _
  · rw [hloop hnodup]
    refine iff_of_true ((listed_iff_mem .refl _).mpr ?_) (Or.inr (Or.inl hnodup))
    -- The line has a second row, so the first one was found.
    refine (mem_chain_iff db asked asked).mpr ⟨?_, .refl _⟩
    cases hfind : db.find asked with
    | some p => rfl
    | none =>
        have hparent : db.parentOf asked = none := by rw [Db.parentOf, hfind]; rfl
        refine absurd ?_ hnodup
        rw [show maxDepth = 9 + 1 from rfl, climb_succ_none hparent]
        exact List.nodup_singleton _

/-- A root with two children. -/
def siblings : Db Nat where
  preparations := [⟨0, none, none, 0, [], false⟩, ⟨1, some 0, none, 1, [], false⟩,
    ⟨2, some 0, none, 2, [], false⟩]
  meetings := []

/-- **An older sibling.** The series of the second child has the first one instead. -/
theorem second_child : ¬ ∀ (db : Db Nat) (asked : Nat),
    Listed db asked (getPreparationSeries db asked) := by
  intro h
  obtain ⟨-, hcurrent, -⟩ := h siblings 2
  revert hcurrent
  decide +kernel

end MesReunions.Preparations.Series
