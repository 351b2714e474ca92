import Mathlib.Data.List.Nodup
import Mathlib.Logic.Function.Basic
import MesReunions.Base.TSys

/-!
# One imported audio per source

`materialize_external_source` and `materialize_external_source_audio` of `puller.py`: each looks
for the user's row of the source, inserts one when there is none, and then starts a thread, the
chain of LLM steps or the Kevent pipeline. The second uploads the audio between the two. The
index on `external_video_source_id` is not unique.

* `Act.Alone` — nobody has inserted the row since the request looked for it.
* **`imported_once`** — in such a run there is one row and one pipeline per user and source.
* **`imported_twice`** — two requests that look before either inserts.
-/

namespace MesReunions.Imports

/-- A request, of either endpoint. -/
structure Import where
  userSub : String
  /-- `external_video_source_id` -/
  sourceId : Option Int
  /-- It comes with an audio file. -/
  audio : Bool
  deriving DecidableEq

/-- A row of `user_audio_files`. -/
structure Row where
  id : Nat
  userSub : String
  sourceId : Option Int
  deriving DecidableEq

/-- Where a request is. -/
inductive Phase where
  /-- It has found no row. -/
  | looked (m : Import)
  /-- The audio is in S3. -/
  | uploaded (m : Import)
  /-- The row is committed, and the thread is still to start. -/
  | committed (r : Row)
  deriving DecidableEq

structure World where
  rows : List Row
  pipelines : List Row
  requests : Nat → Option Phase

def World.start : World := ⟨[], [], fun _ => none⟩

inductive Act where
  | look (q : Nat) (m : Import)
  | upload (q : Nat) (ok : Bool)
  | insert (q : Nat) (ok : Bool)
  | launch (q : Nat)
  /-- The process dies. -/
  | lose (q : Nat)
  deriving DecidableEq

/-- `filter(user_sub == ..., external_video_source_id == ...)` -/
def Row.isFor (userSub : String) (sourceId : Int) (r : Row) : Bool :=
  r.userSub == userSub && r.sourceId == some sourceId

/-- `existing` -/
def World.existing (s : World) (m : Import) : Option Row :=
  match m.sourceId with
  | some sourceId => s.rows.find? (Row.isFor m.userSub sourceId)
  | none => none

def World.set (s : World) (q : Nat) (phase : Option Phase) : World :=
  { s with requests := Function.update s.requests q phase }

/-- The request whose row may be inserted. -/
def Phase.ready : Phase → Option Import
  | .looked m => if m.audio then none else some m
  | .uploaded m => some m
  | .committed _ => none

def step (s : World) : Act → Option World
  | .look q m =>
      match s.requests q, s.existing m with
      | none, none => some (s.set q (some (.looked m)))
      -- `reused`
      | none, some _ => some s
      | some _, _ => none
  | .upload q ok =>
      match s.requests q with
      | some (.looked m) =>
          if m.audio then some (s.set q (if ok then some (.uploaded m) else none)) else none
      | _ => none
  | .insert q ok =>
      match (s.requests q).bind Phase.ready with
      | some m =>
          if ok then
            let r : Row := ⟨s.rows.length, m.userSub, m.sourceId⟩
            some ({ s with rows := r :: s.rows }.set q (some (.committed r)))
          else some (s.set q none)
      | none => none
  | .launch q =>
      match s.requests q with
      | some (.committed r) => some ({ s with pipelines := r :: s.pipelines }.set q none)
      | _ => none
  | .lose q => some (s.set q none)

/-- When a request inserts the row of a source, nobody has inserted it since it looked. -/
def Act.Alone (s : World) : Act → Prop
  | .insert q true => ∀ m, (s.requests q).bind Phase.ready = some m → s.existing m = none
  | _ => True

/-! ## The invariant -/

structure Inv (s : World) : Prop where
  ids : ∀ r ∈ s.rows, r.id < s.rows.length
  rows : s.rows.Nodup
  one : ∀ r ∈ s.rows, ∀ r' ∈ s.rows, r.userSub = r'.userSub → r.sourceId = r'.sourceId →
    r.sourceId ≠ none → r = r'
  committed : ∀ q r, s.requests q = some (.committed r) → r ∈ s.rows ∧ r ∉ s.pipelines
  single : ∀ q q' r, s.requests q = some (.committed r) → s.requests q' = some (.committed r) →
    q = q'
  pipelines : s.pipelines.Nodup
  started : ∀ r ∈ s.pipelines, r ∈ s.rows

theorem inv_start : Inv .start where
  ids := fun _ h => (by cases h)
  rows := List.nodup_nil
  one := fun _ h => (by cases h)
  committed := fun _ _ h => (by cases h)
  single := fun _ _ _ h => (by cases h)
  pipelines := List.nodup_nil
  started := fun _ h => (by cases h)

theorem set_committed {s : World} {q q' : Nat} {p : Option Phase} {r : Row}
    (hphase : ∀ r, p ≠ some (.committed r))
    (h : (s.set q p).requests q' = some (.committed r)) :
    s.requests q' = some (.committed r) := by
  by_cases hq : q' = q
  · subst hq
    rw [World.set] at h
    dsimp only at h
    rw [Function.update_self] at h
    exact absurd h (hphase r)
  · rw [World.set] at h
    dsimp only at h
    rwa [Function.update_of_ne hq] at h

/-- A step that only moves a request on. -/
theorem Inv.set {s : World} (h : Inv s) {q : Nat} {p : Option Phase}
    (hphase : ∀ r, p ≠ some (.committed r)) : Inv (s.set q p) where
  ids := h.ids
  rows := h.rows
  one := h.one
  committed := fun q' r hr => h.committed q' r (set_committed hphase hr)
  single := fun q₁ q₂ r h₁ h₂ =>
    h.single q₁ q₂ r (set_committed hphase h₁) (set_committed hphase h₂)
  pipelines := h.pipelines
  started := h.started

/-- A row that is there is found. -/
theorem not_mem_of_existing {s : World} {m : Import} (h : s.existing m = none) {r : Row}
    (hr : r ∈ s.rows) (huser : r.userSub = m.userSub) (hsource : r.sourceId = m.sourceId) :
    r.sourceId = none := by
  rw [World.existing] at h
  cases hm : m.sourceId with
  | none => rw [hsource, hm]
  | some sourceId =>
      rw [hm] at h hsource
      have hnot := List.find?_eq_none.mp h r hr
      simp [Row.isFor, huser, hsource] at hnot

/-- **A row is inserted** where there is none. -/
theorem Inv.insert {s : World} (h : Inv s) {q : Nat} {m : Import} (hexisting : s.existing m = none) :
    Inv ({ s with rows := ⟨s.rows.length, m.userSub, m.sourceId⟩ :: s.rows }.set q
      (some (.committed ⟨s.rows.length, m.userSub, m.sourceId⟩))) := by
  have hfresh : ∀ r ∈ s.rows, r ≠ ⟨s.rows.length, m.userSub, m.sourceId⟩ := by
    rintro r hr rfl
    exact Nat.lt_irrefl _ (h.ids _ hr)
  have hold : ∀ q' r, q' ≠ q → ({ s with rows := ⟨s.rows.length, m.userSub, m.sourceId⟩ ::
      s.rows }.set q (some (.committed ⟨s.rows.length, m.userSub, m.sourceId⟩))).requests q' =
        some (.committed r) → s.requests q' = some (.committed r) := by
    intro q' r hq hr
    rw [World.set] at hr
    dsimp only at hr
    rwa [Function.update_of_ne hq] at hr
  have hnew : ∀ r, ({ s with rows := ⟨s.rows.length, m.userSub, m.sourceId⟩ ::
      s.rows }.set q (some (.committed ⟨s.rows.length, m.userSub, m.sourceId⟩))).requests q =
        some (.committed r) → r = ⟨s.rows.length, m.userSub, m.sourceId⟩ := by
    intro r hr
    rw [World.set] at hr
    dsimp only at hr
    rw [Function.update_self] at hr
    cases hr
    rfl
  constructor
  case ids =>
    intro r hr
    rcases List.mem_cons.mp hr with rfl | hr
    · exact Nat.lt_succ_self _
    · exact Nat.lt_succ_of_lt (h.ids r hr)
  case rows =>
    exact List.nodup_cons.mpr ⟨fun hmem => hfresh _ hmem rfl, h.rows⟩
  case one =>
    intro r hr r' hr' huser hsource hne
    rcases List.mem_cons.mp hr with rfl | hr <;> rcases List.mem_cons.mp hr' with rfl | hr'
    · rfl
    · exact absurd (hsource.trans (not_mem_of_existing hexisting hr' huser.symm hsource.symm)) hne
    · exact absurd (not_mem_of_existing hexisting hr huser hsource) hne
    · exact h.one r hr r' hr' huser hsource hne
  case committed =>
    intro q' r hr
    by_cases hq : q' = q
    · subst hq
      cases hnew r hr
      exact ⟨List.mem_cons_self, fun hmem => hfresh _ (h.started _ hmem) rfl⟩
    · obtain ⟨hrow, hnot⟩ := h.committed q' r (hold q' r hq hr)
      exact ⟨List.mem_cons_of_mem _ hrow, hnot⟩
  case single =>
    intro q₁ q₂ r h₁ h₂
    by_cases hq₁ : q₁ = q <;> by_cases hq₂ : q₂ = q
    · rw [hq₁, hq₂]
    · subst hq₁
      exact absurd (hnew r h₁) (hfresh r (h.committed q₂ r (hold q₂ r hq₂ h₂)).1)
    · subst hq₂
      exact absurd (hnew r h₂) (hfresh r (h.committed q₁ r (hold q₁ r hq₁ h₁)).1)
    · exact h.single q₁ q₂ r (hold q₁ r hq₁ h₁) (hold q₂ r hq₂ h₂)
  case pipelines => exact h.pipelines
  case started => exact fun r hr => List.mem_cons_of_mem _ (h.started r hr)

/-- A pipeline starts, once for the row that its request has committed. -/
theorem Inv.launch {s : World} (h : Inv s) {q : Nat} {r : Row}
    (hq : s.requests q = some (.committed r)) :
    Inv ({ s with pipelines := r :: s.pipelines }.set q none) := by
  obtain ⟨hrow, hnot⟩ := h.committed q r hq
  have hset := h.set (q := q) (p := none) (fun _ h => (by cases h))
  refine ⟨h.ids, h.rows, h.one, fun q' r' hr' => ?_, hset.single,
    List.nodup_cons.mpr ⟨hnot, h.pipelines⟩, fun r' hr' => ?_⟩
  · obtain ⟨hrow', hnot'⟩ := hset.committed q' r' hr'
    refine ⟨hrow', fun hmem => ?_⟩
    rcases List.mem_cons.mp hmem with rfl | hmem
    · have hother : s.requests q' = some (.committed r') :=
        set_committed (p := none) (fun _ h => (by cases h)) hr'
      have hsame := h.single q' q r' hother hq
      subst hsame
      rw [World.set] at hr'
      dsimp only at hr'
      rw [Function.update_self] at hr'
      cases hr'
    · exact hnot' hmem
  · rcases List.mem_cons.mp hr' with rfl | hr'
    · exact hrow
    · exact h.started r' hr'

/-- The step lemma. -/
theorem Inv.step {s s' : World} {a : Act} (h : Inv s) (halone : a.Alone s)
    (hstep : Imports.step s a = some s') : Inv s' := by
  have hnone : ∀ r, (none : Option Phase) ≠ some (.committed r) := fun _ h => (by cases h)
  cases a with
  | look q m =>
      simp only [Imports.step] at hstep
      split at hstep
      · cases hstep
        exact h.set fun _ h => (by cases h)
      · cases hstep
        exact h
      · cases hstep
  | upload q ok =>
      simp only [Imports.step] at hstep
      split at hstep
      · split at hstep
        · cases hstep
          refine h.set fun r hr => ?_
          cases ok <;> cases hr
        · cases hstep
      · cases hstep
  | insert q ok =>
      simp only [Imports.step] at hstep
      split at hstep
      · rename_i m hm
        cases ok with
        | true =>
            cases hstep
            exact h.insert (halone m hm)
        | false =>
            cases hstep
            exact h.set hnone
      · cases hstep
  | launch q =>
      simp only [Imports.step] at hstep
      split at hstep
      · rename_i r hr
        cases hstep
        exact h.launch hr
      · cases hstep
  | lose q =>
      cases hstep
      exact h.set hnone

/-! ## Runs -/

/-- A list without duplicates, of which at most one element is looked for. -/
theorem countP_le_one {rows : List Row} {p : Row → Bool} (hnodup : rows.Nodup)
    (hone : ∀ r ∈ rows, ∀ r' ∈ rows, p r = true → p r' = true → r = r') : rows.countP p ≤ 1 := by
  induction rows with
  | nil => exact Nat.zero_le _
  | cons r rows ih =>
      obtain ⟨hnot, hnodup⟩ := List.nodup_cons.mp hnodup
      have hle := ih hnodup fun r hr r' hr' =>
        hone r (List.mem_cons_of_mem _ hr) r' (List.mem_cons_of_mem _ hr')
      by_cases hp : p r = true
      · have hzero : rows.countP p = 0 := by
          rw [List.countP_eq_zero]
          intro r' hr' hp'
          exact hnot (hone r List.mem_cons_self r' (List.mem_cons_of_mem _ hr') hp hp' ▸ hr')
        exact Nat.le_of_eq (by rw [List.countP_cons_of_pos hp, hzero])
      · rwa [List.countP_cons_of_neg hp]

/-- **One row and one pipeline** per user and source. -/
theorem imported_once (as : List Act) (s : World)
    (hguarded : TSys.Guarded step (fun s a => a.Alone s) .start as)
    (hrun : TSys.run step .start as = some s) (userSub : String) (sourceId : Int) :
    s.rows.countP (Row.isFor userSub sourceId) ≤ 1 ∧
      s.pipelines.countP (Row.isFor userSub sourceId) ≤ 1 := by
  have hinv : Inv s := TSys.inv_of_guarded step Inv
    (fun _ _ _ h halone hstep => h.step halone hstep) inv_start hguarded hrun
  have hone : ∀ r ∈ s.rows, ∀ r' ∈ s.rows, r.isFor userSub sourceId = true →
      r'.isFor userSub sourceId = true → r = r' := by
    intro r hr r' hr' h h'
    simp only [Row.isFor, Bool.and_eq_true, beq_iff_eq] at h h'
    exact hinv.one r hr r' hr' (h.1.trans h'.1.symm) (h.2.trans h'.2.symm) (by simp [h.2])
  exact ⟨countP_le_one hinv.rows hone, countP_le_one hinv.pipelines fun r hr r' hr' =>
    hone r (hinv.started r hr) r' (hinv.started r' hr')⟩

/-- A replay finds the row of the first request. -/
theorem replay_reused : [(⟨0, "u", some 7⟩ : Row)].countP (Row.isFor "u" 7) ≤ 1 ∧
    [(⟨0, "u", some 7⟩ : Row)].countP (Row.isFor "u" 7) ≤ 1 := by
  have hguarded : TSys.Guarded step (fun s a => a.Alone s) .start
      [.look 0 ⟨"u", some 7, false⟩, .insert 0 true, .launch 0, .look 1 ⟨"u", some 7, true⟩] := by
    refine ⟨trivial, fun s hs => ⟨fun m hm => ?_, fun _ _ => ⟨trivial, fun _ _ =>
      ⟨trivial, fun _ _ => trivial⟩⟩⟩⟩
    cases hs
    cases hm
    rfl
  obtain ⟨s, hrun, hrows, hpipelines⟩ : ∃ s, TSys.run step .start
      [.look 0 ⟨"u", some 7, false⟩, .insert 0 true, .launch 0, .look 1 ⟨"u", some 7, true⟩] =
        some s ∧ s.rows = [⟨0, "u", some 7⟩] ∧ s.pipelines = [⟨0, "u", some 7⟩] :=
    ⟨_, rfl, rfl, rfl⟩
  have honce := imported_once _ s hguarded hrun "u" 7
  rwa [hrows, hpipelines] at honce

/-- **Two requests cross**: both find no row. -/
theorem imported_twice : ¬ ∀ (as : List Act) (s : World), TSys.run step .start as = some s →
    ∀ userSub sourceId, s.rows.countP (Row.isFor userSub sourceId) ≤ 1 ∧
      s.pipelines.countP (Row.isFor userSub sourceId) ≤ 1 := by
  intro h
  obtain ⟨s, hrun, hrows⟩ : ∃ s, TSys.run step .start
      [.look 0 ⟨"u", some 7, false⟩, .look 1 ⟨"u", some 7, false⟩, .insert 0 true,
        .insert 1 true] = some s ∧ s.rows = [⟨1, "u", some 7⟩, ⟨0, "u", some 7⟩] :=
    ⟨_, rfl, rfl⟩
  have hkept := (h _ s hrun "u" 7).1
  rw [hrows] at hkept
  exact absurd hkept (by decide)

end MesReunions.Imports
