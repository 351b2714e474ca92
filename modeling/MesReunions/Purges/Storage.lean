import MesReunions.Base.Str

/-!
# Best-effort deletions

An object store that is asked to delete objects, one after the other, and the callers' habit of
going on whatever it answers.

* **`accounted_deleteAll`** — an object is there afterwards when it was there before and every
  request for it was refused.
-/

namespace MesReunions.Purges

variable {Object : Type} [DecidableEq Object]

/-- The answer to a request: deleted (or there was nothing), refused, or deleted with the answer
lost. The caller sees an exception in the last two cases. -/
inductive Reply where
  | deleted
  | refused
  | lost
  deriving DecidableEq

/-- What is stored, and the requests so far, the last one first. -/
structure Storage (Object : Type) where
  objects : Object → Bool
  asked : List (Object × Reply)

/-- `delete_object(cfg, key)`: the `n`-th request gets the `n`-th answer. -/
def deleteObject (reply : Nat → Reply) (s : Storage Object) (o : Object) : Storage Object :=
  let r := reply s.asked.length
  { objects := if r = .refused then s.objects else Function.update s.objects o false
    asked := (o, r) :: s.asked }

/-- A loop of requests, each in a `try` of its own. -/
def deleteAll (reply : Nat → Reply) (objs : List Object) (s : Storage Object) : Storage Object :=
  objs.foldl (deleteObject reply) s

/-- From `s` to `s'` these requests were made, and they alone changed what is stored. -/
structure Accounted (s s' : Storage Object) (requests : List (Object × Reply)) : Prop where
  asked : s'.asked = requests ++ s.asked
  objects : ∀ o, s'.objects o = true ↔
    s.objects o = true ∧ ∀ r, (o, r) ∈ requests → r = .refused

omit [DecidableEq Object] in
theorem Accounted.refl (s : Storage Object) : Accounted s s [] := ⟨rfl, by simp⟩

omit [DecidableEq Object] in
theorem Accounted.trans {s s' s'' : Storage Object} {rs rs' : List (Object × Reply)}
    (h : Accounted s s' rs) (h' : Accounted s' s'' rs') : Accounted s s'' (rs' ++ rs) where
  asked := by rw [h'.asked, h.asked, List.append_assoc]
  objects o := by
    rw [h'.objects, h.objects, and_assoc]
    refine and_congr_right fun _ => ⟨?_, ?_⟩
    · rintro ⟨hold, hnew⟩ r hr
      rcases List.mem_append.mp hr with hr | hr
      · exact hnew r hr
      · exact hold r hr
    · exact fun hall => ⟨fun r hr => hall r (List.mem_append_right _ hr),
        fun r hr => hall r (List.mem_append_left _ hr)⟩

theorem accounted_deleteObject (reply : Nat → Reply) (s : Storage Object) (o : Object) :
    Accounted s (deleteObject reply s o) [(o, reply s.asked.length)] where
  asked := rfl
  objects p := by
    simp only [deleteObject, List.mem_singleton, Prod.mk.injEq]
    by_cases hr : reply s.asked.length = .refused
    · simp [hr]
    · rw [if_neg hr, Function.update_apply]
      by_cases hp : p = o
      · subst hp
        simp [hr]
      · simp [hp]

/-- **Every object is asked for once, in order.** -/
theorem accounted_deleteAll (reply : Nat → Reply) (objs : List Object) (s : Storage Object) :
    ∃ requests, Accounted s (deleteAll reply objs s) requests ∧
      ∀ o ∈ objs, ∃ r, (o, r) ∈ requests := by
  induction objs generalizing s with
  | nil => exact ⟨[], Accounted.refl s, by simp⟩
  | cons o objs ih =>
      obtain ⟨requests, hall, hmem⟩ := ih (deleteObject reply s o)
      refine ⟨_, (accounted_deleteObject reply s o).trans hall, fun p hp => ?_⟩
      rcases List.mem_cons.mp hp with rfl | hp
      · exact ⟨_, List.mem_append_right _ List.mem_cons_self⟩
      · obtain ⟨r, hr⟩ := hmem p hp
        exact ⟨r, List.mem_append_left _ hr⟩

/-- The same for the rows of a table, each with its objects. -/
theorem accounted_rows {Row : Type} (reply : Nat → Reply) (objectsOf : Row → List Object)
    (rows : List Row) (s : Storage Object) :
    ∃ requests, Accounted s
        (rows.foldl (fun s row => deleteAll reply (objectsOf row) s) s) requests ∧
      ∀ row ∈ rows, ∀ o ∈ objectsOf row, ∃ r, (o, r) ∈ requests := by
  have hflat : rows.foldl (fun s row => deleteAll reply (objectsOf row) s) s =
      deleteAll reply (rows.flatMap objectsOf) s := by
    rw [deleteAll, List.foldl_flatMap]
    rfl
  obtain ⟨requests, hall, hmem⟩ := accounted_deleteAll reply (rows.flatMap objectsOf) s
  rw [hflat]
  exact ⟨requests, hall, fun row hrow o ho => hmem o (List.mem_flatMap.mpr ⟨row, hrow, ho⟩)⟩

end MesReunions.Purges
