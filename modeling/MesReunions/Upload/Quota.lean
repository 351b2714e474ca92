import MesReunions.Upload.Steps

/-!
# The quota of a session

`api_upload` tests `upload_count` on the row it read first, and increments the count of the row
it reads after the upload to S3 without testing it again.

* `undisturbed` — an upload still finds room at its second read, and no other upload commits
  between that read and its own commit.
* **`quota_kept`** — in such a run the count is the number of files, and within the quota.
* **`quota_exceeded`** — two uploads that cross.
-/

namespace MesReunions.Upload

open TSys

universe u

variable {δ : Type u}

/-- The count of every session is that of its files, and the quota is kept. -/
def QuotaKept (w : World δ) : Prop :=
  ∀ session row, w.sessions session = some row →
    row.uploadCount = w.files.count session ∧ w.files.count session ≤ row.maxUploads

/-- The second read of an upload finds room, and its commit the count that it read. The quota
itself is not changed. -/
def undisturbed (w : World δ) : Act δ → Bool
  | .select c =>
      match w.calls c with
      | .insert req => (w.sessions req.session).all fun row => row.uploadCount < row.maxUploads
      | _ => true
  | .update c =>
      match w.calls c with
      | .commit req loaded =>
          (w.sessions req.session).all fun row => row.uploadCount == loaded.uploadCount
      | _ => true
  | .renewSession _ _ _ addUploads => addUploads == 0
  | _ => true

/-- What holds between two steps. -/
structure QuotaInv (w : World δ) : Prop where
  kept : QuotaKept w
  fresh : ∀ session, w.sessions session = none → w.files.count session = 0
  room : ∀ c req loaded, w.calls c = .commit req loaded → ∃ row,
    w.sessions req.session = some row ∧ loaded.uploadCount < row.maxUploads

theorem quotaInv_start : QuotaInv (World.start : World δ) where
  kept := fun _ _ h => by cases h
  fresh := fun _ _ => rfl
  room := fun _ _ _ h => by cases h

variable [DecidableEq δ]

/-- The quota of a session that is there does not change. -/
theorem maxUploads_of_effect {svc : Service} {w w' : World δ} {a : Act δ}
    (heff : Effect svc w a w') (hact : undisturbed w a = true) {session : Str} {row : Session δ}
    (h : w.sessions session = some row) :
    ∃ row', w'.sessions session = some row' ∧ row'.maxUploads = row.maxUploads := by
  have hchanged := row_of_effect heff session
  generalize w'.sessions session = row' at hchanged
  rw [h] at hchanged
  cases hchanged with
  | kept => exact ⟨row, rfl, rfl⟩
  | trashed _ now => exact ⟨_, rfl, rfl⟩
  | renewed _ expiresAt view addUploads =>
      have hzero : addUploads = 0 := eq_of_beq hact
      refine ⟨_, rfl, ?_⟩
      unfold Session.renewed
      rw [hzero]
      simp only [Nat.lt_irrefl, if_false]
  | registered | won | granted | stored => exact ⟨_, rfl, rfl⟩

/-- The count of a session moves with its files. -/
theorem uploadCount_of_effect {svc : Service} {w w' : World δ} {a : Act δ}
    (heff : Effect svc w a w') {session : Str} {row row' : Session δ}
    (h : w.sessions session = some row) (h' : w'.sessions session = some row') :
    row'.uploadCount = row.uploadCount ∨ ∃ c req loaded, a = .update c ∧
      w.calls c = .commit req loaded ∧ req.session = session ∧
        row'.uploadCount = loaded.uploadCount + 1 := by
  have hchanged := row_of_effect heff session
  rw [h, h'] at hchanged
  cases hchanged with
  | stored c req loaded row hc hreq => exact .inr ⟨c, req, loaded, rfl, hc, hreq, rfl⟩
  | kept | trashed | renewed | registered | won | granted => exact .inl rfl

/-- **The commit of an upload** that has read the count as it is, and found room. -/
theorem kept_of_commit {svc : Service} {w w' : World δ} {c : Nat} {req : Request δ}
    {loaded : Session δ} (h : QuotaInv w) (hact : undisturbed w (.update c) = true)
    (heff : Effect svc w (.update c) w') (hc : w.calls c = .commit req loaded)
    (hfiles : w'.files = req.session :: w.files)
    (hrows : w'.sessions req.session = (w.sessions req.session).map fun now =>
      { now with uploadCount := loaded.uploadCount + 1 }) : QuotaKept w' := by
  intro session row' hrow'
  cases hrow : w.sessions session with
  | none =>
      have hgone := row_of_effect heff session
      rw [hrow, hrow'] at hgone
      cases hgone
  | some row =>
      obtain ⟨hcount, hle⟩ := h.kept session row hrow
      obtain ⟨row'', hsame, hmax⟩ := maxUploads_of_effect heff hact hrow
      rw [hrow'] at hsame
      cases hsame
      by_cases hsession : req.session = session
      · subst hsession
        obtain ⟨row'', hthere, hroom⟩ := h.room c req loaded hc
        rw [hrow] at hthere
        cases hthere
        have hread : row.uploadCount = loaded.uploadCount := by
          simp only [undisturbed, hc, hrow, Option.all_some, beq_iff_eq] at hact
          exact hact
        rw [hrow, hrow', Option.map_some] at hrows
        have hnew : row'.uploadCount = loaded.uploadCount + 1 :=
          congrArg Session.uploadCount (Option.some.inj hrows)
        rw [hfiles, List.count_cons_self]
        omega
      · rw [hfiles, List.count_cons_of_ne hsession]
        rcases uploadCount_of_effect heff hrow hrow' with hsame | ⟨c', req', _, ha, hc', hreq, -⟩
        · omega
        · cases ha
          rw [hc] at hc'
          cases hc'
          exact absurd hreq hsession

/-- **One step.** -/
theorem quotaInv_step {svc : Service} {w w' : World δ} {a : Act δ} (h : QuotaInv w)
    (hact : undisturbed w a = true) (heff : Effect svc w a w') : QuotaInv w' where
  kept := by
    rcases file_of_effect heff with
      ⟨hfiles, hnot⟩ | ⟨c, req, loaded, rfl, hc, hfiles, hrows⟩
    · intro session row' hrow'
      rw [hfiles]
      cases hrow : w.sessions session with
      | none =>
          obtain ⟨⟨_, _, _, _, rfl⟩, -⟩ := created_of_effect heff hrow hrow'
          rw [h.fresh session hrow]
          exact ⟨rfl, Nat.zero_le _⟩
      | some row =>
          obtain ⟨hcount, hle⟩ := h.kept session row hrow
          obtain ⟨row'', hsame, hmax⟩ := maxUploads_of_effect heff hact hrow
          rw [hrow'] at hsame
          cases hsame
          rcases uploadCount_of_effect heff hrow hrow' with hsame | ⟨c, req, loaded, ha, hc, -⟩
          · omega
          · exact absurd hc (hnot c req loaded ha)
    · exact kept_of_commit h hact heff hc hfiles hrows
  fresh := by
    intro session hnone
    have hbefore : w.sessions session = none :=
      by_contra fun hthere => session_kept heff hthere hnone
    rcases file_of_effect heff with ⟨hfiles, -⟩ | ⟨c, req, loaded, ha, hc, hfiles, -⟩
    · rw [hfiles]
      exact h.fresh session hbefore
    · obtain ⟨row, hrow, -⟩ := h.room c req loaded hc
      have hne : req.session ≠ session := by
        rintro rfl
        rw [hrow] at hbefore
        cases hbefore
      rw [hfiles, List.count_cons_of_ne hne]
      exact h.fresh session hbefore
  room := by
    intro c req loaded hc
    have hthere : ∀ row, w.sessions req.session = some row →
        loaded.uploadCount < row.maxUploads → ∃ row, w'.sessions req.session = some row ∧
          loaded.uploadCount < row.maxUploads := by
      intro row hrow hroom
      obtain ⟨row', hrow', hmax⟩ := maxUploads_of_effect heff hact hrow
      exact ⟨row', hrow', by omega⟩
    rcases call_of_effect heff c with hcall | hcall | hcame
    · obtain ⟨row, hrow, hroom⟩ := h.room c req loaded (hcall ▸ hc)
      exact hthere row hrow hroom
    · rw [hcall] at hc
      cases hc
    · rw [hc] at hcame
      cases hcame with
      | inserted req row hinsert hrow =>
          refine hthere loaded hrow ?_
          simp only [undisturbed, hinsert, hrow, Option.all_some, decide_eq_true_eq] at hact
          exact hact

/-- **The quota is kept** in every state of a run whose uploads do not disturb each other. -/
theorem quota_kept {svc : Service} {acts : List (Act δ)} {w : World δ}
    (h : Guarded (step svc) (fun w a => undisturbed w a = true) World.start acts)
    (hrun : run (step svc) World.start acts = some w) : QuotaKept w :=
  (inv_of_guarded (step svc) QuotaInv
    (fun _ _ _ hinv hact hs => quotaInv_step hinv hact (effect_of_step hs))
    quotaInv_start h hrun).kept

/-- An upload of device 0 to session `q`, up to the end of its claim. -/
def claiming (c : Nat) : List (Act Nat) :=
  [.apiUpload c ['q'] none, .select c, .validate c (.ok (some 0)), .select c]

/-- What follows the claim. -/
def storing (c : Nat) : List (Act Nat) := [.put c, .select c, .update c]

/-- Two uploads to a session of one upload, one after the other. -/
def twoInTurn : List (Act Nat) :=
  .createSession ['q'] ['c'] 1 60 0 :: claiming 0 ++ [.update 0, .update 0] ++ storing 0 ++
    claiming 1 ++ [.update 1]

theorem one_upload : ∃ w, run (step .standard) World.start twoInTurn = some w ∧
    w.files = [['q']] ∧ QuotaKept w := by
  obtain ⟨w, hw⟩ : ∃ w, run (step .standard) World.start twoInTurn = some w := ⟨_, rfl⟩
  have hfiles : (run (step .standard) World.start twoInTurn).map (·.files) = some [['q']] := by
    decide
  rw [hw] at hfiles
  exact ⟨w, hw, Option.some.inj hfiles, quota_kept (by decide) hw⟩

/-- Two uploads to such a session: both have tested the count before either commits. -/
def twoAtOnce : List (Act Nat) :=
  .createSession ['q'] ['c'] 1 60 0 :: claiming 0 ++ [.update 0, .update 0] ++ claiming 1 ++
    [.update 1] ++ storing 0 ++ storing 1

/-- **The quota is exceeded.** -/
theorem quota_exceeded : ¬∀ acts w,
    run (step .standard) (World.start : World Nat) acts = some w → QuotaKept w := by
  intro h
  obtain ⟨w, hw⟩ : ∃ w, run (step .standard) World.start twoAtOnce = some w := ⟨_, rfl⟩
  have hstate : (run (step .standard) World.start twoAtOnce).map
      (fun w => (w.files, (w.sessions ['q']).map (·.maxUploads))) =
        some ([['q'], ['q']], some 1) := by decide
  rw [hw] at hstate
  obtain ⟨hfiles, hmax⟩ := Prod.mk.inj (Option.some.inj hstate)
  obtain ⟨row, hrow, hone⟩ := Option.map_eq_some_iff.mp hmax
  have hkept := (h twoAtOnce w hw ['q'] row hrow).2
  rw [hfiles, hone] at hkept
  exact absurd hkept (by decide)

end MesReunions.Upload
