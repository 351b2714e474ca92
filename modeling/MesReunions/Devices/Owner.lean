import MesReunions.Base.CheckThenAct
import MesReunions.Devices.Reads

/-!
# One confirmed device per QR code

`validate_device` looks for another confirmed device of the QR code and makes a pending row
active in a later statement. Two devices that look before either has committed both find none.

* `Apart` — no request looks for another device of a QR code while a request for a different
  pending row of it stands between its look and its commit.
* **`one_confirmed`** — in every state of such a run a QR code has at most one row that is
  active with `confirmed_at` set.
* **`two_confirmed`** — two pending devices whose first heartbeats cross.
-/

namespace MesReunions.Devices

open TSys CheckThenAct

/-- At most one confirmed row a QR code. -/
def OneConfirmed (w : World) : Prop :=
  ∀ qrToken, w.devices.countP (fun d => d.qrToken == qrToken && d.confirmed) ≤ 1

/-- Looks for another confirmed device of a QR code do not overlap. -/
def Apart (w : World) : Act → Prop
  | .query c _ => ∀ tok rec now, w.calls c = .validateOther tok rec now →
      ∀ c' tok' rec' now', w.calls c' = .validateCommit tok' rec' now' →
        rec'.status = .pending → rec'.qrToken = rec.qrToken → rec'.id = rec.id
  | _ => True

/-- The row `id` is a confirmed one of the QR code. -/
def Confirmed (w : World) (qrToken : Str) (id : Nat) : Prop :=
  ∃ d ∈ w.devices, d.qrToken = qrToken ∧ d.confirmed = true ∧ d.id = id

/-- The row `id`, loaded as pending, is about to be made active. -/
def Promoting (w : World) (qrToken : Str) (id : Nat) : Prop :=
  ∃ c tok rec now, w.calls c = .validateCommit tok rec now ∧ rec.status = .pending ∧
    rec.qrToken = qrToken ∧ rec.id = id

/-! ## Where a confirmed row comes from -/

theorem confirmed_congr {d d' : Device} (hstatus : d'.status = d.status)
    (hat : d'.confirmedAt = d.confirmedAt) : d'.confirmed = d.confirmed := by
  unfold Device.confirmed
  rw [hstatus, hat]

theorem status_of_confirmed {d : Device} (h : d.confirmed = true) : d.status = .active :=
  eq_of_beq (Bool.and_eq_true_iff.mp h).1

/-- A row that a step leaves confirmed was confirmed, or it was validated. -/
theorem confirmed_of_written {cfg : Config} {w : World} {a : Act} {d d' : Device}
    (h : Written cfg w a d d') (hconf : d'.confirmed = true) :
    d.confirmed = true ∨ ∃ c tok rec now, a = .commit c ∧
      w.calls c = .validateCommit tok rec now ∧ rec.status = .pending ∧ d.id = rec.id := by
  cases h with
  | kept => exact .inl hconf
  | reenrolled c req now rec reason ha hc hid => exact .inl hconf
  | validated c tok rec now ha hc hid =>
      rcases validated_status now rec d with ⟨hstatus, hat⟩ | ⟨hpending, -⟩
      · rw [confirmed_congr hstatus hat] at hconf
        exact .inl hconf
      · exact .inr ⟨c, tok, rec, now, ha, hc, hpending, hid⟩
  | revoked rec =>
      rcases revokedAs_status rec d with hstatus | hstatus
      · rw [confirmed_congr hstatus rfl] at hconf
        exact .inl hconf
      · rw [status_of_confirmed hconf] at hstatus
        cases hstatus
  | revokedIfActive =>
      rcases revokedIfActive_status d with ⟨hsame, -⟩ | ⟨-, hstatus⟩
      · rw [hsame] at hconf
        exact .inl hconf
      · rw [status_of_confirmed hconf] at hstatus
        cases hstatus
  | renewed now =>
      rw [confirmed_congr (renewed_status cfg now d) (renewed_confirmedAt cfg now d)] at hconf
      exact .inl hconf

theorem confirmed_of_effect {cfg : Config} {f : Nat → Origin} {w w' : World} {a : Act}
    (hborn : Born f w) (heff : Effect cfg w a w') {qrToken : Str} {id : Nat}
    (h : Confirmed w' qrToken id) :
    Confirmed w qrToken id ∨ ∃ c tok rec now, a = .commit c ∧
      w.calls c = .validateCommit tok rec now ∧ rec.status = .pending ∧
        rec.qrToken = qrToken ∧ rec.id = id := by
  obtain ⟨d', hd', rfl, hconf, rfl⟩ := h
  rcases device_of_effect heff hd' with ⟨d, hd, hw⟩ | ⟨c, req, now, code, -, -, rfl⟩
  · have hqr : d'.qrToken = d.qrToken := congrArg Origin.qrToken hw.origin
    rcases confirmed_of_written hw hconf with hconf | ⟨c, tok, rec, now, ha, hc, hpending, hid⟩
    · exact .inl ⟨d, hd, hqr.symm, hconf, hw.id.symm⟩
    · -- the row and what was loaded of it have one origin
      have horigin : rec.origin = d.origin := by
        rw [← (hborn.loaded c rec (by rw [hc]; rfl)).2, ← hid]
        exact (hborn.device d hd).2
      exact .inr ⟨c, tok, rec, now, ha, hc, hpending,
        (congrArg Origin.qrToken horigin).trans hqr.symm, (hw.id.trans hid).symm⟩
  · cases status_of_confirmed hconf

theorem promoting_of_effect {cfg : Config} {w w' : World} {a : Act} (heff : Effect cfg w a w')
    {qrToken : Str} {id : Nat} (h : Promoting w' qrToken id) :
    Promoting w qrToken id ∨ ∃ c pick tok rec now, a = .query c pick ∧
      w.calls c = .validateOther tok rec now ∧
        (∀ d ∈ w.devices, d.qrToken = Str.strip tok.qrToken → d.confirmed = true →
          d.id = rec.id) ∧ rec.qrToken = qrToken ∧ rec.id = id := by
  obtain ⟨c, tok, rec, now, hc, hpending, hqr, hid⟩ := h
  rcases call_of_effect heff c with hcall | hcall | hcame
  · exact .inl ⟨c, tok, rec, now, hcall ▸ hc, hpending, hqr, hid⟩
  · rw [hcall] at hc
    cases hc
  · rw [hc] at hcame
    cases hcame with
    | asked req p hp => cases (begin_phase hp).2.1
    | read pick p hp =>
        have hreads := reads_of_query hp
        generalize hphase : w.calls c = phase at hreads
        cases hreads with
        | validateActive tok rec now hstatus => exact absurd hpending hstatus
        | validateOther tok rec now hnone =>
            exact .inr ⟨c, pick, tok, rec, now, rfl, hphase, hnone, hqr, hid⟩
        | otherKey req now code p hnone hnext => rcases hnext with h | h <;> cases h
        | owned p p' rec hrec hnext => rcases hnext with h | h <;> cases h
        | code p p' code hnext => rcases hnext with ⟨_, _, h⟩ | h <;> cases h

/-! ## The invariant -/

/-- Looks and confirmed rows, in a run whose looks do not overlap. -/
structure OwnerInv (w : World) : Prop where
  born : ∃ f, Born f w
  exclusive : Exclusive Eq (Confirmed w) (Promoting w)

theorem ownerInv_start : OwnerInv World.start where
  born := ⟨fun _ => ⟨[], []⟩, born_start _⟩
  exclusive :=
    { one := fun ⟨_, hd, _⟩ => absurd hd List.not_mem_nil
      alone := fun ⟨_, _, _, _, hc, _⟩ => by cases hc
      free := fun ⟨_, _, _, _, hc, _⟩ => by cases hc }

theorem ownerInv_step {cfg : Config} {w w' : World} {a : Act} (h : OwnerInv w)
    (hact : Apart w a) (heff : Effect cfg w a w') : OwnerInv w' := by
  obtain ⟨f, hborn⟩ := h.born
  obtain ⟨f', hborn', -, -⟩ := born_step hborn heff
  refine ⟨⟨f', hborn'⟩, ?_⟩
  by_cases hcommit : ∃ c tok rec now, a = .commit c ∧
      w.calls c = .validateCommit tok rec now ∧ rec.status = .pending
  · -- a pending row becomes active
    obtain ⟨c, tok, rec, now, rfl, hc, hpending⟩ := hcommit
    refine h.exclusive.act ⟨c, tok, rec, now, hc, hpending, rfl, rfl⟩
      (fun o' _ hmine => hmine.symm) (fun q i hi => ?_) (fun q i hi => ?_) fun _ => rfl
    · rcases confirmed_of_effect hborn heff hi with hi | ⟨c', tok', rec', now', ha, hc', -, hq, hi⟩
      · exact .inl hi
      · cases ha
        rw [hc] at hc'
        cases hc'
        exact .inr ⟨hq.symm, hi.symm⟩
    · rcases promoting_of_effect heff hi with hi | ⟨c', pick, tok', rec', now', ha, -⟩
      · exact hi
      · cases ha
  · have hquiet : ∀ q i, Confirmed w' q i → Confirmed w q i := by
      intro q i hi
      rcases confirmed_of_effect hborn heff hi with hi | ⟨c, tok, rec, now, ha, hc, hpending, -⟩
      · exact hi
      · exact absurd ⟨c, tok, rec, now, ha, hc, hpending⟩ hcommit
    by_cases hlook : ∃ c pick tok rec now, a = .query c pick ∧
        w.calls c = .validateOther tok rec now ∧
          ∀ d ∈ w.devices, d.qrToken = Str.strip tok.qrToken → d.confirmed = true →
            d.id = rec.id
    · -- a look that finds no other device
      obtain ⟨c, pick, tok, rec, now, rfl, hc, hnone⟩ := hlook
      have hsound := hborn.sound c
      rw [hc] at hsound
      refine h.exclusive.check (k := rec.qrToken) (a := rec.id) ?_ ?_ hquiet fun q i hi => ?_
      · rintro i ⟨d, hd, hqr, hconf, rfl⟩
        exact (hnone d hd (hqr.trans hsound.2.1) hconf).symm
      · rintro i ⟨c', tok', rec', now', hc', hpending, hqr, rfl⟩
        exact hact tok rec now hc c' tok' rec' now' hc' hpending hqr
      · rcases promoting_of_effect heff hi with hi | ⟨c', pick', tok', rec', now', ha, hc', -, hq, hi⟩
        · exact .inl hi
        · cases ha
          rw [hc] at hc'
          cases hc'
          exact .inr ⟨hq.symm, hi.symm⟩
    · refine h.exclusive.quiet hquiet fun q i hi => ?_
      rcases promoting_of_effect heff hi with hi | ⟨c, pick, tok, rec, now, ha, hc, hnone, -⟩
      · exact hi
      · exact absurd ⟨c, pick, tok, rec, now, ha, hc, hnone⟩ hlook

/-- Rows with one id are one row, so the count is at most one. -/
theorem OwnerInv.oneConfirmed {w : World} (h : OwnerInv w) : OneConfirmed w := by
  obtain ⟨f, hborn⟩ := h.born
  intro qrToken
  refine hborn.countP_le_one fun d hd hp d' hd' hp' => ?_
  obtain ⟨hqr, hconf⟩ := Bool.and_eq_true_iff.mp hp
  obtain ⟨hqr', hconf'⟩ := Bool.and_eq_true_iff.mp hp'
  exact h.exclusive.one ⟨d, hd, eq_of_beq hqr, hconf, rfl⟩ ⟨d', hd', eq_of_beq hqr', hconf', rfl⟩

/-- **One confirmed device per QR code**, in every state of a run whose looks do not overlap. -/
theorem one_confirmed {cfg : Config} {acts : List Act} {w : World}
    (h : Guarded (step cfg) Apart World.start acts)
    (hrun : run (step cfg) World.start acts = some w) : OneConfirmed w :=
  (inv_of_guarded (step cfg) OwnerInv
    (fun _ _ _ hinv hact hs => ownerInv_step hinv hact (effect_of_step hs))
    ownerInv_start h hrun).oneConfirmed

/-- A request that is alone looks at no one's back. -/
theorem apart_of_solo {c : Nat} {w : World} {a : Act} (hw : Solo c w)
    (ha : a.caller = none ∨ a.caller = some c) : Apart w a := by
  cases a with
  | query c₁ pick =>
      have hc₁ : c₁ = c := ha.elim (fun h => by cases h) Option.some.inj
      subst hc₁
      intro tok rec now hc c' tok' rec' now' hc' _ _
      by_cases hne : c' = c₁
      · rw [hne, hc] at hc'
        cases hc'
      · rw [hw c' hne] at hc'
        cases hc'
  | wait | issueToken | purgeToken | listDevices | request | commit | fail => trivial

/-- A device enrols and has its first heartbeat. -/
def oneConfirmed : List Act := oneEnrolled ++ checking 0 (tokenOf 0) ++ [.commit 0]

theorem one_confirmed_device : ∃ w, run (step .standard) World.start oneConfirmed = some w ∧
    w.devices.countP (·.confirmed) = 1 ∧ OneConfirmed w := by
  obtain ⟨w, hw⟩ : ∃ w, run (step .standard) World.start oneConfirmed = some w := ⟨_, rfl⟩
  have hcount : (run (step .standard) World.start oneConfirmed).map
      (fun w => w.devices.countP (·.confirmed)) = some 1 := by decide
  rw [hw] at hcount
  have hsolo : ∀ a ∈ oneConfirmed, a.caller = none ∨ a.caller = some 0 := by decide
  refine ⟨w, hw, Option.some.inj hcount, one_confirmed ?_ hw⟩
  exact guarded_of_solo (fun _ _ => apart_of_solo) (fun _ _ => rfl) hsolo

/-- Two devices enrol, and both look before either is confirmed. -/
def crossing : List Act :=
  oneEnrolled ++ enrolling 1 ['q'] ['b'] ++ checking 0 (tokenOf 0) ++ checking 1 (tokenOf 1) ++
    [.commit 0, .commit 1]

/-- **Two confirmed devices.** -/
theorem two_confirmed : ¬∀ acts w, run (step .standard) World.start acts = some w →
    OneConfirmed w := by
  intro h
  have hone := h crossing _ rfl ['q']
  exact absurd hone (by decide)

end MesReunions.Devices
