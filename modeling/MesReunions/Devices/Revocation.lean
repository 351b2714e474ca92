import MesReunions.Devices.Reads

/-!
# Revocation of all devices

`revoke_all_devices` and `admin_revoke_all_devices` revoke the rows that are active. A row
that is pending at that time is left, and its first heartbeat makes it active.

* `Settled` — at the `UPDATE` no row in question is pending, and no `validate_device` stands
  between its read of such a row and its commit.
* **`revoked_for_good`** — after a settled revocation no token signed before it is accepted
  again, in any run.
* `Dead` — the invariant of that run: a revoked row that no request has read in time.
* **`pending_comes_back`** — a pending device outlives the revocation.
-/

namespace MesReunions.Devices

open TSys

/-- The row that a validation has read. -/
def Phase.checked : Phase → Option Device
  | .validateCode _ rec _ => some rec
  | .validateOther _ rec _ => some rec
  | .validateCommit _ rec _ => some rec
  | _ => none

/-- No row of these users is pending, and no validation has read one. -/
structure Settled (userSub : Option Str) (w : World) : Prop where
  confirmed : ∀ d ∈ w.devices, covers userSub d = true → d.status ≠ .pending
  unread : ∀ c rec, (w.calls c).checked = some rec → covers userSub rec = false

/-- `tok` is not accepted on the way from `w` to `w'`. -/
def Refused (tok : DeviceToken) (w w' : World) : Prop :=
  ∃ new, w'.log = new ++ w.log ∧ ∀ e ∈ new, ¬e.2.accepts tok

/-- The revocation that request `c` is about to commit is complete: the tokens signed before
it for the devices of these users are refused in every run after it. -/
def Complete (cfg : Config) (c : Nat) (userSub : Option Str) (w : World) : Prop :=
  ∀ w₁ acts w₂, step cfg w (.commit c) = some w₁ → run (step cfg) w₁ acts = some w₂ →
    ∀ tok ∈ w.signed, userSub.all (· == tok.userSub) = true → Refused tok w₁ w₂

/-! ## No way back -/

/-- The device `id` is revoked or gone, and no validation has read it before. -/
structure Dead (id : Nat) (w : World) : Prop where
  old : id < w.next
  row : ∀ d ∈ w.devices, d.id = id → d.status = .revoked
  unread : ∀ c rec, (w.calls c).checked = some rec → rec.id ≠ id

theorem loaded_of_checked {p : Phase} {rec : Device} (h : p.checked = some rec) :
    p.loaded = some rec := by
  cases p <;> first | exact h | cases h

/-- A validation reads a row that is not revoked. -/
theorem checked_of_reads {w : World} {p p' : Phase} (h : Reads w p p') {rec : Device}
    (hrec' : p'.checked = some rec) :
    p.checked = some rec ∨ rec ∈ w.devices ∧ rec.status ≠ .revoked := by
  cases h with
  | validateDevice tok rec hrec hid hqr hstatus => cases hrec'; exact .inr ⟨hrec, hstatus⟩
  | validatePending tok rec now hstatus => exact .inl hrec'
  | validateActive tok rec now hstatus => exact .inl hrec'
  | validateOther tok rec now hnone => exact .inl hrec'
  | otherKey req now code p hnone hnext => rcases hnext with rfl | rfl <;> cases hrec'
  | owned p p' rec hrec hnext => rcases hnext with rfl | rfl <;> cases hrec'
  | code p p' code hnext => rcases hnext with ⟨_, _, rfl⟩ | rfl <;> cases hrec'
  | enrollCode | sameKey | fused | unfused | rebound | unbound | unowned => cases hrec'

/-- A revoked row stays revoked, unless a validation that read it before commits. -/
theorem revoked_of_written {cfg : Config} {w : World} {a : Act} {d d' : Device}
    (h : Written cfg w a d d') (hd : d.status = .revoked) :
    d'.status = .revoked ∨ ∃ c rec, (w.calls c).checked = some rec ∧ rec.id = d.id := by
  cases h with
  | kept => exact .inl hd
  | reenrolled c req now rec reason ha hc hid => exact .inl hd
  | validated c tok rec now ha hc hid => exact .inr ⟨c, rec, by rw [hc]; rfl, hid.symm⟩
  | revoked rec =>
      rcases revokedAs_status rec d with hstatus | hstatus
      · exact .inl (hstatus.trans hd)
      · exact .inl hstatus
  | revokedIfActive =>
      rcases revokedIfActive_status d with ⟨hsame, -⟩ | ⟨-, hstatus⟩
      · rw [hsame]
        exact .inl hd
      · exact .inl hstatus
  | renewed now => exact .inl ((renewed_status cfg now d).trans hd)

theorem dead_step {cfg : Config} {w w' : World} {a : Act} {id : Nat} (h : Dead id w)
    (hnext : w.next ≤ w'.next) (heff : Effect cfg w a w') : Dead id w' where
  old := Nat.lt_of_lt_of_le h.old hnext
  row := by
    intro d' hd' hid
    rcases device_of_effect heff hd' with ⟨d, hd, hw⟩ | ⟨c, req, now, code, -, -, rfl⟩
    · have hdid : d.id = id := hw.id.symm.trans hid
      rcases revoked_of_written hw (h.row d hd hdid) with hstatus | ⟨c, rec, hrec, hrecid⟩
      · exact hstatus
      · exact absurd (hrecid.trans hdid) (h.unread c rec hrec)
    · -- a new row has a new id
      exact absurd hid (Nat.ne_of_gt h.old)
  unread := by
    intro c rec hrec
    rcases call_of_effect heff c with hcall | hcall | hcame
    · exact h.unread c rec (hcall ▸ hrec)
    · rw [hcall] at hrec
      cases hrec
    · generalize w'.calls c = p at hcame hrec
      cases hcame with
      | asked req p hp =>
          have hnone := (begin_phase hp).2.1
          rw [loaded_of_checked hrec] at hnone
          cases hnone
      | read pick p hp =>
          rcases checked_of_reads (reads_of_query hp) hrec with hold | ⟨hmem, hstatus⟩
          · exact h.unread c rec hold
          · exact fun hid => hstatus (h.row rec hmem hid)
      | purged a req hc => cases hrec

/-- A dead device has no token accepted by a step. -/
theorem Dead.refused {cfg : Config} {f : Nat → Origin} {w w' : World} {a : Act} {id : Nat}
    (h : Dead id w) (hborn : Born f w) (heff : Effect cfg w a w') {tok : DeviceToken}
    (htok : tok.deviceId = id) : Refused tok w w' := by
  obtain ⟨new, hlog, hnew⟩ := log_of_effect heff
  refine ⟨new, hlog, fun e he hacc => ?_⟩
  obtain ⟨rec, now, d, hc, -⟩ := hnew e he tok hacc
  have hsound := hborn.sound e.1
  rw [hc] at hsound
  exact h.unread e.1 rec (by rw [hc]; rfl) (hsound.1.trans htok)

theorem Refused.trans {tok : DeviceToken} {w w₁ w₂ : World} (h : Refused tok w w₁)
    (h' : Refused tok w₁ w₂) : Refused tok w w₂ := by
  obtain ⟨new, hlog, hnew⟩ := h
  obtain ⟨new', hlog', hnew'⟩ := h'
  refine ⟨new' ++ new, by rw [hlog', hlog, List.append_assoc], fun e he => ?_⟩
  exact (List.mem_append.mp he).elim (hnew' e) (hnew e)

/-- **No resurrection.** -/
theorem refused_of_dead {cfg : Config} {f : Nat → Origin} {w w' : World} {acts : List Act}
    {tok : DeviceToken} (h : Dead tok.deviceId w) (hborn : Born f w)
    (hrun : run (step cfg) w acts = some w') : Refused tok w w' := by
  refine (inv_of_guarded (step cfg)
    (fun w' => Dead tok.deviceId w' ∧ (∃ f, Born f w') ∧ Refused tok w w')
    (fun w₁ a w₂ hinv _ hs => ?_) ⟨h, ⟨f, hborn⟩, [], rfl, fun e he => absurd he List.not_mem_nil⟩
    (guarded_of_forall _ fun (_ : World) (_ : Act) => trivial) hrun).2.2
  obtain ⟨hdead, ⟨f₁, hborn₁⟩, hrefused⟩ := hinv
  have heff := effect_of_step hs
  obtain ⟨f₂, hborn₂, hnext, -⟩ := born_step hborn₁ heff
  exact ⟨dead_step hdead hnext heff, ⟨f₂, hborn₂⟩, hrefused.trans (hdead.refused hborn₁ heff rfl)⟩

/-! ## The revocation -/

/-- A settled revocation leaves the devices of these users dead. -/
theorem dead_of_settled {cfg : Config} {f : Nat → Origin} {w w' : World} {c : Nat}
    {userSub : Option Str} (hborn : Born f w) (hc : w.calls c = .revokeAll userSub)
    (h : Settled userSub w) (hs : step cfg w (.commit c) = some w') {tok : DeviceToken}
    (htok : tok ∈ w.signed) (huser : userSub.all (· == tok.userSub) = true) :
    Dead tok.deviceId w' := by
  obtain ⟨hlt, horigin⟩ := hborn.signed tok htok
  -- whatever has this id is of these users
  have hcovers : ∀ d : Device, f d.id = d.origin → d.id = tok.deviceId →
      covers userSub d = true := by
    intro d hd hid
    have hsame : d.origin = tok.origin := by
      rw [← hd, hid]
      exact horigin
    have husers : d.userSub = tok.userSub := congrArg Origin.userSub hsame
    unfold covers
    rw [husers]
    exact huser
  have heff := effect_of_step hs
  simp only [step, hc, World.commit] at hs
  cases hs
  refine ⟨hlt, fun d' hd' hid => ?_, fun c' rec hrec => ?_⟩
  · obtain ⟨d, hd, rfl⟩ := List.mem_map.mp hd'
    have hdid : d.id = tok.deviceId := by
      rw [← hid]
      split <;> simp
    have hcov := hcovers d (hborn.device d hd).2 hdid
    rw [if_pos hcov]
    show d.revokedIfActive.status = .revoked
    rcases revokedIfActive_status d with ⟨hsame, hnot⟩ | ⟨-, hstatus⟩
    · rw [hsame]
      have hpending := h.confirmed d hd hcov
      cases hstatus : d.status with
      | pending => exact absurd hstatus hpending
      | active => exact absurd hstatus hnot
      | revoked => rfl
    · exact hstatus
  · rcases call_of_effect heff c' with hcall | hcall | hcame
    · rw [hcall] at hrec
      intro hid
      have hcov := hcovers rec (hborn.loaded c' rec (loaded_of_checked hrec)).2 hid
      rw [h.unread c' rec hrec] at hcov
      cases hcov
    · rw [hcall] at hrec
      cases hrec
    · generalize World.calls _ c' = p at hcame hrec
      cases hcame with
      | purged a req hc' => cases hrec

/-- **Revocation is complete** where it is settled. -/
theorem revoked_for_good {cfg : Config} {acts : List Act} {w : World} {c : Nat}
    {userSub : Option Str} (hrun : run (step cfg) World.start acts = some w)
    (hc : w.calls c = .revokeAll userSub) (h : Settled userSub w) :
    Complete cfg c userSub w := by
  intro w₁ acts' w₂ hs hrun' tok htok huser
  obtain ⟨f, hborn⟩ := born_of_run hrun
  obtain ⟨f₁, hborn₁, -, -⟩ := born_step hborn (effect_of_step hs)
  exact refused_of_dead (dead_of_settled hborn hc h hs htok huser) hborn₁ hrun'

/-- Where the revocation is the only request, nothing is in flight. -/
theorem settled_of_solo {w : World} {c : Nat} {userSub : Option Str} (hw : Solo c w)
    (hc : w.calls c = .revokeAll userSub)
    (hrows : ∀ d ∈ w.devices, covers userSub d = true → d.status ≠ .pending) :
    Settled userSub w where
  confirmed := hrows
  unread := by
    intro c' rec hrec
    by_cases hne : c' = c
    · rw [hne, hc] at hrec
      cases hrec
    · rw [hw c' hne] at hrec
      cases hrec

/-- A device enrols, has its first heartbeat, and its user revokes all devices. -/
def confirmedThenRevoked : List Act :=
  oneEnrolled ++ checking 0 (tokenOf 0) ++
    [.commit 0, .request 0 (.revokeAllDevices (some ['u']))]

theorem confirmed_is_revoked : ∃ w, run (step .standard) World.start confirmedThenRevoked =
    some w ∧ tokenOf 0 ∈ w.signed ∧ Complete .standard 0 (some ['u']) w := by
  obtain ⟨w, hw⟩ : ∃ w, run (step .standard) World.start confirmedThenRevoked = some w :=
    ⟨_, rfl⟩
  have hcall : (run (step .standard) World.start confirmedThenRevoked).map (·.calls 0) =
      some (.revokeAll (some ['u'])) := rfl
  have hrows : (run (step .standard) World.start confirmedThenRevoked).map
      (fun w => (w.devices.map (·.status), decide (tokenOf 0 ∈ w.signed))) =
        some ([.active], true) := by decide
  rw [hw] at hcall hrows
  obtain ⟨hstatus, hsigned⟩ := Prod.mk.inj (Option.some.inj hrows)
  have hsolo : Solo 0 w := solo_of_run (fun _ _ => rfl) (by decide) hw
  refine ⟨w, hw, of_decide_eq_true hsigned, revoked_for_good hw (Option.some.inj hcall) ?_⟩
  refine settled_of_solo hsolo (Option.some.inj hcall) fun d hd _ hpending => ?_
  have hmem : d.status ∈ w.devices.map (·.status) := List.mem_map.mpr ⟨d, hd, rfl⟩
  rw [hstatus, hpending] at hmem
  exact absurd hmem (by decide)

/-- A device enrols, its user (or the administrator) revokes all devices, and the first
heartbeat of the device comes after that. -/
def pendingThenRevoked (userSub : Option Str) : List Act :=
  oneEnrolled ++ [.request 1 (.revokeAllDevices userSub)]

def heartbeat : List Act := checking 0 (tokenOf 0) ++ [.commit 0]

theorem not_refused {tok : DeviceToken} {w w' : World} {e : Nat × Answer}
    (hlog : w'.log = e :: w.log) (hacc : e.2.accepts tok) : ¬Refused tok w w' := by
  rintro ⟨new, hnew, hnone⟩
  rw [hlog] at hnew
  have hsame : [e] ++ w.log = new ++ w.log := hnew
  rw [← List.append_cancel_right hsame] at hnone
  exact hnone e List.mem_cons_self hacc

/-- **A pending device comes back**, after the revocation by its user and after that by the
administrator. -/
theorem pending_comes_back :
    (¬∀ acts w c userSub, run (step .standard) World.start acts = some w →
      w.calls c = .revokeAll (some userSub) → Complete .standard c (some userSub) w) ∧
    ¬∀ acts w c, run (step .standard) World.start acts = some w →
      w.calls c = .revokeAll none → Complete .standard c none w := by
  constructor
  · intro h
    have hrefused := h (pendingThenRevoked (some ['u'])) _ 1 ['u'] rfl rfl _ heartbeat _ rfl rfl
      (tokenOf 0) List.mem_cons_self rfl
    exact not_refused (e := (0, .valid (tokenOf 0) .active none)) rfl rfl hrefused
  · intro h
    have hrefused := h (pendingThenRevoked none) _ 1 rfl rfl _ heartbeat _ rfl rfl
      (tokenOf 0) List.mem_cons_self rfl
    exact not_refused (e := (0, .valid (tokenOf 0) .active none)) rfl rfl hrefused

end MesReunions.Devices
