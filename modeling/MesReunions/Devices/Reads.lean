import MesReunions.Devices.Steps

/-!
# What a request knows

* `Reads` — the ways a `SELECT` leads on, each with what it saw; **`reads_of_query`** — there
  are no others.
* `Phase.Sound` — what stays true of what was read; `Phase.loaded`, `Phase.shown` — the row
  and the token a request has in hand.
* **`Born`** — ids are drawn once, and a row, what a request loaded of it and the tokens
  signed for it agree on its user and its QR code. `born_of_run` — in every state of a run.
-/

namespace MesReunions.Devices

open TSys

/-! ## Reads -/

theorem first_some {rows : List Device} {p : Device → Bool} {pick : Option Nat} {d : Device}
    (h : first rows p pick = some (some d)) : d ∈ rows ∧ p d = true := by
  cases pick with
  | none =>
      simp only [first] at h
      split at h <;> cases h
  | some id =>
      simp only [first, Option.map_eq_some_iff] at h
      obtain ⟨x, hx, hxd⟩ := h
      cases hxd
      have hp := List.find?_some hx
      exact ⟨List.mem_of_find?_eq_some hx, (Bool.and_eq_true_iff.mp hp).1⟩

theorem first_none {rows : List Device} {p : Device → Bool} {pick : Option Nat}
    (h : first rows p pick = some none) : ∀ d ∈ rows, p d = false := by
  cases pick with
  | none =>
      simp only [first] at h
      split at h
      · cases h
      · rename_i hany
        intro d hd
        exact Bool.eq_false_iff.mpr fun hp => hany (List.any_eq_true.mpr ⟨d, hd, hp⟩)
  | some id =>
      simp only [first, Option.map_eq_some_iff] at h
      obtain ⟨x, -, hx⟩ := h
      cases hx

theorem mem_of_device {w : World} {id : Nat} {d : Device} (h : w.device id = some d) :
    d ∈ w.devices ∧ d.id = id := by
  unfold World.device at h
  have hid := List.find?_some h
  exact ⟨List.mem_of_find?_eq_some h, eq_of_beq hid⟩

theorem qrToken_of_code {w : World} {qrToken : Str} {code : IssuedToken}
    (h : w.code qrToken = some code) : code.qrToken = qrToken := by
  unfold World.code at h
  have hqr := List.find?_some h
  exact eq_of_beq hqr

/-- A `SELECT` that leads on, with what it saw. -/
inductive Reads (w : World) : Phase → Phase → Prop where
  | enrollCode (req : Enrollment) (now : Nat) (code : IssuedToken)
      (hqr : code.qrToken = req.qrToken) (hnow : ¬code.expiresAt < now) :
      Reads w (.enrollCode req now) (.enrollSameKey req now code)
  | sameKey (req : Enrollment) (now : Nat) (code : IssuedToken) (rec : Device)
      (hrec : rec ∈ w.devices) (hkey : rec.keyed req.qrToken req.deviceKey = true)
      (hstatus : rec.status ≠ .revoked) :
      Reads w (.enrollSameKey req now code) (.enrollUpdate req now rec .idempotent)
  | otherKey (req : Enrollment) (now : Nat) (code : IssuedToken) (p : Phase)
      (hnone : ∀ d ∈ w.devices, d.keyed req.qrToken req.deviceKey = false)
      (hp : p = .enrollFusion req now code ∨ p = .enrollConfirmed req now code) :
      Reads w (.enrollSameKey req now code) p
  | fused (req : Enrollment) (now : Nat) (code : IssuedToken) (rec : Device)
      (hrec : rec ∈ w.devices) (hqr : rec.qrToken = req.qrToken)
      (hstatus : rec.status ≠ .revoked) :
      Reads w (.enrollFusion req now code) (.enrollUpdate req now rec .fusedFpWindow)
  | unfused (req : Enrollment) (now : Nat) (code : IssuedToken) :
      Reads w (.enrollFusion req now code) (.enrollRebind req now code)
  | rebound (req : Enrollment) (now : Nat) (code : IssuedToken) (rec : Device)
      (hrec : rec ∈ w.devices) (hqr : rec.qrToken = req.qrToken)
      (hstatus : rec.status ≠ .revoked) :
      Reads w (.enrollRebind req now code) (.enrollUpdate req now rec .rebindFp)
  | unbound (req : Enrollment) (now : Nat) (code : IssuedToken) :
      Reads w (.enrollRebind req now code) (.enrollConfirmed req now code)
  | unowned (req : Enrollment) (now : Nat) (code : IssuedToken)
      (hnone : ∀ d ∈ w.devices, d.qrToken = req.qrToken → d.confirmed = false) :
      Reads w (.enrollConfirmed req now code) (.enrollInsert req now code)
  | validateDevice (tok : DeviceToken) (rec : Device) (hrec : rec ∈ w.devices)
      (hid : rec.id = tok.deviceId) (hqr : rec.qrToken = Str.strip tok.qrToken)
      (hstatus : rec.status ≠ .revoked) :
      Reads w (.validateDevice tok) (.validateCode tok rec w.now)
  | validatePending (tok : DeviceToken) (rec : Device) (now : Nat)
      (hstatus : rec.status = .pending) :
      Reads w (.validateCode tok rec now) (.validateOther tok rec now)
  | validateActive (tok : DeviceToken) (rec : Device) (now : Nat)
      (hstatus : rec.status ≠ .pending) :
      Reads w (.validateCode tok rec now) (.validateCommit tok rec now)
  | validateOther (tok : DeviceToken) (rec : Device) (now : Nat)
      (hnone : ∀ d ∈ w.devices, d.qrToken = Str.strip tok.qrToken → d.confirmed = true →
        d.id = rec.id) :
      Reads w (.validateOther tok rec now) (.validateCommit tok rec now)
  | owned (p p' : Phase) (rec : Device) (hrec : rec ∈ w.devices)
      (hp : p' = .revokeCommit rec ∨ p' = .deleteCommit rec) : Reads w p p'
  | code (p p' : Phase) (code : IssuedToken)
      (hp : (∃ ttl now, p' = .extendCommit code ttl now) ∨ p' = .deleteSessionCommit code) :
      Reads w p p'

theorem owned_eq_inl {w : World} {id : Nat} {userSub : Option Str} {next : Device → Phase}
    {p : Phase} (h : w.owned id userSub next = .inl p) : ∃ rec ∈ w.devices, p = next rec := by
  unfold World.owned at h
  split at h
  · cases h
  · rename_i rec hrec
    split at h
    · cases h
      exact ⟨rec, (mem_of_device hrec).1, rfl⟩
    · cases h

/-- **A `SELECT` leads on in one of these ways.** -/
theorem reads_of_query {w : World} {cfg : Config} {pick : Option Nat} {p p' : Phase}
    (h : w.query cfg pick p = some (.inl p')) : Reads w p p' := by
  unfold World.query at h
  split at h
  · rename_i req now
    have h := Option.some.inj h
    split at h
    · cases h
    · rename_i code hcode
      split at h
      · cases h
      · rename_i hnow
        cases h
        exact .enrollCode req now code (qrToken_of_code hcode) hnow
  · rename_i req now code
    obtain ⟨found, hfound, h⟩ := Option.map_eq_some_iff.mp h
    cases found with
    | some rec =>
        obtain ⟨hrec, hkey⟩ := first_some hfound
        simp only at h
        split at h
        · cases h
        · rename_i hstatus
          cases h
          exact .sameKey req now code rec hrec hkey hstatus
    | none =>
        simp only at h
        split at h <;> cases h
        · exact .otherKey req now code _ (first_none hfound) (.inl rfl)
        · exact .otherKey req now code _ (first_none hfound) (.inr rfl)
  · rename_i req now code
    obtain ⟨found, hfound, h⟩ := Option.map_eq_some_iff.mp h
    cases found with
    | some rec =>
        obtain ⟨hrec, hnewest⟩ := first_some hfound
        have htwin := (Bool.and_eq_true_iff.mp hnewest).1
        simp only [Bool.and_eq_true, beq_iff_eq, bne_iff_ne, ne_eq] at htwin
        cases h
        exact .fused req now code rec hrec htwin.1.1.1 htwin.1.2
    | none =>
        cases h
        exact .unfused req now code
  · rename_i req now code
    obtain ⟨found, hfound, h⟩ := Option.map_eq_some_iff.mp h
    cases found with
    | some rec =>
        obtain ⟨hrec, hlost⟩ := first_some hfound
        simp only [Bool.and_eq_true, beq_iff_eq, Device.confirmed] at hlost
        cases h
        refine .rebound req now code rec hrec hlost.1.1 fun hrevoked => ?_
        rw [hrevoked] at hlost
        exact absurd hlost.2.1 (by decide)
    | none =>
        cases h
        exact .unbound req now code
  · rename_i req now code
    have h := Option.some.inj h
    split at h
    · cases h
    · rename_i hany
      cases h
      refine .unowned req now code fun d hd hqr => Bool.eq_false_iff.mpr fun hconf => hany ?_
      exact List.any_eq_true.mpr ⟨d, hd, Bool.and_eq_true_iff.mpr ⟨beq_iff_eq.mpr hqr, hconf⟩⟩
  · rename_i tok
    have h := Option.some.inj h
    split at h
    · cases h
    · rename_i rec hrec
      obtain ⟨hmem, hid⟩ := mem_of_device hrec
      split at h
      · cases h
      · rename_i hstatus
        split at h
        · cases h
        · rename_i hqr
          split at h
          · cases h
          · cases h
            exact .validateDevice tok rec hmem hid (not_not.mp hqr) hstatus
  · rename_i tok rec now
    have h := Option.some.inj h
    split at h
    · cases h
    · split at h
      · cases h
      · split at h
        · rename_i hstatus
          cases h
          exact .validatePending tok rec now hstatus
        · rename_i hstatus
          cases h
          exact .validateActive tok rec now hstatus
  · rename_i tok rec now
    have h := Option.some.inj h
    split at h
    · cases h
    · rename_i hany
      cases h
      refine .validateOther tok rec now fun d hd hqr hconf => ?_
      by_contra hne
      refine hany (List.any_eq_true.mpr ⟨d, hd, ?_⟩)
      rw [Bool.and_eq_true_iff, Bool.and_eq_true_iff]
      exact ⟨⟨beq_iff_eq.mpr hqr, hconf⟩, bne_iff_ne.mpr hne⟩
  · obtain ⟨rec, hrec, rfl⟩ := owned_eq_inl (Option.some.inj h)
    exact .owned _ _ rec hrec (.inl rfl)
  · obtain ⟨rec, hrec, rfl⟩ := owned_eq_inl (Option.some.inj h)
    exact .owned _ _ rec hrec (.inr rfl)
  · have h := Option.some.inj h
    split at h
    · cases h
    · rename_i code hcode
      split at h
      · cases h
      · cases h
        exact .code _ _ code (.inl ⟨_, _, rfl⟩)
  · have h := Option.some.inj h
    split at h
    · cases h
    · rename_i code hcode
      split at h
      · cases h
      · cases h
        exact .code _ _ code (.inr rfl)
  · cases h

/-! ## What a phase remembers -/

/-- The row a request has loaded. -/
def Phase.loaded : Phase → Option Device
  | .enrollUpdate _ _ rec _ => some rec
  | .validateCode _ rec _ => some rec
  | .validateOther _ rec _ => some rec
  | .validateCommit _ rec _ => some rec
  | .revokeCommit rec => some rec
  | .deleteCommit rec => some rec
  | _ => none

/-- The token a request was shown. -/
def Phase.shown : Phase → Option DeviceToken
  | .validateDevice tok => some tok
  | .validateCode tok _ _ => some tok
  | .validateOther tok _ _ => some tok
  | .validateCommit tok _ _ => some tok
  | _ => none

/-- What stays true of what was read. -/
def Phase.Sound : Phase → Prop
  | .enrollSameKey req _ code => code.qrToken = req.qrToken
  | .enrollFusion req _ code => code.qrToken = req.qrToken
  | .enrollRebind req _ code => code.qrToken = req.qrToken
  | .enrollConfirmed req _ code => code.qrToken = req.qrToken
  | .enrollInsert req _ code => code.qrToken = req.qrToken
  | .enrollUpdate req _ rec _ => rec.qrToken = req.qrToken
  | .validateCode tok rec _ => rec.id = tok.deviceId ∧ rec.qrToken = Str.strip tok.qrToken
  | .validateOther tok rec _ =>
      rec.id = tok.deviceId ∧ rec.qrToken = Str.strip tok.qrToken ∧ rec.status = .pending
  | .validateCommit tok rec _ => rec.id = tok.deviceId ∧ rec.qrToken = Str.strip tok.qrToken
  | _ => True

theorem qrToken_of_keyed {d : Device} {qrToken deviceKey : Str}
    (h : d.keyed qrToken deviceKey = true) : d.qrToken = qrToken ∧ d.deviceKey = deviceKey := by
  unfold Device.keyed at h
  obtain ⟨hqr, hkey⟩ := Bool.and_eq_true_iff.mp h
  exact ⟨eq_of_beq hqr, eq_of_beq hkey⟩

theorem sound_of_reads {w : World} {p p' : Phase} (hp : p.Sound) (h : Reads w p p') :
    p'.Sound := by
  cases h with
  | enrollCode req now code hqr hnow => exact hqr
  | sameKey req now code rec hrec hkey hstatus => exact (qrToken_of_keyed hkey).1
  | otherKey req now code p hnone hnext => rcases hnext with rfl | rfl <;> exact hp
  | fused req now code rec hrec hqr hstatus => exact hqr
  | unfused req now code => exact hp
  | rebound req now code rec hrec hqr hstatus => exact hqr
  | unbound req now code => exact hp
  | unowned req now code hnone => exact hp
  | validateDevice tok rec hrec hid hqr hstatus => exact ⟨hid, hqr⟩
  | validatePending tok rec now hstatus => exact ⟨hp.1, hp.2, hstatus⟩
  | validateActive tok rec now hstatus => exact hp
  | validateOther tok rec now hnone => exact ⟨hp.1, hp.2.1⟩
  | owned p p' rec hrec hnext => rcases hnext with rfl | rfl <;> trivial
  | code p p' code hnext => rcases hnext with ⟨_, _, rfl⟩ | rfl <;> trivial

theorem loaded_of_reads {w : World} {p p' : Phase} (h : Reads w p p') {rec : Device}
    (hrec' : p'.loaded = some rec) : p.loaded = some rec ∨ rec ∈ w.devices := by
  cases h with
  | enrollCode req now code hqr hnow => cases hrec'
  | sameKey req now code rec hrec hkey hstatus => cases hrec'; exact .inr hrec
  | otherKey req now code p hnone hnext => rcases hnext with rfl | rfl <;> cases hrec'
  | fused req now code rec hrec hqr hstatus => cases hrec'; exact .inr hrec
  | unfused req now code => cases hrec'
  | rebound req now code rec hrec hqr hstatus => cases hrec'; exact .inr hrec
  | unbound req now code => cases hrec'
  | unowned req now code hnone => cases hrec'
  | validateDevice tok rec hrec hid hqr hstatus => cases hrec'; exact .inr hrec
  | validatePending tok rec now hstatus => exact .inl hrec'
  | validateActive tok rec now hstatus => exact .inl hrec'
  | validateOther tok rec now hnone => exact .inl hrec'
  | owned p p' rec hrec hnext => rcases hnext with rfl | rfl <;> cases hrec' <;> exact .inr hrec
  | code p p' code hnext => rcases hnext with ⟨_, _, rfl⟩ | rfl <;> cases hrec'

theorem shown_of_reads {w : World} {p p' : Phase} (h : Reads w p p') {tok : DeviceToken}
    (htok : p'.shown = some tok) : p.shown = some tok := by
  cases h with
  | validateDevice shown rec hrec hid hqr hstatus => exact htok
  | validatePending shown rec now hstatus => exact htok
  | validateActive shown rec now hstatus => exact htok
  | validateOther shown rec now hnone => exact htok
  | otherKey req now code p hnone hnext => rcases hnext with rfl | rfl <;> cases htok
  | owned p p' rec hrec hnext => rcases hnext with rfl | rfl <;> cases htok
  | code p p' code hnext => rcases hnext with ⟨_, _, rfl⟩ | rfl <;> cases htok
  | enrollCode | sameKey | fused | unfused | rebound | unbound | unowned => cases htok

/-- The phases a request may start in. -/
theorem begin_phase {w : World} {cfg : Config} {req : Request} {p : Phase}
    (h : w.begin cfg req = .inl p) :
    p.Sound ∧ p.loaded = none ∧ ∀ tok, p.shown = some tok → tok ∈ w.signed := by
  cases req with
  | validateDevice tok =>
      simp only [World.begin, validateDevice] at h
      split at h
      · cases h
      · rename_i hmem
        (repeat' split at h) <;> cases h
        refine ⟨trivial, rfl, fun shown hshown => ?_⟩
        cases hshown
        exact not_not.mp hmem
  | enrollDevice | revokeDevice | deleteDevice | revokeAllDevices | extendToken | deleteSession =>
      simp only [World.begin, enrollDevice] at h
      split at h <;> cases h
      exact ⟨trivial, rfl, fun tok htok => by cases htok⟩

/-! ## Where ids come from -/

/-- An id has one user and one QR code, those that `f` says. -/
structure Born (f : Nat → Origin) (w : World) : Prop where
  nodup : (w.devices.map (·.id)).Nodup
  device : ∀ d ∈ w.devices, d.id < w.next ∧ f d.id = d.origin
  loaded : ∀ c rec, (w.calls c).loaded = some rec → rec.id < w.next ∧ f rec.id = rec.origin
  signed : ∀ t ∈ w.signed, t.deviceId < w.next ∧ f t.deviceId = t.origin
  shown : ∀ c t, (w.calls c).shown = some t → t ∈ w.signed
  sound : ∀ c, (w.calls c).Sound

theorem born_start (f : Nat → Origin) : Born f World.start where
  nodup := List.nodup_nil
  device := fun _ hd => absurd hd List.not_mem_nil
  loaded := fun _ _ h => by cases h
  signed := fun _ ht => absurd ht List.not_mem_nil
  shown := fun _ _ h => by cases h
  sound := fun _ => trivial

/-- Ids are keys. -/
theorem Born.eq_of_id {f : Nat → Origin} {w : World} (h : Born f w) {d d' : Device}
    (hd : d ∈ w.devices) (hd' : d' ∈ w.devices) (hid : d.id = d'.id) : d = d' :=
  List.inj_on_of_nodup_map h.nodup hd hd' hid

/-- Where all rows that match have one id, one row matches. -/
theorem Born.countP_le_one {f : Nat → Origin} {w : World} (h : Born f w) {p : Device → Bool}
    (hone : ∀ d ∈ w.devices, p d = true → ∀ d' ∈ w.devices, p d' = true → d.id = d'.id) :
    w.devices.countP p ≤ 1 := by
  rw [List.countP_eq_length_filter]
  have hnodup : (w.devices.filter p).Nodup := (List.Nodup.of_map _ h.nodup).filter _
  have hsame : ∀ d ∈ w.devices.filter p, ∀ d' ∈ w.devices.filter p, d = d' := by
    intro d hd d' hd'
    obtain ⟨hmem, hp⟩ := List.mem_filter.mp hd
    obtain ⟨hmem', hp'⟩ := List.mem_filter.mp hd'
    exact h.eq_of_id hmem hmem' (hone d hmem hp d' hmem' hp')
  match hrows : w.devices.filter p with
  | [] => exact Nat.zero_le 1
  | [d] => exact Nat.le_refl 1
  | d :: d' :: rest =>
      rw [hrows] at hnodup hsame
      have heq := hsame d List.mem_cons_self d' (List.mem_cons_of_mem _ List.mem_cons_self)
      rw [heq] at hnodup
      exact absurd List.mem_cons_self (List.nodup_cons.mp hnodup).1

theorem signed_mono {cfg : Config} {w w' : World} {a : Act} (heff : Effect cfg w a w')
    {t : DeviceToken} (ht : t ∈ w.signed) : t ∈ w'.signed := by
  cases heff with
  | asked c req hc => cases hnext : w.begin cfg req <;> exact ht
  | read c pick next h => cases next <;> exact ht
  | updated c rec d f tokens answer hd h => exact List.mem_append.mpr (.inr ht)
  | inserted c req now code hc => exact List.mem_cons_of_mem _ ht
  | outside | purged | revokedAll | deleted | extended | failed => exact ht

theorem phase_of_came {cfg : Config} {w : World} {c : Nat} {a : Act} {p : Phase}
    (h : Came cfg w c a p) (hsound : (w.calls c).Sound) :
    p.Sound ∧ (∀ rec, p.loaded = some rec → (w.calls c).loaded = some rec ∨ rec ∈ w.devices) ∧
      ∀ tok, p.shown = some tok → (w.calls c).shown = some tok ∨ tok ∈ w.signed := by
  cases h with
  | asked req p hp =>
      obtain ⟨hp, hloaded, hshown⟩ := begin_phase hp
      refine ⟨hp, fun rec hrec => ?_, fun tok htok => .inr (hshown tok htok)⟩
      rw [hloaded] at hrec
      cases hrec
  | read pick p hp =>
      have hreads := reads_of_query hp
      exact ⟨sound_of_reads hsound hreads, fun rec hrec => loaded_of_reads hreads hrec,
        fun tok htok => .inl (shown_of_reads hreads htok)⟩
  | purged a req hc =>
      refine ⟨trivial, fun rec hrec => ?_, fun tok htok => ?_⟩
      · cases hrec
      · cases htok

theorem inserted_unique {cfg : Config} {w : World} {a : Act} {d d' : Device}
    (h : Inserted cfg w a d) (h' : Inserted cfg w a d') : d = d' := by
  obtain ⟨c, req, now, code, rfl, hc, rfl⟩ := h
  obtain ⟨c', req', now', code', ha, hc', rfl⟩ := h'
  cases ha
  rw [hc] at hc'
  cases hc'
  rfl

/-- The new id gets its origin; the others keep theirs. -/
theorem born_step {cfg : Config} {f : Nat → Origin} {w w' : World} {a : Act} (h : Born f w)
    (heff : Effect cfg w a w') :
    ∃ f', Born f' w' ∧ w.next ≤ w'.next ∧ ∀ i < w.next, f' i = f i := by
  -- phases and tokens, for any `f'` that agrees with `f` on the old ids
  have hphases : ∀ f' : Nat → Origin, (∀ i < w.next, f' i = f i) → w.next ≤ w'.next →
      (∀ c rec, (w'.calls c).loaded = some rec → rec.id < w'.next ∧ f' rec.id = rec.origin) ∧
      (∀ c t, (w'.calls c).shown = some t → t ∈ w'.signed) ∧ ∀ c, (w'.calls c).Sound := by
    intro f' hf' hnext
    have hold : ∀ rec : Device, rec.id < w.next ∧ f rec.id = rec.origin →
        rec.id < w'.next ∧ f' rec.id = rec.origin :=
      fun rec hrec => ⟨Nat.lt_of_lt_of_le hrec.1 hnext, (hf' _ hrec.1).trans hrec.2⟩
    refine ⟨fun c rec hrec => ?_, fun c t ht => ?_, fun c => ?_⟩
    · rcases call_of_effect heff c with hcall | hcall | hcame
      · exact hold rec (h.loaded c rec (hcall ▸ hrec))
      · rw [hcall] at hrec
        cases hrec
      · rcases (phase_of_came hcame (h.sound c)).2.1 rec hrec with hrec | hrec
        · exact hold rec (h.loaded c rec hrec)
        · exact hold rec (h.device rec hrec)
    · refine signed_mono heff ?_
      rcases call_of_effect heff c with hcall | hcall | hcame
      · exact h.shown c t (hcall ▸ ht)
      · rw [hcall] at ht
        cases ht
      · exact ((phase_of_came hcame (h.sound c)).2.2 t ht).elim (h.shown c t) id
    · rcases call_of_effect heff c with hcall | hcall | hcame
      · exact hcall ▸ h.sound c
      · rw [hcall]
        trivial
      · exact (phase_of_came hcame (h.sound c)).1
  -- a token this step signs for an old id
  have hupdates : ∀ c rec g tokens answer t, Updates cfg w (w.calls c) rec g tokens answer →
      t ∈ tokens → t.deviceId < w.next ∧ f t.deviceId = t.origin := by
    intro c rec g tokens answer t hup ht
    have hloaded := h.loaded c
    have hshown := h.shown c
    generalize w.calls c = phase at hup hloaded hshown
    cases hup with
    | reenrolled req now rec reason =>
        cases List.mem_singleton.mp ht
        exact hloaded rec rfl
    | validated tok rec now status =>
        obtain ⟨hlt, hf⟩ := h.signed tok (hshown tok rfl)
        unfold DeviceToken.refreshed at ht
        split at ht
        · exact absurd ht List.not_mem_nil
        · cases List.mem_singleton.mp ht
          exact ⟨hlt, hf⟩
    | revoked rec answer hanswer => exact absurd ht List.not_mem_nil
  rcases ids_of_effect heff with ⟨hids, hnext⟩ | ⟨hids, hnext⟩
  · obtain ⟨hloaded, hshown, hsound⟩ := hphases f (fun _ _ => rfl) (Nat.le_of_eq hnext.symm)
    refine ⟨f, ⟨hids.nodup h.nodup, fun d' hd' => ?_, hloaded, fun t ht => ?_, hshown, hsound⟩,
      Nat.le_of_eq hnext.symm, fun _ _ => rfl⟩
    · rw [hnext]
      rcases device_of_effect heff hd' with ⟨d, hd, hw⟩ | ⟨c, req, now, code, -, -, rfl⟩
      · rw [hw.id, hw.origin]
        exact h.device d hd
      · -- an insertion would show in the ids
        have hmem : w.next ∈ w.devices.map (·.id) :=
          hids.subset (List.mem_map.mpr ⟨_, hd', rfl⟩)
        obtain ⟨d, hd, hid⟩ := List.mem_map.mp hmem
        have hlt := (h.device d hd).1
        omega
    · rw [hnext]
      rcases signed_of_effect heff ht with ht | ⟨c, rec, g, tokens, answer, hup, ht⟩ |
        ⟨d, -, hne, -⟩
      · exact h.signed t ht
      · exact hupdates c rec g tokens answer t hup ht
      · omega
  · -- the row that was inserted
    have hmem : w.next ∈ w'.devices.map (·.id) := by
      rw [hids]
      exact List.mem_append.mpr (.inr (List.mem_singleton.mpr rfl))
    obtain ⟨dn, hdn, hdnid⟩ := List.mem_map.mp hmem
    have hins : Inserted cfg w a dn := by
      rcases device_of_effect heff hdn with ⟨d, hd, hw⟩ | hins
      · have hlt := (h.device d hd).1
        have hid := hw.id
        omega
      · exact hins
    have hf' : ∀ i < w.next, Function.update f w.next dn.origin i = f i :=
      fun i hi => Function.update_of_ne (Nat.ne_of_lt hi) ..
    have hnew : Function.update f w.next dn.origin w.next = dn.origin := Function.update_self ..
    have hle : w.next ≤ w'.next := by omega
    obtain ⟨hloaded, hshown, hsound⟩ := hphases _ hf' hle
    refine ⟨_, ⟨?_, fun d' hd' => ?_, hloaded, fun t ht => ?_, hshown, hsound⟩, hle, hf'⟩
    · rw [hids]
      refine List.Nodup.append h.nodup (List.nodup_singleton _) fun i hi hi' => ?_
      obtain ⟨d, hd, rfl⟩ := List.mem_map.mp hi
      exact Nat.ne_of_lt (h.device d hd).1 (List.mem_singleton.mp hi')
    · rcases device_of_effect heff hd' with ⟨d, hd, hw⟩ | hins'
      · rw [hw.id, hw.origin]
        obtain ⟨hlt, hf⟩ := h.device d hd
        exact ⟨Nat.lt_of_lt_of_le hlt hle, (hf' _ hlt).trans hf⟩
      · cases inserted_unique hins' hins
        rw [hdnid, hnew]
        exact ⟨by omega, rfl⟩
    · rcases signed_of_effect heff ht with ht | ⟨c, rec, g, tokens, answer, hup, ht⟩ |
        ⟨d, hins', -, hid, horigin⟩
      · obtain ⟨hlt, hf⟩ := h.signed t ht
        exact ⟨Nat.lt_of_lt_of_le hlt hle, (hf' _ hlt).trans hf⟩
      · obtain ⟨hlt, hf⟩ := hupdates c rec g tokens answer t hup ht
        exact ⟨Nat.lt_of_lt_of_le hlt hle, (hf' _ hlt).trans hf⟩
      · cases inserted_unique hins' hins
        rw [hid, horigin, hdnid, hnew]
        exact ⟨by omega, rfl⟩

/-- **In every state of a run**, ids have one origin. -/
theorem born_of_run {cfg : Config} {acts : List Act} {w : World}
    (hrun : run (step cfg) World.start acts = some w) : ∃ f, Born f w :=
  inv_of_guarded (step cfg) (fun w => ∃ f, Born f w)
    (fun _ _ _ ⟨_, h⟩ _ hs => (born_step h (effect_of_step hs)).imp fun _ h' => h'.1)
    ⟨fun _ => ⟨[], []⟩, born_start _⟩
    (guarded_of_forall _ fun (_ : World) (_ : Act) => trivial) hrun

/-! ## Requests one after another -/

/-- Only request `c` is under way. -/
def Solo (c : Nat) (w : World) : Prop := ∀ c', c' ≠ c → w.calls c' = .idle

theorem solo_step {cfg : Config} {w w' : World} {a : Act} {c : Nat} (hw : Solo c w)
    (ha : a.caller = none ∨ a.caller = some c) (hs : step cfg w a = some w') : Solo c w' := by
  intro c' hc'
  have hother : a.caller ≠ some c' := by
    rcases ha with ha | ha <;> rw [ha]
    · exact fun h => by cases h
    · exact fun h => hc' (Option.some.inj h).symm
  rw [call_of_other (effect_of_step hs) hother]
  exact hw c' hc'

/-- A guard that stops no request that is alone lets every run of one caller pass. -/
theorem guarded_of_solo {cfg : Config} {guard : World → Act → Prop} {c : Nat}
    (hguard : ∀ w a, Solo c w → (a.caller = none ∨ a.caller = some c) → guard w a) :
    ∀ {acts : List Act} {w : World}, Solo c w →
      (∀ a ∈ acts, a.caller = none ∨ a.caller = some c) → Guarded (step cfg) guard w acts :=
  guarded_of_inv (step cfg) (Solo c) _ hguard fun _ _ _ hw ha hs => solo_step hw ha hs

theorem solo_of_run {cfg : Config} {c : Nat} {acts : List Act} {w w' : World} (hw : Solo c w)
    (hacts : ∀ a ∈ acts, a.caller = none ∨ a.caller = some c)
    (hrun : run (step cfg) w acts = some w') : Solo c w' := by
  have hguarded : Guarded (step cfg) (fun _ a => a.caller = none ∨ a.caller = some c) w acts :=
    guarded_of_solo (fun _ _ _ ha => ha) hw hacts
  exact inv_of_guarded (step cfg) (Solo c) (fun w a w' hw ha hs => solo_step hw ha hs) hw
    hguarded hrun

/-- A first enrolment, without a fingerprint. -/
def enrolling (c : Nat) (qrToken deviceKey : Str) : List Act :=
  [.request c (.enrollDevice ⟨qrToken, deviceKey, none⟩), .commit c, .query c none,
    .query c none, .query c none, .commit c]

/-- A validation up to its commit. -/
def checking (c : Nat) (tok : DeviceToken) : List Act :=
  [.request c (.validateDevice tok), .query c none, .query c none, .query c none]

/-- The token of the device `id`, where one user has one QR code and no time passes. -/
def tokenOf (id : Nat) : DeviceToken := ⟨id, ['u'], ['q'], ['c'], 168 * 3600, 0⟩

/-- The QR code is issued and device 0 enrols. -/
def oneEnrolled : List Act := .issueToken ['u'] ['c'] ['q'] 5 :: enrolling 0 ['q'] ['a']

end MesReunions.Devices
