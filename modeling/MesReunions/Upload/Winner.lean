import MesReunions.Base.CheckThenAct
import MesReunions.Upload.Steps

/-!
# One device per upload session

* `Apart` — no claim reads a session while a claim for another device stands between its read
  of the session and its `UPDATE`.
* **`one_winner`** — in such a run one device at most obtains `(True, "ok")` for a session,
  and no claim changes.
* **`one_winner_of_expiring`** — with `expire_on_commit=True` it would be so in every run.
* **`two_winners`** — two claims that cross.
-/

namespace MesReunions.Upload

open TSys CheckThenAct

universe u

variable {δ : Type u}

/-- The device has obtained `(True, "ok")` for the session. -/
def Obtained (w : World δ) (session : Str) (device : δ) : Prop :=
  ∃ c, .claim ⟨c, session, some device, .ok⟩ ∈ w.attempts

/-- One device at most has. -/
def OneWinner (w : World δ) (session : Str) : Prop :=
  ∀ device device', Obtained w session device → Obtained w session device' → device = device'

/-- No claim changes. -/
def ClaimsKept (w w' : World δ) : Prop :=
  ∀ session device, w.claimed session = some device → w'.claimed session = some device

/-- Reads of a session do not come between the read and the `UPDATE` for another device. -/
def Apart (w : World δ) : Act δ → Prop
  | .select c => ∀ req device, w.calls c = .claimRead req device →
      ∀ c' req' device' sess, w.calls c' = .claimUpdate req' device' sess →
        req'.session = req.session → device' = device
  | _ => True

/-- A claim for the device has read the session as unclaimed. -/
def Claiming (w : World δ) (session : Str) (device : δ) : Prop :=
  ∃ c req sess, w.calls c = .claimUpdate req device sess ∧ req.session = session

/-- A claim for the device goes on as the one that has the session, or did so. -/
def Passed (w : World δ) (session : Str) (device : δ) : Prop :=
  (∃ c req, w.calls c = .claimReset req device ∧ req.session = session) ∨
    Obtained w session device

/-! ## The invariant -/

/-- Whoever passed has the claim. A claim that lost its `UPDATE` lost it to its own device, or
it will see to whom. -/
structure Inv (factory : SessionFactory) (w : World δ) : Prop where
  passed : ∀ session device, Passed w session device → w.claimed session = some device
  lost : ∀ c req device sess, w.calls c = .claimReread req device sess →
    w.claimed req.session = some device ∨
      factory.expireOnCommit = true ∧ ∃ other, w.claimed req.session = some other
  held : ∀ c req device sess, w.calls c = .claimUpdate req device sess →
    w.sessions req.session ≠ none
  exclusive : factory.expireOnCommit = true ∨
    Exclusive Eq (fun session device => w.claimed session = some device) (Claiming w)

theorem inv_start (factory : SessionFactory) : Inv factory (World.start : World δ) where
  passed := by
    rintro session device (⟨c, req, hc, -⟩ | ⟨c, hc⟩)
    · cases hc
    · exact absurd hc List.not_mem_nil
  lost := fun _ _ _ _ h => by cases h
  held := fun _ _ _ _ h => by cases h
  exclusive := .inr
    { one := fun h => by cases h
      alone := fun ⟨_, _, _, h, _⟩ => by cases h
      free := fun ⟨_, _, _, h, _⟩ => by cases h }

variable [DecidableEq δ]

/-- An `ok` was there, or a claim that had passed has returned. -/
theorem obtained_of_effect {svc : Service} {w w' : World δ} {a : Act δ}
    (heff : Effect svc w a w') {session : Str} {device : δ} (h : Obtained w' session device) :
    Passed w session device := by
  obtain ⟨c, hc⟩ := h
  rcases attempt_of_effect heff with hsame | ⟨e, hnew, hattempted⟩
  · exact .inr ⟨c, hsame ▸ hc⟩
  · rw [hnew] at hc
    rcases List.mem_cons.mp hc with rfl | hc
    · cases hattempted with
      | granted _ req _ hreset => exact .inl ⟨c, req, hreset, rfl⟩
      | ignored _ _ hnot => exact absurd rfl hnot
    · exact .inr ⟨c, hc⟩

/-- A claim that lost its `UPDATE` and passes has the session, if commits do not hide it. -/
theorem claimed_of_passed {svc : Service} {w : World δ} (h : Inv svc.factory w)
    {c : Nat} {req : Request δ} {device : δ} {sess : Session δ}
    (hc : w.calls c = .claimReread req device sess)
    (hnot : (svc.factory.refetch (w.sessions req.session) sess).any (·.ofOther device) = false) :
    w.claimed req.session = some device := by
  rcases h.lost c req device sess hc with hown | ⟨hexpire, other, hother⟩
  · exact hown
  · obtain ⟨row, hrow, hclaim⟩ := Option.bind_eq_some_iff.mp hother
    -- the row itself is read again, and it names no other device
    have hfetch : svc.factory.refetch (w.sessions req.session) sess = some row := by
      simp only [SessionFactory.refetch, hrow, hexpire, if_true, Option.map_some]
    rw [hfetch, Option.any_some] at hnot
    by_cases hsame : other = device
    · rw [hother, hsame]
    · rw [ofOther_iff.mpr ⟨other, hclaim, hsame⟩] at hnot
      cases hnot

/-- A claim that stands before its `UPDATE` stood there, or has just found no claim. -/
theorem claiming_of_effect {svc : Service} {w w' : World δ} {a : Act δ}
    (heff : Effect svc w a w') {session : Str} {device : δ} (h : Claiming w' session device) :
    Claiming w session device ∨ ∃ c req, a = .select c ∧ w.calls c = .claimRead req device ∧
      req.session = session ∧ w.claimed session = none := by
  obtain ⟨c, req, sess, hc, hsession⟩ := h
  rcases call_of_effect heff c with hcall | hcall | hcame
  · exact .inl ⟨c, req, sess, hcall ▸ hc, hsession⟩
  · rw [hcall] at hc
    cases hc
  · rw [hc] at hcame
    cases hcame with
    | unclaimed req device sess hread hsess hnone =>
        subst hsession
        exact .inr ⟨c, req, rfl, hread, rfl, (claimed_of_row hsess).trans hnone⟩

/-- Only an `UPDATE` brings a claim. -/
theorem claimed_of_select {svc : Service} {w w' : World δ} {a : Act δ} (heff : Effect svc w a w')
    (ha : ∀ c, a ≠ .update c) (session : Str) (device : δ)
    (h : w'.claimed session = some device) : w.claimed session = some device := by
  rcases claimed_of_effect heff session with hsame | ⟨-, c, -, -, -, hupdate, -⟩
  · rw [← hsame, h]
  · exact absurd hupdate (ha c)

/-- **No two devices stand between read and `UPDATE`.** -/
theorem exclusive_step {svc : Service} {w w' : World δ} {a : Act δ}
    (h : Exclusive Eq (fun session device => w.claimed session = some device) (Claiming w))
    (hact : Apart w a) (heff : Effect svc w a w') :
    Exclusive Eq (fun session device => w'.claimed session = some device) (Claiming w') := by
  by_cases hupdate : ∃ c, a = .update c
  · obtain ⟨c, rfl⟩ := hupdate
    have hpending : ∀ session device, Claiming w' session device → Claiming w session device := by
      intro session device hclaiming
      rcases claiming_of_effect heff hclaiming with hold | ⟨_, _, hselect, -⟩
      · exact hold
      · cases hselect
    by_cases hclaim : ∃ req device sess, w.calls c = .claimUpdate req device sess
    · obtain ⟨req, device, sess, hc⟩ := hclaim
      refine h.act (k := req.session) (a := device) (o := device) ⟨c, req, sess, hc, rfl⟩ ?_ ?_
        hpending fun _ => rfl
      · intro other _ hmine
        exact hmine.symm
      · intro session device' hclaimed
        rcases claimed_of_effect heff session with
          hsame | ⟨-, c', req', d, sess', heq, hc', hsession, hd⟩
        · exact .inl (hsame ▸ hclaimed)
        · cases heq
          rw [hc] at hc'
          cases hc'
          rw [hclaimed] at hd
          exact .inr ⟨hsession.symm, Option.some.inj hd⟩
    · refine h.quiet (fun session device hclaimed => ?_) hpending
      rcases claimed_of_effect heff session with hsame | ⟨-, c', req', d, sess', heq, hc', -⟩
      · rw [← hsame, hclaimed]
      · cases heq
        exact absurd ⟨req', d, sess', hc'⟩ hclaim
  · have hholds := claimed_of_select heff fun c heq => hupdate ⟨c, heq⟩
    by_cases hread : ∃ c req device, a = .select c ∧ w.calls c = .claimRead req device ∧
        w.claimed req.session = none
    · obtain ⟨c, req, device, rfl, hread, hnone⟩ := hread
      refine h.check (k := req.session) (a := device) ?_ ?_ hholds ?_
      · intro other hother
        rw [hnone] at hother
        cases hother
      · rintro device' ⟨c', req', sess', hc', hsession⟩
        exact hact req device hread c' req' device' sess' hc' hsession
      · intro session device' hclaiming
        rcases claiming_of_effect heff hclaiming with hold | ⟨c', req', heq, hc', hsession, -⟩
        · exact .inl hold
        · cases heq
          rw [hread] at hc'
          cases hc'
          exact .inr ⟨hsession.symm, rfl⟩
    · refine h.quiet hholds fun session device hclaiming => ?_
      rcases claiming_of_effect heff hclaiming with hold | ⟨c, req, heq, hc, hsession, hnone⟩
      · exact hold
      · exact absurd ⟨c, req, device, heq, hc, hsession ▸ hnone⟩ hread

/-- A claim that loses its `UPDATE` finds a claim: its own, if reads stay apart. -/
theorem lost_to {factory : SessionFactory} {w : World δ} (h : Inv factory w)
    {c : Nat} {req : Request δ} {device : δ} {sess : Session δ}
    (hc : w.calls c = .claimUpdate req device sess)
    (hlost : w.sessions req.session = none ∨ ∃ other, w.claimed req.session = some other) :
    w.claimed req.session = some device ∨
      factory.expireOnCommit = true ∧ ∃ other, w.claimed req.session = some other := by
  rcases hlost with hgone | ⟨other, hother⟩
  · exact absurd hgone (h.held c req device sess hc)
  · rcases h.exclusive with hexpire | hexclusive
    · exact .inr ⟨hexpire, other, hother⟩
    · have hmine : device = other := hexclusive.free ⟨c, req, sess, hc, rfl⟩ hother
      exact .inl (hmine ▸ hother)

/-- **One step.** -/
theorem inv_step {svc : Service} {w w' : World δ} {a : Act δ} (h : Inv svc.factory w)
    (hact : svc.factory.expireOnCommit = true ∨ Apart w a) (heff : Effect svc w a w') :
    Inv svc.factory w' where
  passed := by
    rintro session device (⟨c, req, hc, rfl⟩ | hobtained)
    · rcases call_of_effect heff c with hcall | hcall | hcame
      · exact claim_kept heff (h.passed _ device (.inl ⟨c, req, hcall ▸ hc, rfl⟩))
      · rw [hcall] at hc
        cases hc
      · rw [hc] at hcame
        cases hcame with
        | own req device hread hown => exact claim_kept heff hown
        | won req device sess hclaim hclaimed => exact hclaimed
        | passed req device sess hreread hnot =>
            exact claim_kept heff (claimed_of_passed h hreread hnot)
    · exact claim_kept heff (h.passed session device (obtained_of_effect heff hobtained))
  lost := by
    intro c req device sess hc
    have hkept : (w.claimed req.session = some device ∨
        svc.factory.expireOnCommit = true ∧ ∃ other, w.claimed req.session = some other) →
        w'.claimed req.session = some device ∨
          svc.factory.expireOnCommit = true ∧ ∃ other, w'.claimed req.session = some other := by
      rintro (hown | ⟨hexpire, other, hother⟩)
      · exact .inl (claim_kept heff hown)
      · exact .inr ⟨hexpire, other, claim_kept heff hother⟩
    rcases call_of_effect heff c with hcall | hcall | hcame
    · exact hkept (h.lost c req device sess (hcall ▸ hc))
    · rw [hcall] at hc
      cases hc
    · rw [hc] at hcame
      cases hcame with
      | lost req device sess hclaim hlost => exact hkept (lost_to h hclaim hlost)
  held := by
    intro c req device sess hc
    rcases call_of_effect heff c with hcall | hcall | hcame
    · exact session_kept heff (h.held c req device sess (hcall ▸ hc))
    · rw [hcall] at hc
      cases hc
    · rw [hc] at hcame
      cases hcame with
      | unclaimed req device sess hread hsess hnone =>
          refine session_kept heff ?_
          rw [hsess]
          exact Option.some_ne_none sess
  exclusive := by
    rcases h.exclusive with hexpire | hexclusive
    · exact .inl hexpire
    · rcases hact with hexpire | hact
      · exact .inl hexpire
      · exact .inr (exclusive_step hexclusive hact heff)

theorem Inv.oneWinner {factory : SessionFactory} {w : World δ} (h : Inv factory w)
    (session : Str) : OneWinner w session := by
  intro device device' hobtained hobtained'
  have hclaimed := h.passed session device (.inr hobtained)
  have hclaimed' := h.passed session device' (.inr hobtained')
  rw [hclaimed] at hclaimed'
  exact Option.some.inj hclaimed'

/-! ## Runs -/

/-- Over the whole run no claim changes, and at its end one device at most has obtained each
session. -/
def Exactly (svc : Service) (acts : List (Act δ)) (w : World δ) : Prop :=
  Along (step svc) (fun w _ w' => ClaimsKept w w') World.start acts ∧
    ∀ session, OneWinner w session

theorem exactly_of_guarded {svc : Service} {acts : List (Act δ)} {w : World δ}
    (h : Guarded (step svc) (fun w a => svc.factory.expireOnCommit = true ∨ Apart w a)
      World.start acts)
    (hrun : run (step svc) World.start acts = some w) : Exactly svc acts w := by
  have hstep : ∀ (w : World δ) a w', Inv svc.factory w →
      (svc.factory.expireOnCommit = true ∨ Apart w a) → step svc w a = some w' →
        ClaimsKept w w' ∧ Inv svc.factory w' := by
    intro w a w' hinv hact hs
    have heff := effect_of_step hs
    exact ⟨fun session device hclaimed => claim_kept heff hclaimed, inv_step hinv hact heff⟩
  refine ⟨along_of_guarded _ (Inv svc.factory) hstep (inv_start svc.factory) h, fun session => ?_⟩
  have hinv := inv_of_guarded _ (Inv svc.factory)
    (fun w a w' hinv hact hs => (hstep w a w' hinv hact hs).2) (inv_start svc.factory) h hrun
  exact hinv.oneWinner session

/-- **One device obtains a session**, in every run whose reads stay apart. -/
theorem one_winner {svc : Service} {acts : List (Act δ)} {w : World δ}
    (h : Guarded (step svc) Apart World.start acts)
    (hrun : run (step svc) World.start acts = some w) : Exactly svc acts w :=
  exactly_of_guarded (guarded_mono _ (fun _ _ hact => .inr hact) h) hrun

/-- Only request `c` is under way. -/
def Solo (c : Nat) (w : World δ) : Prop := ∀ c', c' ≠ c → w.calls c' = .idle

omit [DecidableEq δ] in
/-- A request that is alone keeps apart. -/
theorem apart_of_solo {c : Nat} {w : World δ} {a : Act δ} (hw : Solo c w)
    (ha : a.caller = none ∨ a.caller = some c) : Apart w a := by
  cases a with
  | select c₁ =>
      have hc₁ : c₁ = c := ha.elim nofun Option.some.inj
      subst hc₁
      intro req device hread c' req' device' sess hclaim _
      by_cases hne : c' = c₁
      · rw [hne, hread] at hclaim
        cases hclaim
      · rw [hw c' hne] at hclaim
        cases hclaim
  | wait | createSession | trashSession | renewSession | apiUpload | validate | update | put
  | error => trivial

theorem solo_step {svc : Service} {w w' : World δ} {a : Act δ} {c : Nat} (hw : Solo c w)
    (ha : a.caller = none ∨ a.caller = some c) (hs : step svc w a = some w') : Solo c w' := by
  intro c' hc'
  rcases call_of_effect (effect_of_step hs) c' with hcall | hcall | hcame
  · rw [hcall]
    exact hw c' hc'
  · exact hcall
  · rw [hcame.caller] at ha
    exact absurd (ha.elim nofun Option.some.inj) hc'

/-- A guard that stops no request that is alone lets every run of one request pass. -/
theorem guarded_of_solo {svc : Service} {guard : World δ → Act δ → Prop} {c : Nat}
    (hguard : ∀ w a, Solo c w → (a.caller = none ∨ a.caller = some c) → guard w a)
    {acts : List (Act δ)} {w : World δ} (hw : Solo c w)
    (hacts : ∀ a ∈ acts, a.caller = none ∨ a.caller = some c) :
    Guarded (step svc) guard w acts :=
  guarded_of_inv (step svc) (Solo c) _ hguard (fun _ _ _ hw ha hs => solo_step hw ha hs) hw hacts

/-- A request of a device for session `q`, up to its claim. -/
def asking (c device : Nat) : List (Act Nat) :=
  [.apiUpload c ['q'] none, .select c, .validate c (.ok (some device)), .select c]

/-- A device uploads to a session, and then another one asks for it. -/
def inTurn : List (Act Nat) :=
  .createSession ['q'] ['c'] 5 60 0 :: asking 0 0 ++
    [.update 0, .update 0, .put 0, .select 0, .update 0] ++ asking 0 1

theorem one_of_two : ∃ w, run (step .standard) World.start inTurn = some w ∧
    w.attempts = [.claim ⟨0, ['q'], some 1, .claimedByOtherDevice⟩,
      .claim ⟨0, ['q'], some 0, .ok⟩] ∧
        Exactly .standard inTurn w := by
  obtain ⟨w, hw⟩ : ∃ w, run (step .standard) World.start inTurn = some w := ⟨_, rfl⟩
  have hattempts : (run (step .standard) World.start inTurn).map (·.attempts) =
      some [.claim ⟨0, ['q'], some 1, .claimedByOtherDevice⟩,
        .claim ⟨0, ['q'], some 0, .ok⟩] := by decide
  rw [hw] at hattempts
  have hcaller : ∀ a ∈ inTurn, a.caller = none ∨ a.caller = some 0 := by decide
  exact ⟨w, hw, Option.some.inj hattempts,
    one_winner (guarded_of_solo (fun _ _ => apart_of_solo) (fun _ _ => rfl) hcaller) hw⟩

/-- **With `expire_on_commit=True`** every run is so: the second read shows the claim. -/
theorem one_winner_of_expiring {svc : Service} (hexpire : svc.factory.expireOnCommit = true)
    {acts : List (Act δ)} {w : World δ} (hrun : run (step svc) World.start acts = some w) :
    Exactly svc acts w :=
  exactly_of_guarded (guarded_of_forall _ fun _ _ => .inl hexpire) hrun

/-- Two claims that cross: both read the session before either claims it. -/
def crossing : List (Act Nat) :=
  .createSession ['q'] ['c'] 5 60 0 :: asking 0 0 ++ asking 1 1 ++
    [.update 0, .update 0, .update 1, .select 1, .update 1]

/-- **Two winners.** -/
theorem two_winners : ¬∀ acts w,
    run (step .standard) (World.start : World Nat) acts = some w → Exactly .standard acts w := by
  intro h
  obtain ⟨w, hw⟩ : ∃ w, run (step .standard) World.start crossing = some w := ⟨_, rfl⟩
  have hattempts : (run (step .standard) World.start crossing).map (·.attempts) =
      some [.claim ⟨1, ['q'], some 1, .ok⟩, .claim ⟨0, ['q'], some 0, .ok⟩] := by decide
  rw [hw] at hattempts
  have hattempts : w.attempts = _ := Option.some.inj hattempts
  have hfirst : Obtained w ['q'] 0 := ⟨0, by rw [hattempts]; decide⟩
  have hsecond : Obtained w ['q'] 1 := ⟨1, by rw [hattempts]; decide⟩
  exact absurd ((h crossing w hw).2 ['q'] 0 1 hfirst hsecond) (by decide)

end MesReunions.Upload
