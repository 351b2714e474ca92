import MesReunions.Devices.Reads

/-!
# Rebinds

`enroll_device` gives a confirmed row with the same fingerprint to a new key, and signs a token
for it. A token carries no key, and `validate_device` compares none.

* `AdmitsRow` — what `validate_device` checks of a row.
* **`accepted_iff`** — a validation that is served alone is accepted when the checks pass.
* `Rotates` — after a rebind, the tokens signed before it are refused, and its own is accepted.
* **`rotates_iff`** — when each of those tokens is past its own retention.
* **`old_token_accepted`** — the token of the old key is accepted after the rebind.
-/

namespace MesReunions.Devices

open TSys

/-! ## Statements -/

/-- What `validate_device` checks of a row: it is not revoked, its retention and its QR code are
not over, and no other device owns the QR code of a row that is pending. -/
structure AdmitsRow (w : World) (d : Device) : Prop where
  status : d.status ≠ .revoked
  retention : ¬ d.retentionExpiresAt < w.now
  code : ∃ code, w.code d.qrToken = some code ∧ ¬ code.expiresAt < w.now
  sole : d.status = .pending →
    ∀ x ∈ w.devices, x.qrToken = d.qrToken → x.confirmed = true → x.id = d.id

/-- The retention of a token is not over. -/
def Unexpired (w : World) (tok : DeviceToken) : Prop :=
  ¬ (tok.retentionUntil ≠ 0 ∧ tok.retentionUntil < w.now)

/-- A validation of request `c`, with `n` queries. -/
def rowValidating (c n : Nat) (tok : DeviceToken) : List Act :=
  .request c (.validateDevice tok) :: (List.replicate n (.query c none) ++ [.commit c])

/-- `validate_device` accepts the token, when it is served alone. -/
def Accepted (cfg : Config) (c : Nat) (w : World) (tok : DeviceToken) : Prop :=
  ∃ n w' status refreshed, run (step cfg) w (rowValidating c n tok) = some w' ∧
    w'.log = (c, .valid tok status refreshed) :: w.log

/-- No validation that starts after `w` accepts the token on the way to `w'`. -/
def RefusedLater (tok : DeviceToken) (w w' : World) : Prop :=
  ∃ new, w'.log = new ++ w.log ∧
    ∀ e ∈ new, e.2.accepts tok → (w.calls e.1).shown = some tok

/-- The rebind that request `c` is about to commit rotates the access to the row: no token signed
for it before is accepted by a validation that starts after it, and its own token is. -/
def Rotates (cfg : Config) (c : Nat) (w : World) : Prop :=
  ∀ req now rec d w₁, w.calls c = .enrollUpdate req now rec .rebindFp →
    w.device rec.id = some d → step cfg w (.commit c) = some w₁ →
      (∀ tok ∈ w.signed, tok.deviceId = rec.id → ∀ acts w₂,
        run (step cfg) w₁ acts = some w₂ → RefusedLater tok w₁ w₂) ∧
      Accepted cfg c w₁ (enrolledToken cfg now w.now rec)

/-! ## A validation, alone -/

section Alone

variable {cfg : Config} {w w' : World} {c : Nat}

/-- A request that is over has nothing to query or commit. -/
theorem idle_stuck (hidle : w.calls c = .idle) (n : Nat) :
    run (step cfg) w (List.replicate n (.query c none) ++ [.commit c]) = none := by
  cases n with
  | zero => simp [run, step, hidle, World.commit]
  | succ n => simp [List.replicate_succ, run, step, hidle, World.query]

/-- A request commits, or its query leads on. -/
theorem run_queries {n : Nat}
    (h : run (step cfg) w (List.replicate n (.query c none) ++ [.commit c]) = some w') :
    n = 0 ∧ w.commit cfg c (w.calls c) = some w' ∨
      ∃ m p, n = m + 1 ∧ w.query cfg none (w.calls c) = some (.inl p) ∧
        run (step cfg) (w.proceed c (.inl p))
          (List.replicate m (.query c none) ++ [.commit c]) = some w' := by
  cases n with
  | zero =>
      refine .inl ⟨rfl, ?_⟩
      simp only [List.replicate_zero, List.nil_append, run, step] at h
      split at h
      · cases h
      · rename_i w₁ hcommit
        cases h
        exact hcommit
  | succ m =>
      simp only [List.replicate_succ, List.cons_append, run, step] at h
      split at h
      · cases h
      · rename_i w₁ hquery
        obtain ⟨next, hnext, rfl⟩ := Option.map_eq_some_iff.mp hquery
        cases next with
        | inl p => exact .inr ⟨m, p, rfl, hnext, h⟩
        | inr answer =>
            rw [idle_stuck (Function.update_self ..)] at h
            cases h

theorem run_deviceQuery {p : Phase} (hquery : w.query cfg none (w.calls c) = some (.inl p)) (n : Nat) :
    run (step cfg) w (List.replicate (n + 1) (.query c none) ++ [.commit c]) =
      run (step cfg) (w.proceed c (.inl p)) (List.replicate n (.query c none) ++ [.commit c]) := by
  simp only [List.replicate_succ, List.cons_append, run, step, hquery, Option.map_some]

theorem run_commit (hcommit : w.commit cfg c (w.calls c) = some w') :
    run (step cfg) w (List.replicate 0 (.query c none) ++ [.commit c]) = some w' := by
  simp only [List.replicate_zero, List.nil_append, run, step, hcommit]

/-- What `validate_device` checks before its first statement. -/
def Presented (w : World) (tok : DeviceToken) : Prop :=
  tok ∈ w.signed ∧ Str.strip tok.qrToken ≠ [] ∧ Unexpired w tok

theorem begin_validate_iff {tok : DeviceToken} {next : Phase ⊕ Answer}
    (h : validateDevice w.signed w.now tok = next) :
    next = .inl (.validateDevice tok) ∧ Presented w tok ∨
      (∃ answer, next = .inr answer) ∧ ¬ Presented w tok := by
  subst h
  unfold validateDevice
  by_cases hmem : tok ∈ w.signed
  · rw [if_neg (not_not.mpr hmem)]
    by_cases hqr : Str.strip tok.qrToken = []
    · rw [if_pos hqr]
      exact .inr ⟨⟨_, rfl⟩, fun hp => hp.2.1 hqr⟩
    · rw [if_neg hqr]
      by_cases hret : tok.retentionUntil ≠ 0 ∧ tok.retentionUntil < w.now
      · rw [if_pos hret]
        exact .inr ⟨⟨_, rfl⟩, fun hp => hp.2.2 hret⟩
      · rw [if_neg hret]
        exact .inl ⟨rfl, hmem, hqr, hret⟩
  · rw [if_pos hmem]
    exact .inr ⟨⟨_, rfl⟩, fun hp => hmem hp.1⟩

/-- The reads of a validation that leads on are its checks. -/
theorem query_validate_iff {tok : DeviceToken} {p : Phase} :
    w.query cfg none (.validateDevice tok) = some (.inl p) ↔
      ∃ d, w.device tok.deviceId = some d ∧ d.status ≠ .revoked ∧
        d.qrToken = Str.strip tok.qrToken ∧ ¬ d.retentionExpiresAt < w.now ∧
        p = .validateCode tok d w.now := by
  simp only [World.query, Option.some.injEq]
  cases w.device tok.deviceId with
  | none => simp
  | some d =>
      simp only [Option.some.injEq]
      constructor
      · intro h
        (repeat' split at h) <;> first | (cases h; done) | skip
        rename_i hstatus hqr hret
        cases h
        exact ⟨d, rfl, hstatus, not_not.mp hqr, hret, rfl⟩
      · rintro ⟨d', rfl, hstatus, hqr, hret, rfl⟩
        rw [if_neg hstatus, if_neg (not_not.mpr hqr), if_neg hret]

theorem query_code_iff {tok : DeviceToken} {rec : Device} {now : Nat} {p : Phase} :
    w.query cfg none (.validateCode tok rec now) = some (.inl p) ↔
      (∃ code, w.code (Str.strip tok.qrToken) = some code ∧ ¬ code.expiresAt < now) ∧
        (rec.status = .pending ∧ p = .validateOther tok rec now ∨
          rec.status ≠ .pending ∧ p = .validateCommit tok rec now) := by
  simp only [World.query, Option.some.injEq]
  cases w.code (Str.strip tok.qrToken) with
  | none => simp
  | some code =>
      by_cases hexp : code.expiresAt < now
      · simp [hexp]
      · by_cases hstatus : rec.status = .pending
        · simp [hexp, not_lt.mp hexp, hstatus, eq_comm]
        · simp [hexp, not_lt.mp hexp, hstatus, eq_comm]

theorem query_other_iff {tok : DeviceToken} {rec : Device} {now : Nat} {p : Phase} :
    w.query cfg none (.validateOther tok rec now) = some (.inl p) ↔
      (∀ x ∈ w.devices, x.qrToken = Str.strip tok.qrToken → x.confirmed = true → x.id = rec.id) ∧
        p = .validateCommit tok rec now := by
  simp only [World.query, Option.some.injEq]
  split
  · rename_i hany
    obtain ⟨x, hx, hp⟩ := List.any_eq_true.mp hany
    simp only [Bool.and_eq_true, beq_iff_eq, bne_iff_ne] at hp
    constructor
    · intro h
      cases h
    · intro h
      exact absurd (h.1 x hx hp.1.1 hp.1.2) hp.2
  · rename_i hany
    constructor
    · intro h
      cases h
      refine ⟨fun x hx hqr hconfirmed => ?_, rfl⟩
      by_contra hne
      refine hany (List.any_eq_true.mpr ⟨x, hx, ?_⟩)
      simp [hqr, hconfirmed, hne]
    · rintro ⟨-, rfl⟩
      rfl

/-- The commit of a validation whose row is there. -/
theorem commit_validate (cfg : Config) (tok : DeviceToken) (now : Nat) {rec d : Device}
    (hd : w.device rec.id = some d) :
    ∃ w₁ status refreshed, w.commit cfg c (.validateCommit tok rec now) = some w₁ ∧
      w₁.log = (c, .valid tok status refreshed) :: w.log := by
  refine ⟨_, if rec.status = .pending then .active else rec.status, tok.refreshed rec, rfl, ?_⟩
  simp only [World.update, hd]
  rfl

/-- **A validation that is served alone.** -/
theorem accepted_iff (hidle : w.calls c = .idle) {tok : DeviceToken} :
    Accepted cfg c w tok ↔ Presented w tok ∧
      ∃ d, w.device tok.deviceId = some d ∧ d.qrToken = Str.strip tok.qrToken ∧ AdmitsRow w d := by
  have hasked : ∀ n, run (step cfg) w (rowValidating c n tok) =
      run (step cfg) (w.proceed c (validateDevice w.signed w.now tok))
        (List.replicate n (.query c none) ++ [.commit c]) := by
    intro n
    simp only [rowValidating, run, step, hidle]
    rfl
  constructor
  · rintro ⟨n, w', status, refreshed, hrun, -⟩
    rw [hasked] at hrun
    rcases begin_validate_iff (w := w) rfl with ⟨hnext, hpresented⟩ | ⟨⟨answer, hnext⟩, -⟩
    · refine ⟨hpresented, ?_⟩
      rw [hnext] at hrun
      -- the row
      rcases run_queries hrun with ⟨-, hcommit⟩ | ⟨n, p, -, hquery, hrun⟩
      · rw [proceed_calls] at hcommit
        cases hcommit
      rw [proceed_calls] at hquery
      obtain ⟨d, hd, hstatus, hqr, hret, rfl⟩ := query_validate_iff.mp hquery
      -- the QR code
      rcases run_queries hrun with ⟨-, hcommit⟩ | ⟨n, p, -, hquery, hrun⟩
      · rw [proceed_calls] at hcommit
        cases hcommit
      rw [proceed_calls] at hquery
      obtain ⟨hcode, hnext⟩ := query_code_iff.mp hquery
      have hcode' : ∃ code, w.code d.qrToken = some code ∧ ¬ code.expiresAt < w.now := by
        rw [hqr]
        exact hcode
      rcases hnext with ⟨hpending, rfl⟩ | ⟨hnot, rfl⟩
      · -- the other devices
        rcases run_queries hrun with ⟨-, hcommit⟩ | ⟨n, p, -, hquery, hrun⟩
        · rw [proceed_calls] at hcommit
          cases hcommit
        rw [proceed_calls] at hquery
        obtain ⟨hsole, -⟩ := query_other_iff.mp hquery
        refine ⟨d, hd, hqr, hstatus, hret, hcode', fun _ x hx hxqr hconfirmed => ?_⟩
        exact hsole x hx (hxqr.trans hqr) hconfirmed
      · exact ⟨d, hd, hqr, hstatus, hret, hcode', fun hpending => absurd hpending hnot⟩
    · rw [hnext, idle_stuck (Function.update_self ..)] at hrun
      cases hrun
  · rintro ⟨hpresented, d, hd, hqr, hadmits⟩
    have hbegin : validateDevice w.signed w.now tok = .inl (.validateDevice tok) := by
      rcases begin_validate_iff (w := w) rfl with ⟨hnext, -⟩ | ⟨-, hnot⟩
      · exact hnext
      · exact absurd hpresented hnot
    have hcode : ∃ code, w.code (Str.strip tok.qrToken) = some code ∧ ¬ code.expiresAt < w.now := by
      rw [← hqr]
      exact hadmits.code
    have hfirst : ∀ n, run (step cfg) w (rowValidating c (n + 1) tok) =
        run (step cfg) (w.proceed c (.inl (.validateDevice tok)) |>.proceed c
          (.inl (.validateCode tok d w.now))) (List.replicate n (.query c none) ++ [.commit c]) := by
      intro n
      rw [hasked, hbegin]
      refine run_deviceQuery ?_ n
      rw [proceed_calls]
      exact query_validate_iff.mpr ⟨d, hd, hadmits.status, hqr, hadmits.retention, rfl⟩
    have hrec : w.device d.id = some d := by
      rw [show d.id = tok.deviceId from by simpa using List.find?_some hd]
      exact hd
    by_cases hpending : d.status = .pending
    · obtain ⟨w₁, status, refreshed, hcommit, hlog⟩ := commit_validate (c := c) cfg tok w.now
        (w := ((w.proceed c (.inl (.validateDevice tok))).proceed c
          (.inl (.validateCode tok d w.now))).proceed c (.inl (.validateOther tok d w.now)) |>.proceed
            c (.inl (.validateCommit tok d w.now))) hrec
      refine ⟨3, w₁, status, refreshed, ?_, hlog⟩
      rw [hfirst, run_deviceQuery (p := .validateOther tok d w.now), run_deviceQuery
        (p := .validateCommit tok d w.now)]
      · refine run_commit ?_
        rw [proceed_calls]
        exact hcommit
      · rw [proceed_calls]
        refine query_other_iff.mpr ⟨fun x hx hxqr hconfirmed => ?_, rfl⟩
        exact hadmits.sole hpending x hx (hxqr.trans hqr.symm) hconfirmed
      · rw [proceed_calls]
        exact query_code_iff.mpr ⟨hcode, .inl ⟨hpending, rfl⟩⟩
    · obtain ⟨w₁, status, refreshed, hcommit, hlog⟩ := commit_validate (c := c) cfg tok w.now
        (w := ((w.proceed c (.inl (.validateDevice tok))).proceed c
          (.inl (.validateCode tok d w.now))).proceed c (.inl (.validateCommit tok d w.now)))
        hrec
      refine ⟨2, w₁, status, refreshed, ?_, hlog⟩
      rw [hfirst, run_deviceQuery (p := .validateCommit tok d w.now)]
      · refine run_commit ?_
        rw [proceed_calls]
        exact hcommit
      · rw [proceed_calls]
        exact query_code_iff.mpr ⟨hcode, .inr ⟨hpending, rfl⟩⟩

end Alone

/-! ## A token that is over -/

theorem now_mono {cfg : Config} {w w' : World} {a : Act} (hs : step cfg w a = some w') :
    w.now ≤ w'.now := by
  have hproceed : ∀ (v : World) (c : Nat) (next : Phase ⊕ Answer),
      (v.proceed c next).now = v.now := by
    intro v c next
    cases next <;> rfl
  cases a with
  | wait seconds =>
      cases hs
      exact Nat.le_add_right ..
  | issueToken | purgeToken =>
      simp only [step] at hs
      (repeat' split at hs) <;> cases hs <;> exact Nat.le_refl _
  | listDevices =>
      cases hs
      exact Nat.le_refl _
  | request c req =>
      simp only [step] at hs
      split at hs
      · cases hs
        exact Nat.le_of_eq (hproceed ..).symm
      · cases hs
  | query c pick =>
      obtain ⟨next, -, rfl⟩ := Option.map_eq_some_iff.mp hs
      exact Nat.le_of_eq (hproceed ..).symm
  | commit c =>
      have hs : w.commit cfg c (w.calls c) = some w' := hs
      unfold World.commit World.update at hs
      (repeat' split at hs) <;> cases hs <;> exact Nat.le_refl _
  | fail c =>
      have hs : w.fail c (w.calls c) = some w' := hs
      unfold World.fail at hs
      split at hs <;> cases hs <;> exact Nat.le_refl _

/-- A validation under way has been so since `w`. -/
structure Waning (tok : DeviceToken) (w w' : World) : Prop where
  now : w.now ≤ w'.now
  shown : ∀ c, (w'.calls c).shown = some tok → (w.calls c).shown = some tok
  refused : RefusedLater tok w w'

/-- A token that is over is refused at the start. -/
theorem waning_step {cfg : Config} {tok : DeviceToken} {w w₁ w₂ : World} {a : Act}
    (hover : ¬ Unexpired w tok) (h : Waning tok w w₁) (hs : step cfg w₁ a = some w₂) :
    Waning tok w w₂ where
  now := h.now.trans (now_mono hs)
  shown := by
    intro c hshown
    rcases call_of_effect (effect_of_step hs) c with hcall | hcall | hcame
    · exact h.shown c (hcall ▸ hshown)
    · rw [hcall] at hshown
      cases hshown
    · generalize w₂.calls c = p at hcame hshown
      cases hcame with
      | asked req p hp =>
          exfalso
          cases req with
          | validateDevice tok' =>
              rcases begin_validate_iff (w := w₁) hp with
                ⟨hnext, hpresented⟩ | ⟨⟨answer, hnext⟩, -⟩
              · cases hnext
                cases hshown
                refine hover fun hend => hpresented.2.2 ⟨hend.1, ?_⟩
                exact Nat.lt_of_lt_of_le hend.2 h.now
              · cases hnext
          | enrollDevice | revokeDevice | deleteDevice | revokeAllDevices | extendToken
          | deleteSession =>
              simp only [World.begin, enrollDevice] at hp
              split at hp <;> cases hp <;> cases hshown
      | read pick p hp => exact h.shown c (shown_of_reads (reads_of_query hp) hshown)
      | purged a req hc => cases hshown
  refused := by
    obtain ⟨new, hlog, hnew⟩ := h.refused
    obtain ⟨new', hlog', hnew'⟩ := log_of_effect (effect_of_step hs)
    refine ⟨new' ++ new, by rw [hlog', hlog, List.append_assoc], fun e he hacc => ?_⟩
    rcases List.mem_append.mp he with he | he
    · obtain ⟨rec, now, d, hcall, -⟩ := hnew' e he tok hacc
      exact h.shown e.1 (by rw [hcall]; rfl)
    · exact hnew e he hacc

/-- **A token that is over** is refused by every later validation. -/
theorem refusedLater_of_over {cfg : Config} {tok : DeviceToken} {w w' : World} {acts : List Act}
    (hover : ¬ Unexpired w tok) (hrun : run (step cfg) w acts = some w') : RefusedLater tok w w' :=
  (inv_of_guarded (step cfg) (Waning tok w) (fun _ _ _ h _ hs => waning_step hover h hs)
    ⟨Nat.le_refl _, fun _ h => h, [], rfl, fun _ he => absurd he List.not_mem_nil⟩
    (guarded_of_forall _ fun (_ : World) (_ : Act) => trivial) hrun).refused

/-! ## What an enrolment asks for -/

/-- The enrolment a request is about. -/
def Phase.asking : Phase → Option Enrollment
  | .purgePending req => some req
  | .enrollCode req _ => some req
  | .enrollSameKey req _ _ => some req
  | .enrollFusion req _ _ => some req
  | .enrollRebind req _ _ => some req
  | .enrollConfirmed req _ _ => some req
  | .enrollUpdate req _ _ _ => some req
  | .enrollInsert req _ _ => some req
  | _ => none

theorem asking_of_reads {w : World} {p p' : Phase} (h : Reads w p p') {req : Enrollment}
    (hreq : p'.asking = some req) : p.asking = some req := by
  cases h with
  | otherKey req now code p hnone hnext => rcases hnext with rfl | rfl <;> exact hreq
  | owned p p' rec hrec hnext => rcases hnext with rfl | rfl <;> cases hreq
  | code p p' code hnext => rcases hnext with ⟨_, _, rfl⟩ | rfl <;> cases hreq
  | validateDevice | validatePending | validateActive | validateOther => cases hreq
  | enrollCode | sameKey | fused | unfused | rebound | unbound | unowned => exact hreq

/-- The QR code that is asked for has no blanks around it. -/
def Trimmed (w : World) : Prop :=
  ∀ c req, (w.calls c).asking = some req → Str.strip req.qrToken = req.qrToken ∧ req.qrToken ≠ []

theorem trimmed_step {cfg : Config} {w w' : World} {a : Act} (h : Trimmed w)
    (hs : step cfg w a = some w') : Trimmed w' := by
  intro c req hreq
  rcases call_of_effect (effect_of_step hs) c with hcall | hcall | hcame
  · exact h c req (hcall ▸ hreq)
  · rw [hcall] at hreq
    cases hreq
  · generalize w'.calls c = p at hcame hreq
    cases hcame with
    | asked r p hp =>
        cases r with
        | enrollDevice req' =>
            simp only [World.begin, enrollDevice] at hp
            split at hp
            · cases hp
            · rename_i hne
              cases hp
              cases hreq
              exact ⟨Str.strip_strip _, fun hnil => hne (.inl hnil)⟩
        | validateDevice | revokeDevice | deleteDevice | revokeAllDevices | extendToken
        | deleteSession =>
            simp only [World.begin, validateDevice] at hp
            (repeat' split at hp) <;> cases hp <;> cases hreq
    | read pick p hp => exact h c req (asking_of_reads (reads_of_query hp) hreq)
    | purged a req' hc =>
        cases hreq
        exact h c req (by rw [hc]; rfl)

theorem trimmed_of_run {cfg : Config} {acts : List Act} {w : World}
    (hrun : run (step cfg) World.start acts = some w) : Trimmed w :=
  inv_of_guarded (step cfg) Trimmed (fun _ _ _ h _ hs => trimmed_step h hs)
    (fun _ _ hreq => by cases hreq)
    (guarded_of_forall _ fun (_ : World) (_ : Act) => trivial) hrun

/-! ## The rebind -/

theorem find?_updateWhere (id : Nat) {f : Device → Device} (hf : ∀ d, (f d).id = d.id)
    (rows : List Device) :
    (updateWhere (·.id == id) f rows).find? (·.id == id) = (rows.find? (·.id == id)).map f := by
  induction rows with
  | nil => rfl
  | cons d rows ih =>
      have hcons : updateWhere (·.id == id) f (d :: rows) =
          (if (d.id == id) = true then f d else d) :: updateWhere (·.id == id) f rows := rfl
      rw [hcons]
      by_cases hd : (d.id == id) = true
      · simp [hf, hd]
      · simp only [List.find?_cons, hd, ih, Bool.false_eq_true, if_false]

/-- The state after a rebind. -/
structure ReboundTo (cfg : Config) (c : Nat) (w : World) (req : Enrollment) (now : Nat)
    (rec d : Device) (w₁ : World) : Prop where
  idle : w₁.calls c = .idle
  clock : w₁.now = w.now
  code : ∀ qrToken, w₁.code qrToken = w.code qrToken
  signed : w₁.signed = enrolledToken cfg now w.now rec :: w.signed
  device : w₁.device rec.id = some (d.reenrolled rec cfg req now .rebindFp)
  others : ∀ x, x.id ≠ rec.id → (x ∈ w₁.devices ↔ x ∈ w.devices)

theorem rebound_of_commit {cfg : Config} {c : Nat} {w w₁ : World} {req : Enrollment} {now : Nat}
    {rec d : Device} (hc : w.calls c = .enrollUpdate req now rec .rebindFp)
    (hd : w.device rec.id = some d) (hs : step cfg w (.commit c) = some w₁) :
    ReboundTo cfg c w req now rec d w₁ := by
  simp only [step, hc, World.commit, World.update, hd, Option.some.injEq] at hs
  subst hs
  refine ⟨Function.update_self .., rfl, fun _ => rfl, rfl, ?_, fun x hx => ?_⟩
  · have hfind := find?_updateWhere rec.id
      (f := fun x => x.reenrolled rec cfg req now .rebindFp) (fun _ => rfl) w.devices
    rw [show w.devices.find? (·.id == rec.id) = some d from hd] at hfind
    exact hfind
  · show x ∈ updateWhere (·.id == rec.id) (·.reenrolled rec cfg req now .rebindFp) w.devices ↔ _
    have hne : ¬ (x.id == rec.id) = true := fun h => hx (eq_of_beq h)
    constructor
    · intro hmem
      obtain ⟨y, hy, heq⟩ := List.mem_map.mp hmem
      split at heq
      · rename_i hid
        exact absurd (by rw [← heq]; exact eq_of_beq hid) hx
      · rw [← heq]
        exact hy
    · exact fun hmem => List.mem_map.mpr ⟨x, hmem, if_neg hne⟩

/-- The checks of the row come to the same before and after its rebind. -/
theorem admits_rebound {cfg : Config} {c : Nat} {w w₁ : World} {req : Enrollment} {now : Nat}
    {rec d x : Device} (h : ReboundTo cfg c w req now rec d w₁) (hx : x.id = rec.id) :
    AdmitsRow w₁ x ↔ AdmitsRow w x := by
  have hsole : (∀ y ∈ w₁.devices, y.qrToken = x.qrToken → y.confirmed = true → y.id = x.id) ↔
      ∀ y ∈ w.devices, y.qrToken = x.qrToken → y.confirmed = true → y.id = x.id := by
    constructor
    · intro hall y hy hqr hconfirmed
      by_contra hne
      exact hne (hall y ((h.others y (hx ▸ hne)).mpr hy) hqr hconfirmed)
    · intro hall y hy hqr hconfirmed
      by_contra hne
      exact hne (hall y ((h.others y (hx ▸ hne)).mp hy) hqr hconfirmed)
  constructor
  · intro ha
    refine ⟨ha.status, h.clock ▸ ha.retention, ?_, fun hpending => hsole.mp (ha.sole hpending)⟩
    rw [← h.clock, ← h.code]
    exact ha.code
  · intro ha
    refine ⟨ha.status, h.clock.symm ▸ ha.retention, ?_, fun hpending => hsole.mpr (ha.sole hpending)⟩
    rw [h.clock, h.code]
    exact ha.code

theorem unexpired_rebound {cfg : Config} {c : Nat} {w w₁ : World} {req : Enrollment} {now : Nat}
    {rec d : Device} (h : ReboundTo cfg c w req now rec d w₁) (tok : DeviceToken) :
    Unexpired w₁ tok ↔ Unexpired w tok := by
  unfold Unexpired
  rw [h.clock]

/-- **A rebind rotates the access** to its row when each token that was signed for the row is past
its own retention by then, and the row is one that `validate_device` admits. -/
theorem rotates_iff {cfg : Config} {acts : List Act} {w : World} {c now : Nat} {req : Enrollment}
    {rec d : Device} (hrun : run (step cfg) World.start acts = some w)
    (hc : w.calls c = .enrollUpdate req now rec .rebindFp) (hd : w.device rec.id = some d) :
    Rotates cfg c w ↔
      (∀ tok ∈ w.signed, tok.deviceId = rec.id → ¬ Unexpired w tok) ∧
        Unexpired w (enrolledToken cfg now w.now rec) ∧
        AdmitsRow w (d.reenrolled rec cfg req now .rebindFp) := by
  obtain ⟨f, hborn⟩ := born_of_run hrun
  obtain ⟨hstrip, hne⟩ := trimmed_of_run hrun c req (by rw [hc]; rfl)
  have hrecQr : rec.qrToken = req.qrToken := by
    have hsound := hborn.sound c
    rw [hc] at hsound
    exact hsound
  have hid : d.id = rec.id := by simpa using List.find?_some hd
  have horigin : f rec.id = rec.origin := (hborn.loaded c rec (by rw [hc]; rfl)).2
  have hdQr : d.qrToken = rec.qrToken := by
    have hdo := (hborn.device d (List.mem_of_find?_eq_some hd)).2
    rw [hid, horigin] at hdo
    exact (congrArg Origin.qrToken hdo).symm
  -- the step that rebinds
  obtain ⟨w₁, hs⟩ : ∃ w₁, step cfg w (.commit c) = some w₁ := by
    simp only [step, hc, World.commit]
    exact ⟨_, rfl⟩
  have hbound := rebound_of_commit hc hd hs
  have hadmits := admits_rebound hbound (x := d.reenrolled rec cfg req now .rebindFp) hid
  -- whose tokens `validate_device` accepts
  have haccepted : ∀ tok, tok.deviceId = rec.id → tok.qrToken = rec.qrToken →
      tok ∈ w₁.signed → (Accepted cfg c w₁ tok ↔
        Unexpired w tok ∧ AdmitsRow w (d.reenrolled rec cfg req now .rebindFp)) := by
    intro tok htokId htokQr hsigned
    have hqr : Str.strip tok.qrToken = rec.qrToken := by rw [htokQr, hrecQr, hstrip]
    rw [accepted_iff hbound.idle, Presented, unexpired_rebound hbound, hqr, htokId, hbound.device]
    constructor
    · rintro ⟨⟨-, -, hunexpired⟩, d', hd', -, ha⟩
      cases hd'
      exact ⟨hunexpired, hadmits.mp ha⟩
    · rintro ⟨hunexpired, ha⟩
      refine ⟨⟨hsigned, ?_, hunexpired⟩, _, rfl, hdQr, hadmits.mpr ha⟩
      rw [hrecQr]
      exact hne
  have hnew := haccepted (enrolledToken cfg now w.now rec) rfl rfl
    (by rw [hbound.signed]; exact List.mem_cons_self)
  constructor
  · intro h
    obtain ⟨hold, haccept⟩ := h req now rec d w₁ hc hd hs
    obtain ⟨hunexpired, ha⟩ := hnew.mp haccept
    refine ⟨fun tok htok htokId hlive => ?_, hunexpired, ha⟩
    -- a token that is not over is accepted, by a validation that starts after the rebind
    have htokQr : tok.qrToken = rec.qrToken := by
      have hto := (hborn.signed tok htok).2
      rw [htokId, horigin] at hto
      exact (congrArg Origin.qrToken hto).symm
    obtain ⟨n, w₂, status, refreshed, hrun', hlog⟩ := (haccepted tok htokId htokQr
      (by rw [hbound.signed]; exact List.mem_cons_of_mem _ htok)).mpr ⟨hlive, ha⟩
    obtain ⟨new, hlog', hall⟩ := hold tok htok htokId _ w₂ hrun'
    rw [hlog] at hlog'
    have hsame : [(c, Answer.valid tok status refreshed)] ++ w₁.log = new ++ w₁.log := hlog'
    rw [← List.append_cancel_right hsame] at hall
    have hshown := hall _ List.mem_cons_self rfl
    rw [hbound.idle] at hshown
    cases hshown
  · rintro ⟨hold, hunexpired, ha⟩ req' now' rec' d' w₂ hc' hd' hs'
    rw [hc] at hc'
    cases hc'
    rw [hs] at hs'
    cases hs'
    refine ⟨fun tok htok htokId acts' w₃ hrun' => ?_, hnew.mpr ⟨hunexpired, ha⟩⟩
    exact refusedLater_of_over
      (fun hlive => hold tok htok htokId ((unexpired_rebound hbound tok).mp hlive)) hrun'

/-- A device with a fingerprint enrols, and has its first heartbeat. -/
def printed : List Act :=
  [.issueToken ['u'] ['c'] ['q'] 60, .request 0 (.enrollDevice ⟨['q'], ['a'], some ['f']⟩),
    .commit 0, .query 0 none, .query 0 none, .query 0 none, .query 0 none, .query 0 none,
    .commit 0] ++ checking 0 (tokenOf 0) ++ [.commit 0]

/-- An enrolment with the same fingerprint and another key, up to its commit. -/
def rebinding : List Act :=
  [.request 0 (.enrollDevice ⟨['q'], ['b'], some ['f']⟩), .commit 0, .query 0 none, .query 0 none,
    .query 0 none, .query 0 (some 0)]

/-- A rebind after the end of the first token, of a QR code that was extended. -/
def lateRebind : List Act :=
  printed ++ [.request 0 (.extendToken ['u'] ['q'] none), .query 0 none, .commit 0,
    .wait (168 * 3600 + 1)] ++ rebinding

/-- A rebind after the fusion window. -/
def soonRebind : List Act := printed ++ .wait 1000 :: rebinding

/-- The code, and the row of the device when it rebinds. -/
def printedRow (lastSeenAt retentionExpiresAt : Nat) : Device where
  id := 0
  userSub := ['u']
  qrToken := ['q']
  simpleCode := ['c']
  deviceKey := ['a']
  fpHash := some ['f']
  status := .active
  confirmedAt := some 0
  purgeAt := none
  retentionExpiresAt := retentionExpiresAt
  lastSeenAt := some lastSeenAt
  createdAt := 0

theorem late_rebind_rotates : ∃ w, run (step .standard) World.start lateRebind = some w ∧
    Rotates .standard 0 w := by
  obtain ⟨w, hrun, hnow, hcodes, hdevices, hsigned, hcall⟩ : ∃ w,
      run (step .standard) World.start lateRebind = some w ∧ w.now = 604801 ∧
      w.codes = [⟨['u'], ['c'], ['q'], 608400⟩] ∧ w.devices = [printedRow 0 604800] ∧
      w.signed = [tokenOf 0] ∧ w.calls 0 = .enrollUpdate ⟨['q'], ['b'], some ['f']⟩ 604801
        (printedRow 0 604800) .rebindFp :=
    ⟨_, rfl, rfl, rfl, rfl, rfl, rfl⟩
  have hd : w.device 0 = some (printedRow 0 604800) := by
    rw [World.device, hdevices]
    rfl
  refine ⟨w, hrun, (rotates_iff hrun hcall hd).mpr ⟨?_, ?_, ?_⟩⟩
  · intro tok htok _
    rw [hsigned, List.mem_singleton] at htok
    subst htok
    rw [Unexpired, hnow]
    decide
  · rw [Unexpired, hnow]
    decide
  · refine ⟨by decide, by rw [hnow]; decide, ⟨⟨['u'], ['c'], ['q'], 608400⟩, ?_, ?_⟩, ?_⟩
    · rw [World.code, hcodes]
      rfl
    · rw [hnow]
      decide
    · exact fun hpending => absurd hpending (by decide)

/-- **The token of the old key** is accepted after a rebind. -/
theorem old_token_accepted : ¬ ∀ acts w c, run (step .standard) World.start acts = some w →
    Rotates .standard c w := by
  intro h
  obtain ⟨w, w₁, w₂, hrun, hdevices, hsigned, hcall, hs, hidle, hvalid, hlog⟩ : ∃ w w₁ w₂,
      run (step .standard) World.start soonRebind = some w ∧ w.devices = [printedRow 0 604800] ∧
      w.signed = [tokenOf 0] ∧ w.calls 0 = .enrollUpdate ⟨['q'], ['b'], some ['f']⟩ 1000
        (printedRow 0 604800) .rebindFp ∧ step .standard w (.commit 0) = some w₁ ∧
      w₁.calls 0 = .idle ∧ run (step .standard) w₁ (rowValidating 0 2 (tokenOf 0)) = some w₂ ∧
      w₂.log = (0, .valid (tokenOf 0) .active (some { tokenOf 0 with retentionUntil := 605800 })) ::
        w₁.log :=
    ⟨_, _, _, rfl, rfl, rfl, rfl, rfl, rfl, rfl, rfl⟩
  have hd : w.device 0 = some (printedRow 0 604800) := by
    rw [World.device, hdevices]
    rfl
  have hold := (h soonRebind w 0 hrun _ _ _ _ w₁ hcall hd hs).1 (tokenOf 0)
    (by rw [hsigned]; exact List.mem_cons_self) rfl _ w₂ hvalid
  obtain ⟨new, hnew, hall⟩ := hold
  rw [hlog] at hnew
  have hsame : [(0, Answer.valid (tokenOf 0) .active
      (some { tokenOf 0 with retentionUntil := 605800 }))] ++ w₁.log = new ++ w₁.log := hnew
  rw [← List.append_cancel_right hsame] at hall
  have hshown := hall _ List.mem_cons_self rfl
  rw [hidle] at hshown
  cases hshown

end MesReunions.Devices
