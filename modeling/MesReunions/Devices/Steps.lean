import MesReunions.Devices.Authority

/-!
# What a step of the authority can do

* `Effect` — the shapes of a step; **`effect_of_step`** — every step has one of them.
* `device_of_effect`, `call_of_effect`, `log_of_effect`, `signed_of_effect` — where a row, a
  phase, a response and a token of the state after a step come from.
-/

namespace MesReunions.Devices

open TSys

/-! ## Shapes -/

/-- The writes to one loaded row: the row, the `SET`, the tokens signed and the response. -/
inductive Updates (cfg : Config) (w : World) :
    Phase → Device → (Device → Device) → List DeviceToken → Answer → Prop where
  | reenrolled (req : Enrollment) (now : Nat) (rec : Device) (reason : EnrollReason) :
      Updates cfg w (.enrollUpdate req now rec reason) rec
        (·.reenrolled rec cfg req now reason) [enrolledToken cfg now w.now rec]
        (.enrolled (enrolledToken cfg now w.now rec) rec.status reason)
  | validated (tok : DeviceToken) (rec : Device) (now : Nat) (status : Status) :
      Updates cfg w (.validateCommit tok rec now) rec (·.validated rec now)
        (tok.refreshed rec).toList (.valid tok status (tok.refreshed rec))
  | revoked (rec : Device) (answer : Answer) (h : ∀ tok s r, answer ≠ .valid tok s r) :
      Updates cfg w (.revokeCommit rec) rec (·.revokedAs rec) [] answer

/-- What a step does. -/
inductive Effect (cfg : Config) (w : World) : Act → World → Prop where
  /-- Time, the QR codes and the purges. -/
  | outside (a : Act) (now : Nat) (codes : List IssuedToken) (p : Device → Bool)
      (ha : a.caller = none) :
      Effect cfg w a { w with now := now, codes := codes, devices := w.devices.filter p }
  | asked (c : Nat) (req : Request) (hc : w.calls c = .idle) :
      Effect cfg w (.request c req) (w.proceed c (w.begin cfg req))
  | read (c : Nat) (pick : Option Nat) (next : Phase ⊕ Answer)
      (h : w.query cfg pick (w.calls c) = some next) :
      Effect cfg w (.query c pick) (w.proceed c next)
  | purged (a : Act) (c : Nat) (req : Enrollment) (p : Device → Bool)
      (ha : a = .commit c ∨ a = .fail c) (hc : w.calls c = .purgePending req) :
      Effect cfg w a ({ w with devices := w.devices.filter p }.proceed c
        (.inl (.enrollCode req w.now)))
  | updated (c : Nat) (rec d : Device) (f : Device → Device) (signed : List DeviceToken)
      (answer : Answer) (hd : w.device rec.id = some d)
      (h : Updates cfg w (w.calls c) rec f signed answer) :
      Effect cfg w (.commit c) ({ w with
        devices := updateWhere (·.id == rec.id) f w.devices
        signed := signed ++ w.signed }.proceed c (.inr answer))
  | inserted (c : Nat) (req : Enrollment) (now : Nat) (code : IssuedToken)
      (hc : w.calls c = .enrollInsert req now code) :
      Effect cfg w (.commit c) ({ w with
        devices := w.devices ++ [newDevice cfg req now code w.next w.now]
        next := w.next + 1
        signed := enrolledToken cfg now w.now (newDevice cfg req now code w.next w.now) ::
          w.signed }.proceed c (.inr (.enrolled (enrolledToken cfg now w.now
            (newDevice cfg req now code w.next w.now)) .pending .fresh)))
  | revokedAll (c : Nat) (userSub : Option Str) (count : Nat)
      (hc : w.calls c = .revokeAll userSub) :
      Effect cfg w (.commit c) ({ w with
        devices := updateWhere (covers userSub) (·.revokedIfActive) w.devices }.proceed c
          (.inr (.revoked count)))
  | deleted (c : Nat) (codes : List IssuedToken) (p : Device → Bool) :
      Effect cfg w (.commit c) ({ w with
        codes := codes
        devices := w.devices.filter p }.proceed c (.inr .deleted))
  | extended (c now expiresAt : Nat) (codes : List IssuedToken) (p : Device → Bool) :
      Effect cfg w (.commit c) ({ w with
        codes := codes
        devices := updateWhere p (·.renewed cfg now) w.devices }.proceed c
          (.inr (.extended expiresAt)))
  | failed (a : Act) (c : Nat) (ha : a.caller = some c) :
      Effect cfg w a (w.proceed c (.inr (.error 500 "internal_error")))

theorem filter_true (rows : List Device) : rows.filter (fun _ => true) = rows :=
  List.filter_eq_self.mpr fun _ _ => rfl

/-- The write to one loaded row, or a row that is gone. -/
theorem effect_of_update {cfg : Config} {w : World} {c : Nat} {rec : Device}
    {f : Device → Device} {signed : List DeviceToken} {answer : Answer}
    (h : Updates cfg w (w.calls c) rec f signed answer) :
    Effect cfg w (.commit c) (w.update c rec f signed answer) := by
  unfold World.update
  split
  · exact .failed _ c rfl
  · rename_i d hd
    exact .updated c rec d f signed answer hd h

theorem effect_of_commit {cfg : Config} {w w' : World} {c : Nat}
    (hs : w.commit cfg c (w.calls c) = some w') : Effect cfg w (.commit c) w' := by
  unfold World.commit at hs
  split at hs
  · rename_i req hc
    cases hs
    exact .purged _ c req _ (.inl rfl) hc
  · rename_i req now rec reason hc
    cases hs
    refine effect_of_update ?_
    rw [hc]
    exact .reenrolled req now rec reason
  · rename_i req now code hc
    cases hs
    exact .inserted c req now code hc
  · rename_i tok rec now hc
    cases hs
    refine effect_of_update ?_
    rw [hc]
    exact .validated tok rec now _
  · rename_i rec hc
    cases hs
    refine effect_of_update ?_
    rw [hc]
    exact .revoked rec _ fun _ _ _ h => by cases h
  · cases hs
    exact .deleted c w.codes _
  · rename_i userSub hc
    cases hs
    exact .revokedAll c userSub _ hc
  · rename_i code ttl now hc
    cases hs
    split
    · exact .failed _ c rfl
    · exact .extended c now _ _ _
  · cases hs
    exact .deleted c _ _
  · cases hs

/-- **Every step has one of the shapes.** -/
theorem effect_of_step {cfg : Config} {w w' : World} {a : Act} (hs : step cfg w a = some w') :
    Effect cfg w a w' := by
  cases a with
  | wait seconds =>
      cases hs
      have h : Effect cfg w (.wait seconds)
          { w with
            now := w.now + seconds
            codes := w.codes
            devices := w.devices.filter fun _ => true } := .outside _ _ _ _ rfl
      rwa [filter_true] at h
  | issueToken userSub simpleCode qrToken ttlMinutes =>
      simp only [step] at hs
      split at hs
      · cases hs
        have h : Effect cfg w (.issueToken userSub simpleCode qrToken ttlMinutes)
            { w with
              now := w.now
              codes := w.codes ++ [⟨userSub, simpleCode, qrToken, w.now + ttlMinutes * 60⟩]
              devices := w.devices.filter fun _ => true } := .outside _ _ _ _ rfl
        rwa [filter_true] at h
      · cases hs
  | purgeToken qrToken =>
      simp only [step] at hs
      split at hs
      · cases hs
      · split at hs
        · cases hs
          exact .outside _ w.now _ _ rfl
        · cases hs
  | listDevices =>
      cases hs
      exact .outside _ w.now w.codes _ rfl
  | request c req =>
      simp only [step] at hs
      split at hs
      · rename_i hc
        cases hs
        exact .asked c req hc
      · cases hs
  | query c pick =>
      simp only [step] at hs
      obtain ⟨next, hnext, rfl⟩ := Option.map_eq_some_iff.mp hs
      exact .read c pick next hnext
  | commit c => exact effect_of_commit hs
  | fail c =>
      simp only [step] at hs
      unfold World.fail at hs
      split at hs
      · cases hs
      · rename_i req hc
        cases hs
        have h : Effect cfg w (.fail c)
            ({ w with devices := w.devices.filter fun _ => true }.proceed c
              (.inl (.enrollCode req w.now))) := .purged _ c req _ (.inr rfl) hc
        rwa [filter_true] at h
      · cases hs
        exact .failed _ c rfl

/-! ## Rows -/

theorem mem_updateWhere {p : Device → Bool} {f : Device → Device} {rows : List Device}
    {d' : Device} (h : d' ∈ updateWhere p f rows) :
    ∃ d ∈ rows, d' = d ∨ p d = true ∧ d' = f d := by
  obtain ⟨d, hd, rfl⟩ := List.mem_map.mp h
  refine ⟨d, hd, ?_⟩
  by_cases hp : p d = true
  · exact .inr ⟨hp, if_pos hp⟩
  · exact .inl (if_neg hp)

theorem ids_updateWhere {p : Device → Bool} {f : Device → Device} (hf : ∀ d, (f d).id = d.id)
    (rows : List Device) : (updateWhere p f rows).map (·.id) = rows.map (·.id) := by
  unfold updateWhere
  rw [List.map_map]
  refine List.map_congr_left fun d _ => ?_
  show (if p d = true then f d else d).id = d.id
  split
  · exact hf d
  · rfl

/-- What a step may make of a row. -/
inductive Written (cfg : Config) (w : World) (a : Act) (d : Device) : Device → Prop where
  | kept : Written cfg w a d d
  | reenrolled (c : Nat) (req : Enrollment) (now : Nat) (rec : Device) (reason : EnrollReason)
      (ha : a = .commit c) (hc : w.calls c = .enrollUpdate req now rec reason)
      (hid : d.id = rec.id) : Written cfg w a d (d.reenrolled rec cfg req now reason)
  | validated (c : Nat) (tok : DeviceToken) (rec : Device) (now : Nat) (ha : a = .commit c)
      (hc : w.calls c = .validateCommit tok rec now) (hid : d.id = rec.id) :
      Written cfg w a d (d.validated rec now)
  | revoked (rec : Device) : Written cfg w a d (d.revokedAs rec)
  | revokedIfActive : Written cfg w a d d.revokedIfActive
  | renewed (now : Nat) : Written cfg w a d (d.renewed cfg now)

theorem Written.id {cfg : Config} {w : World} {a : Act} {d d' : Device}
    (h : Written cfg w a d d') : d'.id = d.id := by
  cases h <;> simp

theorem Written.origin {cfg : Config} {w : World} {a : Act} {d d' : Device}
    (h : Written cfg w a d d') : d'.origin = d.origin := by
  cases h <;> simp

/-- The row of a first enrolment, in the state after it. -/
def Inserted (cfg : Config) (w : World) (a : Act) (d : Device) : Prop :=
  ∃ c req now code, a = .commit c ∧ w.calls c = .enrollInsert req now code ∧
    d = newDevice cfg req now code w.next w.now

/-- **A row is one that was there, or the new one.** -/
theorem device_of_effect {cfg : Config} {w w' : World} {a : Act} (heff : Effect cfg w a w')
    {d' : Device} (hd' : d' ∈ w'.devices) :
    (∃ d ∈ w.devices, Written cfg w a d d') ∨ Inserted cfg w a d' := by
  cases heff with
  | outside a now codes p ha => exact .inl ⟨d', List.mem_of_mem_filter hd', .kept⟩
  | asked c req hc =>
      cases hnext : w.begin cfg req <;> rw [hnext] at hd' <;> exact .inl ⟨d', hd', .kept⟩
  | read c pick next h => cases next <;> exact .inl ⟨d', hd', .kept⟩
  | purged a c req p ha hc => exact .inl ⟨d', List.mem_of_mem_filter hd', .kept⟩
  | updated c rec d₀ f signed answer hd₀ h =>
      obtain ⟨d, hd, rfl | ⟨hp, rfl⟩⟩ := mem_updateWhere hd'
      · exact .inl ⟨d', hd, .kept⟩
      · have hid : d.id = rec.id := eq_of_beq hp
        refine .inl ⟨d, hd, ?_⟩
        generalize hphase : w.calls c = phase at h
        cases h with
        | reenrolled req now rec reason => exact .reenrolled c req now rec reason rfl hphase hid
        | validated tok rec now status => exact .validated c tok rec now rfl hphase hid
        | revoked rec answer h => exact .revoked rec
  | inserted c req now code hc =>
      rcases List.mem_append.mp hd' with hd' | hd'
      · exact .inl ⟨d', hd', .kept⟩
      · exact .inr ⟨c, req, now, code, rfl, hc, List.mem_singleton.mp hd'⟩
  | revokedAll c userSub count hc =>
      obtain ⟨d, hd, rfl | ⟨-, rfl⟩⟩ := mem_updateWhere hd'
      · exact .inl ⟨d', hd, .kept⟩
      · exact .inl ⟨d, hd, .revokedIfActive⟩
  | deleted c codes p => exact .inl ⟨d', List.mem_of_mem_filter hd', .kept⟩
  | extended c now expiresAt codes p =>
      obtain ⟨d, hd, rfl | ⟨-, rfl⟩⟩ := mem_updateWhere hd'
      · exact .inl ⟨d', hd, .kept⟩
      · exact .inl ⟨d, hd, .renewed now⟩
  | failed a c ha => exact .inl ⟨d', hd', .kept⟩

/-- The ids: fewer, or the next one. -/
theorem ids_of_effect {cfg : Config} {w w' : World} {a : Act} (heff : Effect cfg w a w') :
    (w'.devices.map (·.id)).Sublist (w.devices.map (·.id)) ∧ w'.next = w.next ∨
      w'.devices.map (·.id) = w.devices.map (·.id) ++ [w.next] ∧ w'.next = w.next + 1 := by
  cases heff with
  | outside a now codes p ha => exact .inl ⟨List.filter_sublist.map _, rfl⟩
  | asked c req hc =>
      cases hnext : w.begin cfg req <;> exact .inl ⟨List.Sublist.refl _, rfl⟩
  | read c pick next h => cases next <;> exact .inl ⟨List.Sublist.refl _, rfl⟩
  | purged a c req p ha hc => exact .inl ⟨List.filter_sublist.map _, rfl⟩
  | updated c rec d f signed answer hd h =>
      refine .inl ⟨?_, rfl⟩
      have hf : ∀ d, (f d).id = d.id := by
        intro d
        generalize w.calls c = phase at h
        cases h <;> simp
      exact (ids_updateWhere hf w.devices).symm ▸ List.Sublist.refl _
  | inserted c req now code hc => exact .inr ⟨List.map_append, rfl⟩
  | revokedAll c userSub count hc =>
      exact .inl ⟨(ids_updateWhere revokedIfActive_id w.devices).symm ▸ List.Sublist.refl _, rfl⟩
  | deleted c codes p => exact .inl ⟨List.filter_sublist.map _, rfl⟩
  | extended c now expiresAt codes p =>
      exact .inl ⟨(ids_updateWhere (renewed_id cfg now) w.devices).symm ▸ List.Sublist.refl _, rfl⟩
  | failed a c ha => exact .inl ⟨List.Sublist.refl _, rfl⟩

/-! ## Phases -/

/-- How a request comes to a phase. -/
inductive Came (cfg : Config) (w : World) (c : Nat) : Act → Phase → Prop where
  | asked (req : Request) (p : Phase) (h : w.begin cfg req = .inl p) :
      Came cfg w c (.request c req) p
  | read (pick : Option Nat) (p : Phase) (h : w.query cfg pick (w.calls c) = some (.inl p)) :
      Came cfg w c (.query c pick) p
  | purged (a : Act) (req : Enrollment) (h : w.calls c = .purgePending req) :
      Came cfg w c a (.enrollCode req w.now)

theorem calls_proceed {w : World} {c : Nat} {next : Phase ⊕ Answer} (c' : Nat) :
    (w.proceed c next).calls c' = w.calls c' ∨
      c' = c ∧ (next = .inl ((w.proceed c next).calls c') ∨ (w.proceed c next).calls c' = .idle) := by
  by_cases hcc : c' = c
  · subst hcc
    cases next with
    | inl p =>
        have hp : (w.proceed c' (.inl p)).calls c' = p := Function.update_self ..
        exact .inr ⟨rfl, .inl (by rw [hp])⟩
    | inr a => exact .inr ⟨rfl, .inr (Function.update_self ..)⟩
  · cases next <;> exact .inl (Function.update_of_ne hcc ..)

/-- **A phase is the old one, the end, or one the request came to.** -/
theorem call_of_effect {cfg : Config} {w w' : World} {a : Act} (heff : Effect cfg w a w')
    (c : Nat) :
    w'.calls c = w.calls c ∨ w'.calls c = .idle ∨ Came cfg w c a (w'.calls c) := by
  -- a response leaves the request idle
  have hdone : ∀ (v : World) (c' : Nat) (answer : Answer), v.calls = w.calls →
      (v.proceed c' (.inr answer)).calls c = w.calls c ∨
        (v.proceed c' (.inr answer)).calls c = .idle ∨
          Came cfg w c a ((v.proceed c' (.inr answer)).calls c) := by
    intro v c' answer hv
    rcases @calls_proceed v c' (.inr answer) c with h | ⟨-, h | h⟩
    · exact .inl (by rw [h, hv])
    · cases h
    · exact .inr (.inl h)
  cases heff with
  | outside a now codes p ha => exact .inl rfl
  | asked c' req hc =>
      rcases @calls_proceed w c' (w.begin cfg req) c with h | ⟨rfl, h | h⟩
      · exact .inl h
      · exact .inr (.inr (.asked req _ h))
      · exact .inr (.inl h)
  | read c' pick next hread =>
      rcases @calls_proceed w c' next c with h | ⟨rfl, h | h⟩
      · exact .inl h
      · exact .inr (.inr (.read pick _ (by rw [hread, ← h])))
      · exact .inr (.inl h)
  | purged a c' req p ha hc =>
      rcases @calls_proceed { w with devices := w.devices.filter p } c'
        (.inl (.enrollCode req w.now)) c with h | ⟨rfl, h | h⟩
      · exact .inl h
      · rw [← Sum.inl.inj h]
        exact .inr (.inr (.purged a req hc))
      · exact .inr (.inl h)
  | updated c' rec d f signed answer hd h => exact hdone _ c' _ rfl
  | inserted c' req now code hc => exact hdone _ c' _ rfl
  | revokedAll c' userSub count hc => exact hdone _ c' _ rfl
  | deleted c' codes p => exact hdone _ c' _ rfl
  | extended c' now expiresAt codes p => exact hdone _ c' _ rfl
  | failed a c' ha => exact hdone _ c' _ rfl

/-- A request is where it was after the steps of others. -/
theorem call_of_other {cfg : Config} {w w' : World} {a : Act} (heff : Effect cfg w a w')
    {c : Nat} (hc : a.caller ≠ some c) : w'.calls c = w.calls c := by
  have hproceed : ∀ (v : World) (c' : Nat) (next : Phase ⊕ Answer), a.caller = some c' →
      v.calls = w.calls → (v.proceed c' next).calls c = w.calls c := by
    intro v c' next hcaller hv
    have hne : c ≠ c' := fun h => hc (h ▸ hcaller)
    rcases @calls_proceed v c' next c with h | ⟨h, -⟩
    · rw [h, hv]
    · exact absurd h hne
  cases heff with
  | outside a now codes p ha => rfl
  | purged a c' req p ha hc' =>
      rcases ha with rfl | rfl <;> exact hproceed { w with devices := _ } c' _ rfl rfl
  | failed a c' ha => exact hproceed w c' _ ha rfl
  | asked | read => exact hproceed w _ _ rfl rfl
  | updated | inserted | revokedAll | deleted | extended => exact hproceed _ _ _ rfl rfl

/-! ## Tokens and responses -/

/-- **A token is one that was signed, or one this step signs.** -/
theorem signed_of_effect {cfg : Config} {w w' : World} {a : Act} (heff : Effect cfg w a w')
    {t : DeviceToken} (ht : t ∈ w'.signed) :
    t ∈ w.signed ∨
      (∃ c rec f tokens answer, Updates cfg w (w.calls c) rec f tokens answer ∧ t ∈ tokens) ∨
      ∃ d, Inserted cfg w a d ∧ w'.next = w.next + 1 ∧ t.deviceId = d.id ∧
        t.origin = d.origin := by
  cases heff with
  | outside a now codes p ha => exact .inl ht
  | asked c req hc => cases hnext : w.begin cfg req <;> rw [hnext] at ht <;> exact .inl ht
  | read c pick next h => cases next <;> exact .inl ht
  | purged a c req p ha hc => exact .inl ht
  | updated c rec d f tokens answer hd h =>
      rcases List.mem_append.mp ht with ht | ht
      · exact .inr (.inl ⟨c, rec, f, tokens, answer, h, ht⟩)
      · exact .inl ht
  | inserted c req now code hc =>
      rcases List.mem_cons.mp ht with rfl | ht
      · exact .inr (.inr ⟨_, ⟨c, req, now, code, rfl, hc, rfl⟩, rfl, rfl, rfl⟩)
      · exact .inl ht
  | revokedAll c userSub count hc => exact .inl ht
  | deleted c codes p => exact .inl ht
  | extended c now expiresAt codes p => exact .inl ht
  | failed a c ha => exact .inl ht

/-- The token of a `{"valid": true}`. -/
def Answer.accepts (tok : DeviceToken) : Answer → Prop
  | .valid shown _ _ => shown = tok
  | _ => False

theorem begin_not_accepts {cfg : Config} {w : World} {req : Request} {answer : Answer}
    (h : w.begin cfg req = .inr answer) (tok : DeviceToken) : ¬answer.accepts tok := by
  intro hacc
  cases req <;> simp only [World.begin, enrollDevice, validateDevice] at h <;>
    (repeat' split at h) <;> cases h <;> exact hacc

theorem query_not_accepts {cfg : Config} {w : World} {pick : Option Nat} {p : Phase}
    {answer : Answer} (h : w.query cfg pick p = some (.inr answer)) (tok : DeviceToken) :
    ¬answer.accepts tok := by
  intro hacc
  have hfirst : ∀ {rows q} {g : Option Device → Phase ⊕ Answer},
      (first rows q pick).map g = some (.inr answer) → ∃ found, g found = .inr answer := by
    intro rows q g hg
    obtain ⟨found, -, hfound⟩ := Option.map_eq_some_iff.mp hg
    exact ⟨found, hfound⟩
  unfold World.query at h
  split at h
  · have h := Option.some.inj h
    (repeat' split at h) <;> cases h <;> exact hacc
  · obtain ⟨found, h⟩ := hfirst h
    cases found <;> simp only at h <;> split at h <;> cases h
    exact hacc
  · obtain ⟨found, h⟩ := hfirst h
    cases found <;> cases h
  · obtain ⟨found, h⟩ := hfirst h
    cases found <;> cases h
  · have h := Option.some.inj h
    split at h <;> cases h
    exact hacc
  · have h := Option.some.inj h
    (repeat' split at h) <;> cases h <;> exact hacc
  · have h := Option.some.inj h
    (repeat' split at h) <;> cases h <;> exact hacc
  · have h := Option.some.inj h
    split at h <;> cases h
    exact hacc
  · have h := Option.some.inj h
    unfold World.owned at h
    (repeat' split at h) <;> cases h <;> exact hacc
  · have h := Option.some.inj h
    unfold World.owned at h
    (repeat' split at h) <;> cases h <;> exact hacc
  · have h := Option.some.inj h
    (repeat' split at h) <;> cases h <;> exact hacc
  · have h := Option.some.inj h
    (repeat' split at h) <;> cases h <;> exact hacc
  · cases h

/-- **A token is accepted by the commit of its `validate_device` only**, of a row that is
there. -/
theorem log_of_effect {cfg : Config} {w w' : World} {a : Act} (heff : Effect cfg w a w') :
    ∃ new, w'.log = new ++ w.log ∧ ∀ e ∈ new, ∀ tok, e.2.accepts tok →
      ∃ rec now d, w.calls e.1 = .validateCommit tok rec now ∧ w.device rec.id = some d := by
  -- a response that accepts nothing
  have hquiet : ∀ (c : Nat) (answer : Answer), (∀ tok, ¬answer.accepts tok) →
      ∀ e ∈ [(c, answer)], ∀ tok, e.2.accepts tok →
        ∃ rec now d, w.calls e.1 = .validateCommit tok rec now ∧ w.device rec.id = some d := by
    intro c answer hnot e he tok hacc
    rw [List.mem_singleton.mp he] at hacc
    exact absurd hacc (hnot tok)
  have hnone : ∀ e ∈ ([] : List (Nat × Answer)), ∀ tok, e.2.accepts tok →
      ∃ rec now d, w.calls e.1 = .validateCommit tok rec now ∧ w.device rec.id = some d :=
    fun e he => absurd he List.not_mem_nil
  cases heff with
  | outside a now codes p ha => exact ⟨[], rfl, hnone⟩
  | asked c req hc =>
      cases hnext : w.begin cfg req with
      | inl p => exact ⟨[], rfl, hnone⟩
      | inr answer => exact ⟨[(c, answer)], rfl, hquiet c answer (begin_not_accepts hnext)⟩
  | read c pick next h =>
      cases next with
      | inl p => exact ⟨[], rfl, hnone⟩
      | inr answer => exact ⟨[(c, answer)], rfl, hquiet c answer (query_not_accepts h)⟩
  | purged a c req p ha hc => exact ⟨[], rfl, hnone⟩
  | updated c rec d f tokens answer hd h =>
      refine ⟨[(c, answer)], rfl, fun e he tok hacc => ?_⟩
      rw [List.mem_singleton.mp he] at hacc ⊢
      generalize w.calls c = phase at h ⊢
      cases h with
      | reenrolled req now rec reason => exact absurd hacc id
      | validated shown rec now status =>
          cases hacc
          exact ⟨rec, now, d, rfl, hd⟩
      | revoked rec answer h =>
          cases answer with
          | valid shown s r => exact absurd rfl (h shown s r)
          | error | invalid | enrolled | revoked | deleted | extended => exact absurd hacc id
  | inserted c req now code hc => exact ⟨[_], rfl, hquiet c _ fun _ => id⟩
  | revokedAll c userSub count hc => exact ⟨[_], rfl, hquiet c _ fun _ => id⟩
  | deleted c codes p => exact ⟨[_], rfl, hquiet c _ fun _ => id⟩
  | extended c now expiresAt codes p => exact ⟨[_], rfl, hquiet c _ fun _ => id⟩
  | failed a c ha => exact ⟨[_], rfl, hquiet c _ fun _ => id⟩

end MesReunions.Devices
