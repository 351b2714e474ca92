import MesReunions.Base.CheckThenAct
import MesReunions.Devices.Reads

/-!
# One row per key

`enroll_device` looks for a row under the key of the request and, in a later statement,
inserts one or gives another row that key. It stores the first 255 characters of the key and
looks for all of them.

* `KeyApart` — keys are of 255 characters at most, and no request looks for a key of a QR code
  while another that found no row under it has still to write.
* **`keyed_and_idempotent`** — in every state of such a run there is one row a key
  (`OneKeyed`), and a request for the key of a row that nothing comes between is answered with
  that row (`Idempotent`).
* **`two_rows`** — a key that is too long, twice; and two first requests that cross.
-/

namespace MesReunions.Devices

open TSys CheckThenAct

/-- At most one row a QR code and stored key. -/
def OneKeyed (w : World) : Prop :=
  ∀ qrToken deviceKey, w.devices.countP (·.keyed qrToken deviceKey) ≤ 1

/-- The request of an enrolment that found no row under its key and will write it to one. -/
def Phase.keying : Phase → Option Enrollment
  | .enrollFusion req _ _ => some req
  | .enrollRebind req _ _ => some req
  | .enrollConfirmed req _ _ => some req
  | .enrollInsert req _ _ => some req
  | .enrollUpdate req _ _ .rebindFp => some req
  | _ => none

/-- Keys fit their column, and enrolments under one key do not overlap. -/
def KeyApart (w : World) : Act → Prop
  | .query c _ => ∀ req now code, w.calls c = .enrollSameKey req now code →
      req.deviceKey.length ≤ 255 ∧
        ∀ c' req', (w.calls c').keying = some req' → req'.qrToken = req.qrToken →
          req'.deviceKey ≠ req.deviceKey
  | _ => True

/-- The row `id` is one under the key. -/
def Keyed (w : World) (key : Str × Str) (id : Nat) : Prop :=
  ∃ d ∈ w.devices, d.keyed key.1 key.2 = true ∧ d.id = id

/-- Request `c` is about to write the key. -/
def Keying (w : World) (key : Str × Str) (c : Nat) : Prop :=
  ∃ req, (w.calls c).keying = some req ∧ (req.qrToken, storedKey req.deviceKey) = key

/-- The row that the next commit of a request gives its key to. -/
def World.keyedBy (w : World) : Phase → Option Nat
  | .enrollUpdate _ _ rec .rebindFp => some rec.id
  | .enrollInsert _ _ _ => some w.next
  | _ => none

theorem storedKey_of_short {deviceKey : Str} (h : deviceKey.length ≤ 255) :
    storedKey deviceKey = deviceKey := List.take_of_length_le h

/-! ## Where a key comes from -/

theorem keyed_iff {d : Device} {qrToken deviceKey : Str} :
    d.keyed qrToken deviceKey = true ↔ d.qrToken = qrToken ∧ d.deviceKey = deviceKey := by
  unfold Device.keyed
  rw [Bool.and_eq_true_iff, beq_iff_eq, beq_iff_eq]

/-- A row under a key was under it, or its request has just written it. -/
theorem keyed_of_effect {cfg : Config} {f : Nat → Origin} {w w' : World} {a : Act}
    (hborn : Born f w) (heff : Effect cfg w a w') {key : Str × Str} {id : Nat}
    (h : Keyed w' key id) :
    Keyed w key id ∨ ∃ c, a = .commit c ∧ Keying w key c ∧
      w.keyedBy (w.calls c) = some id := by
  obtain ⟨d', hd', hkeyed, rfl⟩ := h
  obtain ⟨hqr, hkey⟩ := keyed_iff.mp hkeyed
  rcases device_of_effect heff hd' with ⟨d, hd, hw⟩ | ⟨c, req, now, code, rfl, hc, rfl⟩
  · have hqr' : d'.qrToken = d.qrToken := congrArg Origin.qrToken hw.origin
    have hsame : d'.deviceKey = d.deviceKey → Keyed w key d'.id := fun hk =>
      ⟨d, hd, keyed_iff.mpr ⟨hqr'.symm.trans hqr, hk.symm.trans hkey⟩, hw.id.symm⟩
    cases hw with
    | kept => exact .inl (hsame rfl)
    | reenrolled c req now rec reason ha hc hid =>
        rcases reenrolled_deviceKey cfg req now reason rec d with hk | ⟨rfl, hk⟩
        · exact .inl (hsame hk)
        · -- a rebind: the row has the QR code of the request
          have hsound := hborn.sound c
          have horigin := (hborn.loaded c rec (by rw [hc]; rfl)).2
          rw [hc] at hsound
          rw [← hid, (hborn.device d hd).2] at horigin
          have hreq : req.qrToken = key.1 :=
            (hsound.symm.trans (congrArg Origin.qrToken horigin).symm).trans (hqr'.symm.trans hqr)
          refine .inr ⟨c, ha, ⟨req, by rw [hc]; rfl, Prod.ext hreq (hk.symm.trans hkey)⟩, ?_⟩
          rw [hc, reenrolled_id, hid]
          rfl
    | validated c tok rec now ha hc hid => exact .inl (hsame (validated_deviceKey now rec d))
    | revoked rec => exact .inl (hsame rfl)
    | revokedIfActive => exact .inl (hsame (revokedIfActive_deviceKey d))
    | renewed now => exact .inl (hsame (renewed_deviceKey cfg now d))
  · have hsound := hborn.sound c
    rw [hc] at hsound
    refine .inr ⟨c, rfl, ⟨req, by rw [hc]; rfl, Prod.ext (hsound.symm.trans hqr) hkey⟩, ?_⟩
    rw [hc]
    rfl

theorem keying_of_reads {w : World} {p p' : Phase} (h : Reads w p p') {req : Enrollment}
    (hreq : p'.keying = some req) :
    p.keying = some req ∨ ∃ now code, p = .enrollSameKey req now code ∧
      ∀ d ∈ w.devices, d.keyed req.qrToken req.deviceKey = false := by
  cases h with
  | otherKey req' now code p hnone hnext =>
      rcases hnext with rfl | rfl <;> cases hreq <;> exact .inr ⟨now, code, rfl, hnone⟩
  | unfused req' now code => exact .inl hreq
  | rebound req' now code rec hrec hqr hstatus => exact .inl hreq
  | unbound req' now code => exact .inl hreq
  | unowned req' now code hnone => exact .inl hreq
  | owned p p' rec hrec hnext => rcases hnext with rfl | rfl <;> cases hreq
  | code p p' code hnext => rcases hnext with ⟨_, _, rfl⟩ | rfl <;> cases hreq
  | enrollCode | sameKey | fused => cases hreq
  | validateDevice | validatePending | validateActive | validateOther => cases hreq

theorem begin_not_keying {w : World} {cfg : Config} {req : Request} {p : Phase}
    (h : w.begin cfg req = .inl p) : p.keying = none := by
  cases req <;> simp only [World.begin, enrollDevice, validateDevice] at h <;>
    (repeat' split at h) <;> cases h <;> rfl

/-- A request about to write its key was so before, or has just found no row under it. -/
theorem keying_of_effect {cfg : Config} {w w' : World} {a : Act} (heff : Effect cfg w a w')
    {c : Nat} {req : Enrollment} (h : (w'.calls c).keying = some req) :
    (w.calls c).keying = some req ∨ ∃ pick now code, a = .query c pick ∧
      w.calls c = .enrollSameKey req now code ∧
        ∀ d ∈ w.devices, d.keyed req.qrToken req.deviceKey = false := by
  rcases call_of_effect heff c with hcall | hcall | hcame
  · exact .inl (hcall ▸ h)
  · rw [hcall] at h
    cases h
  · generalize w'.calls c = p at hcame h
    cases hcame with
    | asked req' p hp =>
        rw [begin_not_keying hp] at h
        cases h
    | read pick p hp =>
        rcases keying_of_reads (reads_of_query hp) h with h | ⟨now, code, hphase, hnone⟩
        · exact .inl h
        · exact .inr ⟨pick, now, code, rfl, hphase, hnone⟩
    | purged a req' hc => cases h

theorem idle_of_commit {cfg : Config} {w w' : World} {c : Nat}
    (heff : Effect cfg w (.commit c) w') (hc : ∀ req, w.calls c ≠ .purgePending req) :
    w'.calls c = .idle := by
  cases heff with
  | outside a now codes p ha => cases ha
  | purged a c' req p ha hc' =>
      rcases ha with ha | ha <;> cases ha
      exact absurd hc' (hc req)
  | failed a c' ha =>
      cases ha
      exact Function.update_self ..
  | updated | inserted | revokedAll | deleted | extended => exact Function.update_self ..

/-! ## The invariant -/

/-- Looks and rows, in a run whose enrolments do not overlap. -/
structure KeyInv (w : World) : Prop where
  born : ∃ f, Born f w
  short : ∀ c req, (w.calls c).keying = some req → req.deviceKey.length ≤ 255
  exclusive : Exclusive (fun _ _ => False) (Keyed w) (Keying w)

theorem keyInv_start : KeyInv World.start where
  born := ⟨fun _ => ⟨[], []⟩, born_start _⟩
  short := fun _ _ h => by cases h
  exclusive :=
    { one := fun ⟨_, hd, _⟩ => absurd hd List.not_mem_nil
      alone := fun ⟨_, h, _⟩ => by cases h
      free := fun ⟨_, h, _⟩ => by cases h }

theorem keyInv_step {cfg : Config} {w w' : World} {a : Act} (h : KeyInv w)
    (hact : KeyApart w a) (heff : Effect cfg w a w') : KeyInv w' := by
  obtain ⟨f, hborn⟩ := h.born
  obtain ⟨f', hborn', -, -⟩ := born_step hborn heff
  refine ⟨⟨f', hborn'⟩, fun c req hreq => ?_, ?_⟩
  · rcases keying_of_effect heff hreq with hreq | ⟨pick, now, code, rfl, hc, -⟩
    · exact h.short c req hreq
    · exact (hact req now code hc).1
  by_cases hlook : ∃ c pick req now code, a = .query c pick ∧
      w.calls c = .enrollSameKey req now code ∧
        ∀ d ∈ w.devices, d.keyed req.qrToken req.deviceKey = false
  · -- a look that finds no row
    obtain ⟨c, pick, req, now, code, rfl, hc, hnone⟩ := hlook
    obtain ⟨hshort, halone⟩ := hact req now code hc
    have hstored := storedKey_of_short hshort
    refine h.exclusive.check (k := (req.qrToken, storedKey req.deviceKey)) (a := c)
      ?_ ?_ (fun k i hi => ?_) fun k c' hc' => ?_
    · rintro i ⟨d, hd, hkeyed, -⟩
      rw [hstored] at hkeyed
      have hnot := hnone d hd
      rw [hkeyed] at hnot
      cases hnot
    · rintro c' ⟨req', hreq', hkey⟩
      obtain ⟨hqr, hkey⟩ := Prod.mk.inj hkey
      rw [hstored, storedKey_of_short (h.short c' req' hreq')] at hkey
      exact absurd hkey (halone c' req' hreq' hqr)
    · rcases keyed_of_effect hborn heff hi with hi | ⟨c', ha, -⟩
      · exact hi
      · cases ha
    · obtain ⟨req', hreq', hkey⟩ := hc'
      rcases keying_of_effect heff hreq' with hold | ⟨pick', now', code', ha, hc', -⟩
      · exact .inl ⟨req', hold, hkey⟩
      · cases ha
        rw [hc] at hc'
        cases hc'
        exact .inr ⟨hkey.symm, rfl⟩
  · have hquiet : ∀ k c, Keying w' k c → Keying w k c := by
      rintro k c ⟨req, hreq, hkey⟩
      rcases keying_of_effect heff hreq with hold | ⟨pick, now, code, ha, hc, hnone⟩
      · exact ⟨req, hold, hkey⟩
      · exact absurd ⟨c, pick, req, now, code, ha, hc, hnone⟩ hlook
    by_cases hwrite : ∀ k i, Keyed w' k i → Keyed w k i
    · exact h.exclusive.quiet hwrite hquiet
    · -- a key is written
      obtain ⟨k, i, hi, hnot⟩ : ∃ k i, Keyed w' k i ∧ ¬Keyed w k i := by
        by_contra hnone
        exact hwrite fun k i hi => by_contra fun hnot => hnone ⟨k, i, hi, hnot⟩
      rcases keyed_of_effect hborn heff hi with hold | ⟨c, rfl, hkeying, hphase⟩
      · exact absurd hold hnot
      · have hidle : w'.calls c = .idle := by
          refine idle_of_commit heff fun req hpurge => ?_
          rw [hpurge] at hphase
          cases hphase
        refine h.exclusive.act hkeying (fun o _ hfalse => hfalse.elim) (o := i)
          (fun k' o hk' => ?_) hquiet fun hk => ?_
        · rcases keyed_of_effect hborn heff hk' with hold | ⟨c', ha, hkeying', hphase'⟩
          · exact .inl hold
          · cases ha
            obtain ⟨req, hreq, hkey⟩ := hkeying
            obtain ⟨req', hreq', hkey'⟩ := hkeying'
            rw [hreq] at hreq'
            cases hreq'
            rw [hphase] at hphase'
            exact .inr ⟨hkey'.symm.trans hkey, (Option.some.inj hphase').symm⟩
        · obtain ⟨req, hreq, -⟩ := hk
          rw [hidle] at hreq
          cases hreq

theorem KeyInv.oneKeyed {w : World} (h : KeyInv w) : OneKeyed w := by
  obtain ⟨f, hborn⟩ := h.born
  intro qrToken deviceKey
  refine hborn.countP_le_one fun d hd hkeyed d' hd' hkeyed' => ?_
  exact h.exclusive.one (k := (qrToken, deviceKey)) ⟨d, hd, hkeyed, rfl⟩ ⟨d', hd', hkeyed', rfl⟩

/-! ## Enrolling again -/

/-- A request for the key of the row `d`, while its code is valid and the purge leaves `d`. -/
structure Returns (w : World) (c : Nat) (req : Enrollment) (d : Device) : Prop where
  idle : w.calls c = .idle
  qrToken : Str.strip req.qrToken ≠ []
  deviceKey : Str.strip req.deviceKey ≠ []
  short : (Str.strip req.deviceKey).length ≤ 255
  code : ∃ code, w.code (Str.strip req.qrToken) = some code ∧ w.now ≤ code.expiresAt
  row : d ∈ w.devices
  keyed : d.keyed (Str.strip req.qrToken) (storedKey (Str.strip req.deviceKey)) = true
  kept : d.expired w.now = false

/-- Statements of request `c`, with nothing in between. -/
def Alone (c : Nat) (acts : List Act) : Prop :=
  ∀ a ∈ acts, a = .commit c ∨ ∃ pick, a = .query c pick

/-- The request is answered with the row, and refused if that is revoked; no row is new. -/
structure AnsweredWith (d : Device) (c : Nat) (w w' : World) : Prop where
  revoked : d.status = .revoked → w'.log = (c, .error 403 "device_revoked") :: w.log
  known : d.status ≠ .revoked → ∃ tok, tok.deviceId = d.id ∧
    w'.log = (c, .enrolled tok d.status .idempotent) :: w.log
  rows : (w'.devices.map (·.id)).Sublist (w.devices.map (·.id))

/-- Request `c` has its answer in `w'`, when nothing comes between its statements. -/
def Served (cfg : Config) (c : Nat) (w w' : World) : Prop :=
  ∃ acts, Alone c acts ∧ w'.calls c = .idle ∧ run (step cfg) w acts = some w'

/-- Enrolling again: there is an answer, and it is always this one. -/
def Idempotent (cfg : Config) (w : World) : Prop :=
  ∀ c req d, Returns w c req d → ∃ w₁, step cfg w (.request c (.enrollDevice req)) = some w₁ ∧
    (∃ w', Served cfg c w₁ w') ∧ ∀ w', Served cfg c w₁ w' → AnsweredWith d c w w'

section Served

variable {cfg : Config} {c : Nat} {w w₁ w' : World}

/-- The next statement of request `c` leads to `w₁`, whatever it reads. -/
structure Next (cfg : Config) (c : Nat) (w w₁ : World) : Prop where
  busy : w.calls c ≠ .idle
  exists_act : ∃ a, (a = .commit c ∨ ∃ pick, a = .query c pick) ∧ step cfg w a = some w₁
  unique : ∀ a w', (a = .commit c ∨ ∃ pick, a = .query c pick) → step cfg w a = some w' → w' = w₁

theorem served_next (h : Next cfg c w w₁) : Served cfg c w w' ↔ Served cfg c w₁ w' := by
  constructor
  · rintro ⟨acts, hacts, hidle, hrun⟩
    cases acts with
    | nil =>
        cases hrun
        exact absurd hidle h.busy
    | cons a acts =>
        cases hs : step cfg w a with
        | none => simp [run, hs] at hrun
        | some w₂ =>
            have hw₂ := h.unique a w₂ (hacts a List.mem_cons_self) hs
            simp only [run, hs, hw₂] at hrun
            exact ⟨acts, fun a' ha' => hacts a' (List.mem_cons_of_mem _ ha'), hidle, hrun⟩
  · rintro ⟨acts, hacts, hidle, hrun⟩
    obtain ⟨a, ha, hs⟩ := h.exists_act
    refine ⟨a :: acts, fun a' ha' => ?_, hidle, by simp only [run, hs, hrun]⟩
    rcases List.mem_cons.mp ha' with rfl | ha'
    · exact ha
    · exact hacts a' ha'

/-- A request that is answered takes no statement. -/
theorem served_idle (hidle : w.calls c = .idle) : Served cfg c w w' ↔ w' = w := by
  constructor
  · rintro ⟨acts, hacts, -, hrun⟩
    cases acts with
    | nil =>
        cases hrun
        rfl
    | cons a acts =>
        rcases hacts a List.mem_cons_self with rfl | ⟨pick, rfl⟩
        · simp [run, step, World.commit, hidle] at hrun
        · simp [run, step, World.query, hidle] at hrun
  · rintro rfl
    exact ⟨[], fun a ha => absurd ha List.not_mem_nil, hidle, rfl⟩

/-- What a request reads when one row has its key. -/
theorem first_unique {rows : List Device} {p : Device → Bool} {d : Device} (hd : d ∈ rows)
    (hp : p d = true) (hunique : ∀ x ∈ rows, p x = true → x = d) {pick : Option Nat}
    {found : Option Device} (h : first rows p pick = some found) : found = some d := by
  cases found with
  | none =>
      rw [first_none h d hd] at hp
      cases hp
  | some x =>
      obtain ⟨hx, hpx⟩ := first_some h
      rw [hunique x hx hpx]

theorem first_picks {rows : List Device} {p : Device → Bool} {d : Device} (hd : d ∈ rows)
    (hp : p d = true) (hunique : ∀ x ∈ rows, p x = true → x = d) :
    first rows p (some d.id) = some (some d) := by
  have hfound : (rows.find? fun x => p x && x.id == d.id) = some d := by
    cases hfind : rows.find? fun x => p x && x.id == d.id with
    | none =>
        have hnone := List.find?_eq_none.mp hfind d hd
        simp [hp] at hnone
    | some x =>
        have hpx := List.find?_some hfind
        rw [hunique x (List.mem_of_find?_eq_some hfind) (Bool.and_eq_true_iff.mp hpx).1]
  simp only [first, hfound, Option.map_some]

theorem next_purge {req : Enrollment} (hc : w.calls c = .purgePending req) :
    Next cfg c w ({ w with devices := w.devices.filter fun d => !d.expired w.now }.proceed c
      (.inl (.enrollCode req w.now))) where
  busy := by
    rw [hc]
    exact fun h => by cases h
  exists_act := ⟨.commit c, .inl rfl, by simp only [step, hc, World.commit]⟩
  unique := by
    rintro a w' (rfl | ⟨pick, rfl⟩) hs
    · simp only [step, hc, World.commit] at hs
      exact (Option.some.inj hs).symm
    · simp [step, hc, World.query] at hs

/-- The code is there and valid. -/
theorem next_code {req : Enrollment} {now : Nat} {code : IssuedToken}
    (hc : w.calls c = .enrollCode req now) (hcode : w.code req.qrToken = some code)
    (hnow : now ≤ code.expiresAt) :
    Next cfg c w (w.proceed c (.inl (.enrollSameKey req now code))) where
  busy := by
    rw [hc]
    exact fun h => by cases h
  exists_act := ⟨.query c none, .inr ⟨none, rfl⟩, by
    simp only [step, hc, World.query, hcode, if_neg (Nat.not_lt.mpr hnow), Option.map_some]⟩
  unique := by
    rintro a w' (rfl | ⟨pick, rfl⟩) hs
    · simp [step, hc, World.commit] at hs
    · simp only [step, hc, World.query, hcode, if_neg (Nat.not_lt.mpr hnow)] at hs
      exact (Option.some.inj hs).symm

/-- The row under the key is `d`. -/
theorem next_key {req : Enrollment} {now : Nat} {code : IssuedToken} {d : Device}
    (hc : w.calls c = .enrollSameKey req now code) (hd : d ∈ w.devices)
    (hkeyed : d.keyed req.qrToken req.deviceKey = true)
    (hunique : ∀ x ∈ w.devices, x.keyed req.qrToken req.deviceKey = true → x = d) :
    Next cfg c w (w.proceed c (if d.status = .revoked then .inr (.error 403 "device_revoked")
      else .inl (.enrollUpdate req now d .idempotent))) where
  busy := by
    rw [hc]
    exact fun h => by cases h
  exists_act := ⟨.query c (some d.id), .inr ⟨_, rfl⟩, by
    simp only [step, hc, World.query, first_picks hd hkeyed hunique, Option.map_some]⟩
  unique := by
    rintro a w' (rfl | ⟨pick, rfl⟩) hs
    · simp [step, hc, World.commit] at hs
    · simp only [step, hc, World.query] at hs
      obtain ⟨next, hnext, rfl⟩ := Option.map_eq_some_iff.mp hs
      obtain ⟨found, hfound, rfl⟩ := Option.map_eq_some_iff.mp hnext
      rw [first_unique hd hkeyed hunique hfound]

theorem next_update {req : Enrollment} {now : Nat} {d : Device} {reason : EnrollReason}
    (hc : w.calls c = .enrollUpdate req now d reason) :
    Next cfg c w (w.update c d (·.reenrolled d cfg req now reason)
      [enrolledToken cfg now w.now d]
      (.enrolled (enrolledToken cfg now w.now d) d.status reason)) where
  busy := by
    rw [hc]
    exact fun h => by cases h
  exists_act := ⟨.commit c, .inl rfl, by simp only [step, hc, World.commit]⟩
  unique := by
    rintro a w' (rfl | ⟨pick, rfl⟩) hs
    · simp only [step, hc, World.commit] at hs
      exact (Option.some.inj hs).symm
    · simp [step, hc, World.query] at hs

/-- The write to a row that is there. -/
theorem update_eq {d : Device} (hd : d ∈ w.devices) (f : Device → Device)
    (signed : List DeviceToken) (answer : Answer) :
    w.update c d f signed answer = { w with
      devices := updateWhere (·.id == d.id) f w.devices
      signed := signed ++ w.signed }.proceed c (.inr answer) := by
  unfold World.update
  split
  · rename_i hnone
    have hmiss := List.find?_eq_none.mp hnone d hd
    simp at hmiss
  · rfl

/-- The state in which an enrolment looks for its key. -/
def World.lookingUp (w : World) (c : Nat) (req : Enrollment) (code : IssuedToken) : World :=
  { w with
    devices := w.devices.filter fun d => !d.expired w.now
    calls := Function.update w.calls c (.enrollSameKey req w.now code) }

/-- A request with a valid code comes to its lookup. -/
theorem served_lookingUp {req : Enrollment} {code : IssuedToken}
    (hcode : w.code req.qrToken = some code) (hnow : w.now ≤ code.expiresAt) :
    Served cfg c (w.proceed c (.inl (.purgePending req))) w' ↔
      Served cfg c (w.lookingUp c req code) w' := by
  have hpurge := @next_purge cfg c (w.proceed c (.inl (.purgePending req))) req
    (Function.update_self ..)
  generalize hw₁ : World.proceed _ c (.inl (.enrollCode req _)) = w₁ at hpurge
  have hc : w₁.calls c = .enrollCode req w.now := by
    rw [← hw₁]
    exact Function.update_self ..
  have hcode' : w₁.code req.qrToken = some code := by
    rw [← hw₁]
    exact hcode
  have hlookingUp : w₁.proceed c (.inl (.enrollSameKey req w.now code)) =
      w.lookingUp c req code := by
    rw [← hw₁]
    simp only [World.proceed, World.lookingUp, Function.update_idem]
  rw [served_next hpurge, served_next (next_code hc hcode' hnow), hlookingUp]

/-- From the lookup on: the row is found, and is the answer. -/
theorem answered_found {req : Enrollment} {now : Nat} {code : IssuedToken} {d : Device}
    (hc : w.calls c = .enrollSameKey req now code) (hd : d ∈ w.devices)
    (hkeyed : d.keyed req.qrToken req.deviceKey = true)
    (hunique : ∀ x ∈ w.devices, x.keyed req.qrToken req.deviceKey = true → x = d) :
    (∃ w', Served cfg c w w') ∧ ∀ w', Served cfg c w w' → AnsweredWith d c w w' := by
  have hfind := @next_key cfg c w req now code d hc hd hkeyed hunique
  by_cases hrevoked : d.status = .revoked
  · rw [if_pos hrevoked] at hfind
    have hserved : ∀ w', Served cfg c w w' ↔ _ := fun w' =>
      (served_next hfind).trans (served_idle (Function.update_self ..))
    refine ⟨⟨_, (hserved _).mpr rfl⟩, fun w' hw' => ?_⟩
    cases (hserved w').mp hw'
    exact ⟨fun _ => rfl, fun hnot => absurd hrevoked hnot, List.Sublist.refl _⟩
  · rw [if_neg hrevoked] at hfind
    have hupdate := @next_update cfg c (w.proceed c (.inl (.enrollUpdate req now d .idempotent)))
      req now d .idempotent (Function.update_self ..)
    rw [update_eq (w := w.proceed c (.inl (.enrollUpdate req now d .idempotent))) hd] at hupdate
    have hserved : ∀ w', Served cfg c w w' ↔ _ := fun w' => (served_next hfind).trans
      ((served_next hupdate).trans (served_idle (Function.update_self ..)))
    refine ⟨⟨_, (hserved _).mpr rfl⟩, fun w' hw' => ?_⟩
    cases (hserved w').mp hw'
    have hids := @ids_updateWhere (·.id == d.id) (·.reenrolled d cfg req now .idempotent)
      (reenrolled_id cfg req now .idempotent d) w.devices
    exact ⟨fun hyes => absurd hyes hrevoked, fun _ => ⟨_, rfl, rfl⟩, hids ▸ List.Sublist.refl _⟩

/-- **Enrolling again**, where the row is the only one under its key. -/
theorem answered_again {req : Enrollment} {d : Device} (h : Returns w c req d)
    (hunique : ∀ x ∈ w.devices,
      x.keyed (Str.strip req.qrToken) (storedKey (Str.strip req.deviceKey)) = true → x = d) :
    ∃ w₁, step cfg w (.request c (.enrollDevice req)) = some w₁ ∧
      (∃ w', Served cfg c w₁ w') ∧ ∀ w', Served cfg c w₁ w' → AnsweredWith d c w w' := by
  obtain ⟨code, hcode, hnow⟩ := h.code
  have hkeyed := h.keyed
  rw [storedKey_of_short h.short] at hkeyed hunique
  have hbegin : step cfg w (.request c (.enrollDevice req)) = some (w.proceed c
      (.inl (.purgePending ⟨Str.strip req.qrToken, Str.strip req.deviceKey, req.fpHash⟩))) := by
    simp only [step, h.idle, World.begin, enrollDevice,
      if_neg (not_or.mpr ⟨h.qrToken, h.deviceKey⟩)]
  refine ⟨_, hbegin, ?_⟩
  generalize hreq : Enrollment.mk (Str.strip req.qrToken) _ _ = stripped
  have hserved : ∀ w', Served cfg c (w.proceed c (.inl (.purgePending stripped))) w' ↔
      Served cfg c (w.lookingUp c stripped code) w' :=
    fun w' => served_lookingUp (by rw [← hreq]; exact hcode) hnow
  -- the purge leaves the row, so it is the one that is found
  have hkept : d ∈ (w.lookingUp c stripped code).devices :=
    List.mem_filter.mpr ⟨h.row, by rw [h.kept]; rfl⟩
  have hunique' : ∀ x ∈ (w.lookingUp c stripped code).devices,
      x.keyed stripped.qrToken stripped.deviceKey = true → x = d := by
    intro x hx hxkeyed
    rw [← hreq] at hxkeyed
    exact hunique x (List.mem_of_mem_filter hx) hxkeyed
  have hkeyed' : d.keyed stripped.qrToken stripped.deviceKey = true := by
    rw [← hreq]
    exact hkeyed
  obtain ⟨⟨w', hw'⟩, hanswered⟩ := @answered_found cfg c (w.lookingUp c stripped code) stripped
    w.now code d (Function.update_self ..) hkept hkeyed' hunique'
  refine ⟨⟨w', (hserved w').mpr hw'⟩, fun w' hw' => ?_⟩
  obtain ⟨hrevoked, hknown, hrows⟩ := hanswered w' ((hserved w').mp hw')
  exact ⟨hrevoked, hknown, hrows.trans (List.filter_sublist.map _)⟩

end Served

/-- **One row per key, and enrolling again returns it**, in every state of a run whose keys
fit and whose enrolments under one key do not overlap. -/
theorem keyed_and_idempotent {cfg : Config} {acts : List Act} {w : World}
    (h : Guarded (step cfg) KeyApart World.start acts)
    (hrun : run (step cfg) World.start acts = some w) : OneKeyed w ∧ Idempotent cfg w := by
  have hinv : KeyInv w := inv_of_guarded (step cfg) KeyInv
    (fun _ _ _ hinv hact hs => keyInv_step hinv hact (effect_of_step hs)) keyInv_start h hrun
  refine ⟨hinv.oneKeyed, fun c req d hreturns => answered_again hreturns fun x hx hxkeyed => ?_⟩
  obtain ⟨f, hborn⟩ := hinv.born
  exact hborn.eq_of_id hx hreturns.row (hinv.exclusive.one
    (k := (Str.strip req.qrToken, storedKey (Str.strip req.deviceKey))) ⟨x, hx, hxkeyed, rfl⟩
    ⟨d, hreturns.row, hreturns.keyed, rfl⟩)

/-- A device enrols, and enrols again under its key. -/
theorem enrolled_again : ∃ w, run (step .standard) World.start oneEnrolled = some w ∧
    w.devices.countP (·.keyed ['q'] ['a']) = 1 ∧ OneKeyed w ∧ Idempotent .standard w := by
  refine ⟨_, rfl, by decide, @keyed_and_idempotent .standard oneEnrolled _ ?_ rfl⟩
  iterate 3
    refine ⟨trivial, fun w hw => ?_⟩
    cases hw
  -- the code
  refine ⟨fun _ _ _ h => (by cases h), fun w hw => ?_⟩
  cases hw
  -- the lookup: the key is short, and no other request is there
  refine ⟨fun req now code h => ?_, fun w hw => ?_⟩
  · cases h
    refine ⟨by decide, fun c' req' hreq' => ?_⟩
    by_cases hc' : c' = 0
    · subst hc'
      cases hreq'
    · change (Function.update (Function.update (Function.update World.start.calls 0 _) 0 _) 0 _
        c').keying = some req' at hreq'
      rw [Function.update_of_ne hc', Function.update_of_ne hc', Function.update_of_ne hc'] at hreq'
      cases hreq'
  cases hw
  refine ⟨fun _ _ _ h => (by cases h), fun w hw => ?_⟩
  cases hw
  exact ⟨trivial, fun _ _ => trivial⟩

/-- A key of 256 characters. -/
def longKey : Str := List.replicate 256 'a'

/-- A device enrols twice under a key that does not fit. -/
def longKeyTwice : List Act :=
  .issueToken ['u'] ['c'] ['q'] 5 :: enrolling 0 ['q'] longKey ++ enrolling 0 ['q'] longKey

/-- Two requests of one device look for its key before either has inserted a row. -/
def crossingKeys : List Act :=
  .issueToken ['u'] ['c'] ['q'] 5 ::
    [.request 0 (.enrollDevice ⟨['q'], ['a'], none⟩),
      .request 1 (.enrollDevice ⟨['q'], ['a'], none⟩), .commit 0, .commit 1] ++
    (List.replicate 3 [.query 0 none, .query 1 none]).flatten ++ [.commit 0, .commit 1]

/-- **Two rows under one key**: a long key twice, and two first requests that cross. -/
theorem two_rows :
    (∃ w, run (step .standard) World.start longKeyTwice = some w ∧ ¬OneKeyed w) ∧
      ∃ w, run (step .standard) World.start crossingKeys = some w ∧ ¬OneKeyed w := by
  constructor
  · have hcount : (run (step .standard) World.start longKeyTwice).map
        (fun w => w.devices.countP (·.keyed ['q'] (storedKey longKey))) = some 2 := by
      decide +kernel
    obtain ⟨w, hw, htwo⟩ := Option.map_eq_some_iff.mp hcount
    refine ⟨w, hw, fun hone => ?_⟩
    have hle := hone ['q'] (storedKey longKey)
    omega
  · have hcount : (run (step .standard) World.start crossingKeys).map
        (fun w => w.devices.countP (·.keyed ['q'] ['a'])) = some 2 := by decide
    obtain ⟨w, hw, htwo⟩ := Option.map_eq_some_iff.mp hcount
    refine ⟨w, hw, fun hone => ?_⟩
    have hle := hone ['q'] ['a']
    omega

end MesReunions.Devices
