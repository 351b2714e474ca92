import MesReunions.Upload.Sessions

/-!
# What a step of an upload can do

* `Moves` — the steps of a request that write nothing, `Writes` — the four that do;
  **`effect_of_step`** — there are no others, but those of the portal.
* `Changed`, **`row_of_effect`** — what becomes of a row.
* `Came`, **`call_of_effect`** — where a request comes from.
* `attempt_of_effect`, `file_of_effect` — where an attempt and a row of `uploaded_files` do.
-/

namespace MesReunions.Upload

universe u

variable {δ : Type u}

/-! ## Shapes -/

/-- The claim of a session. -/
def World.claimed (w : World δ) (session : Str) : Option δ :=
  (w.sessions session).bind (·.claimedByDeviceId)

/-- A step of request `c` that writes nothing. -/
inductive Moves [DecidableEq δ] (svc : Service) (w : World δ) (c : Nat) :
    Act δ → Next δ → Prop where
  | asked (qrToken : Str) (file : Option String) (hc : w.calls c = .idle) :
      Moves svc w c (.apiUpload c qrToken file) (.goto (.find qrToken file))
  | found (qrToken : Str) (file : Option String) (sess : Session δ)
      (hc : w.calls c = .find qrToken file) (hsess : w.sessions qrToken = some sess)
      (htrashed : sess.trashedAt = none) (hlocked : sess.lockedAt = none) :
      Moves svc w c (.select c) (.goto (.validate ⟨qrToken, sess, file⟩))
  | failed (req : Request δ) (refusal : Refusal) (hc : w.calls c = .validate req) :
      Moves svc w c (.validate c (.error refusal)) (.goto (.failedRead req refusal))
  | counting (req : Request δ) (refusal : Refusal) (sess : Session δ)
      (hc : w.calls c = .failedRead req refusal) (hsess : w.sessions req.session = some sess) :
      Moves svc w c (.select c) (.goto (.failedCommit req refusal sess))
  | validated (req : Request δ) (device : δ) (hc : w.calls c = .validate req) :
      Moves svc w c (.validate c (.ok (some device))) (.goto (.claimRead req device))
  | refused (req : Request δ) (device other : δ) (hc : w.calls c = .claimRead req device)
      (h : w.claimed req.session = some other) (hne : other ≠ device) :
      Moves svc w c (.select c) (.verdict req (some device) .claimedByOtherDevice)
  | unclaimed (req : Request δ) (device : δ) (sess : Session δ)
      (hc : w.calls c = .claimRead req device) (hsess : w.sessions req.session = some sess)
      (hnone : sess.claimedByDeviceId = none) :
      Moves svc w c (.select c) (.goto (.claimUpdate req device sess))
  | own (req : Request δ) (device : δ) (hc : w.calls c = .claimRead req device)
      (h : w.claimed req.session = some device) :
      Moves svc w c (.select c) (.goto (.claimReset req device))
  | lost (req : Request δ) (device : δ) (sess : Session δ)
      (hc : w.calls c = .claimUpdate req device sess)
      (h : w.sessions req.session = none ∨ ∃ other, w.claimed req.session = some other) :
      Moves svc w c (.update c) (.goto (.claimReread req device sess))
  | refusedAgain (req : Request δ) (device : δ) (sess : Session δ)
      (hc : w.calls c = .claimReread req device sess)
      (h : (svc.factory.refetch (w.sessions req.session) sess).any (·.ofOther device) = true) :
      Moves svc w c (.select c) (.verdict req (some device) .claimedByOtherDevice)
  | passed (req : Request δ) (device : δ) (sess : Session δ)
      (hc : w.calls c = .claimReread req device sess)
      (h : (svc.factory.refetch (w.sessions req.session) sess).any (·.ofOther device) = false) :
      Moves svc w c (.select c) (.goto (.claimReset req device))
  | put (req : Request δ) (hc : w.calls c = .store req) :
      Moves svc w c (.put c) (.goto (.insert req))
  | inserted (req : Request δ) (row : Session δ) (hc : w.calls c = .insert req)
      (hrow : w.sessions req.session = some row) :
      Moves svc w c (.select c) (.goto (.commit req row))
  /-- The attempt has failed, and is not counted. -/
  | dropped (a : Act δ) (req : Request δ) (refusal : Refusal)
      (ha : a = .select c ∧ w.sessions req.session = none ∨ a = .error c)
      (hc : w.calls c = .failedRead req refusal ∨
        ∃ sess, w.calls c = .failedCommit req refusal sess) :
      Moves svc w c a (.refuse req refusal)
  /-- A request is refused, or fails. -/
  | ended (a : Act δ) (response : Response) (ha : a.caller = some c)
      (hread : ∀ c', a ≠ .update c') : Moves svc w c a (.answer response)
  /-- A claim returns without having looked, or fails. -/
  | ignored (a : Act δ) (req : Request δ) (device : Option δ) (verdict : Verdict)
      (ha : a.caller = some c) (hread : ∀ c', a ≠ .update c')
      (hc : (w.calls c).claiming = some req) (hok : verdict ≠ .ok)
      (hother : verdict ≠ .claimedByOtherDevice) : Moves svc w c a (.verdict req device verdict)

/-- A write of request `c`. -/
inductive Writes (svc : Service) (w : World δ) (c : Nat) : Write δ → Next δ → Prop where
  | registered (req : Request δ) (refusal : Refusal) (sess : Session δ)
      (hc : w.calls c = .failedCommit req refusal sess) :
      Writes svc w c ⟨req.session, (·.registered sess svc w.now), false⟩ (.refuse req refusal)
  | won (req : Request δ) (device : δ) (sess row : Session δ)
      (hc : w.calls c = .claimUpdate req device sess) (hrow : w.sessions req.session = some row)
      (hnone : row.claimedByDeviceId = none) :
      Writes svc w c ⟨req.session, fun row => { row with claimedByDeviceId := some device }, false⟩
        (.goto (.claimReset req device))
  | granted (req : Request δ) (device : δ) (hc : w.calls c = .claimReset req device) :
      Writes svc w c ⟨req.session, fun row => { row with failedAttempts := 0 }, false⟩
        (.verdict req (some device) .ok)
  | stored (req : Request δ) (row : Session δ) (response : Response)
      (hc : w.calls c = .commit req row) :
      Writes svc w c
        ⟨req.session, fun current => { current with uploadCount := row.uploadCount + 1 }, true⟩
        (.answer response)

/-- What a step does. -/
inductive Effect [DecidableEq δ] (svc : Service) (w : World δ) : Act δ → World δ → Prop where
  | waited (seconds : Nat) : Effect svc w (.wait seconds) { w with now := w.now + seconds }
  | created (qrToken simpleCode : Str) (maxUploads ttl view : Nat) (sess : Session δ)
      (hsess : sess = newSession qrToken simpleCode maxUploads (w.now + ttl) view)
      (h : w.sessions qrToken = none) :
      Effect svc w (.createSession qrToken simpleCode maxUploads ttl view)
        { w with sessions := Function.update w.sessions qrToken (some sess) }
  | trashed (qrToken : Str) :
      Effect svc w (.trashSession qrToken)
        (w.write ⟨qrToken, fun row => { row with trashedAt := some w.now }, false⟩)
  | renewed (qrToken : Str) (expiresAt view addUploads : Nat) :
      Effect svc w (.renewSession qrToken expiresAt view addUploads)
        (w.write ⟨qrToken, (·.renewed expiresAt view addUploads), false⟩)
  | moved (a : Act δ) (c : Nat) (next : Next δ) (h : Moves svc w c a next) :
      Effect svc w a (w.proceed c next)
  | wrote (c : Nat) (write : Write δ) (next : Next δ) (h : Writes svc w c write next) :
      Effect svc w (.update c) ((w.write write).proceed c next)

theorem claimed_of_row {w : World δ} {session : Str} {row : Session δ}
    (h : w.sessions session = some row) : w.claimed session = row.claimedByDeviceId := by
  unfold World.claimed
  rw [h]
  rfl

theorem exists_claim {row : Session δ} (h : ¬row.claimedByDeviceId.isNone) :
    ∃ device, row.claimedByDeviceId = some device :=
  Option.ne_none_iff_exists'.mp fun hnone => h (Option.isNone_iff_eq_none.mpr hnone)

/-- A write that sets nothing. -/
theorem write_id (w : World δ) (session : Str) : w.write ⟨session, id, false⟩ = w := by
  unfold World.write
  simp only [Option.map_id, id_eq, Function.update_eq_self, Bool.false_eq_true, if_false]

variable [DecidableEq δ]

theorem ofOther_iff {sess : Session δ} {device : δ} :
    sess.ofOther device = true ↔ ∃ other, sess.claimedByDeviceId = some other ∧ other ≠ device := by
  unfold Session.ofOther
  rw [Option.any_eq_true]
  simp only [bne_iff_ne, ne_eq]

theorem moves_of_select {svc : Service} {w : World δ} {c : Nat} {next : Next δ}
    (hs : w.select svc (w.calls c) = some next) : Moves svc w c (.select c) next := by
  unfold World.select at hs
  split at hs
  · rename_i qrToken file hc
    have hs := Option.some.inj hs
    split at hs
    · subst hs
      exact .ended _ _ rfl nofun
    · rename_i sess hsess
      split at hs
      · subst hs
        exact .ended _ _ rfl nofun
      · rename_i hfree
        subst hs
        obtain ⟨htrashed, hlocked⟩ := not_or.mp hfree
        exact .found qrToken file sess hc hsess (Option.not_isSome_iff_eq_none.mp htrashed)
          (Option.not_isSome_iff_eq_none.mp hlocked)
  · rename_i req refusal hc
    have hs := Option.some.inj hs
    split at hs
    · rename_i hgone
      subst hs
      exact .dropped _ req refusal (.inl ⟨rfl, hgone⟩) (.inl hc)
    · rename_i sess hsess
      subst hs
      exact .counting req refusal sess hc hsess
  · rename_i req device hc
    have hs := Option.some.inj hs
    split at hs
    · subst hs
      exact .ignored _ req _ .notFound rfl nofun (by rw [hc]; rfl) (by decide) (by decide)
    · rename_i sess hsess
      have hclaimed := claimed_of_row hsess
      split at hs
      · rename_i hother
        obtain ⟨other, hsome, hne⟩ := ofOther_iff.mp hother
        subst hs
        exact .refused req device other hc (hclaimed.trans hsome) hne
      · rename_i hother
        split at hs
        · rename_i hnone
          subst hs
          exact .unclaimed req device sess hc hsess (Option.isNone_iff_eq_none.mp hnone)
        · rename_i hsome
          subst hs
          obtain ⟨d, hd⟩ := exists_claim hsome
          have hsame : d = device := by_contra fun hne => hother (ofOther_iff.mpr ⟨d, hd, hne⟩)
          exact .own req device hc (hclaimed.trans (hsame ▸ hd))
  · rename_i req device sess hc
    have hs := Option.some.inj hs
    split at hs
    · rename_i h
      subst hs
      exact .refusedAgain req device sess hc h
    · rename_i h
      subst hs
      exact .passed req device sess hc (Bool.eq_false_iff.mpr h)
  · rename_i req hc
    have hs := Option.some.inj hs
    split at hs
    · subst hs
      exact .ended _ _ rfl nofun
    · rename_i row hrow
      subst hs
      exact .inserted req row hc hrow
  · cases hs

theorem effect_of_update {svc : Service} {w : World δ} {c : Nat} {x : Write δ × Next δ}
    (hs : w.update svc (w.calls c) = some x) :
    Effect svc w (.update c) ((w.write x.1).proceed c x.2) := by
  unfold World.update at hs
  split at hs
  · rename_i req refusal sess hc
    cases hs
    exact .wrote c _ _ (.registered req refusal sess hc)
  · rename_i req device sess hc
    have hs := Option.some.inj hs
    split at hs
    · rename_i hnone
      subst hs
      rw [Option.any_eq_true] at hnone
      obtain ⟨row, hrow, hrownone⟩ := hnone
      exact .wrote c _ _ (.won req device sess row hc hrow (Option.isNone_iff_eq_none.mp hrownone))
    · rename_i hsome
      subst hs
      rw [write_id]
      refine .moved _ c _ (.lost req device sess hc ?_)
      cases hrow : w.sessions req.session with
      | none => exact .inl rfl
      | some row =>
          rw [hrow, Option.any_some] at hsome
          obtain ⟨other, hother⟩ := exists_claim hsome
          exact .inr ⟨other, (claimed_of_row hrow).trans hother⟩
  · rename_i req device hc
    cases hs
    exact .wrote c _ _ (.granted req device hc)
  · rename_i req row hc
    cases hs
    exact .wrote c _ _ (.stored req row _ hc)
  · cases hs

theorem moves_of_failed {svc : Service} {w : World δ} {c : Nat} {next : Next δ}
    (hs : World.failed (w.calls c) = some next) : Moves svc w c (.error c) next := by
  unfold World.failed at hs
  split at hs
  case h_2 req refusal hc =>
    cases hs
    exact .dropped _ req refusal (.inr rfl) (.inl hc)
  case h_3 req refusal sess hc =>
    cases hs
    exact .dropped _ req refusal (.inr rfl) (.inr ⟨sess, hc⟩)
  all_goals cases hs
  all_goals first
    | exact .ended _ _ rfl nofun
    | refine .ignored _ _ _ .claimErrorIgnored rfl nofun ?_ (by decide) (by decide)
      rename_i hc
      rw [hc]
      rfl

/-- **Every step is one of these.** -/
theorem effect_of_step {svc : Service} {w w' : World δ} {a : Act δ}
    (hs : step svc w a = some w') : Effect svc w a w' := by
  cases a with
  | wait seconds =>
      cases hs
      exact .waited seconds
  | createSession qrToken simpleCode maxUploads ttl view =>
      simp only [step] at hs
      split at hs
      · cases hs
      · rename_i h
        cases hs
        exact .created qrToken simpleCode maxUploads ttl view _ rfl h
  | trashSession qrToken =>
      cases hs
      exact .trashed qrToken
  | renewSession qrToken expiresAt view addUploads =>
      cases hs
      exact .renewed qrToken expiresAt view addUploads
  | apiUpload c qrToken file =>
      simp only [step] at hs
      split at hs
      · rename_i hc
        cases hs
        exact .moved _ c _ (.asked qrToken file hc)
      · cases hs
  | select c =>
      obtain ⟨next, hnext, rfl⟩ := Option.map_eq_some_iff.mp hs
      exact .moved _ c next (moves_of_select hnext)
  | validate c result =>
      obtain ⟨next, hnext, rfl⟩ := Option.map_eq_some_iff.mp hs
      refine .moved _ c next ?_
      unfold World.validated at hnext
      split at hnext
      · rename_i req hc
        have hnext := Option.some.inj hnext
        split at hnext <;> subst hnext
        · exact .failed req _ hc
        · exact .ignored _ req none .noDeviceId rfl nofun (by rw [hc]; rfl) (by decide)
            (by decide)
        · exact .validated req _ hc
      · cases hnext
  | update c =>
      obtain ⟨x, hx, rfl⟩ := Option.map_eq_some_iff.mp hs
      exact effect_of_update hx
  | put c =>
      simp only [step] at hs
      split at hs
      · rename_i req hc
        cases hs
        exact .moved _ c _ (.put req hc)
      · cases hs
  | error c =>
      obtain ⟨next, hnext, rfl⟩ := Option.map_eq_some_iff.mp hs
      exact .moved _ c next (moves_of_failed hnext)

/-! ## Where a request comes from -/

/-- Where a request comes to. -/
def Next.call {δ : Type u} : Next δ → Call δ
  | .goto call => call
  | .answer _ => .idle
  | .refuse _ _ => .idle
  | .verdict req _ v =>
      match req.afterClaim v with
      | .inl call => call
      | .inr _ => .idle

section Proceed

variable {δ : Type u} {w : World δ} {c : Nat} {next : Next δ}

theorem proceed_calls : (w.proceed c next).calls = Function.update w.calls c next.call := by
  cases next with
  | goto call => rfl
  | answer response => rfl
  | refuse req refusal => rfl
  | verdict req device verdict =>
      simp only [World.proceed, Next.call]
      cases req.afterClaim verdict <;> rfl

@[simp] theorem proceed_sessions : (w.proceed c next).sessions = w.sessions := by
  cases next with
  | goto call => rfl
  | answer response => rfl
  | refuse req refusal => rfl
  | verdict req device verdict =>
      simp only [World.proceed]
      split <;> rfl

@[simp] theorem proceed_files : (w.proceed c next).files = w.files := by
  cases next with
  | goto call => rfl
  | answer response => rfl
  | refuse req refusal => rfl
  | verdict req device verdict =>
      simp only [World.proceed]
      split <;> rfl

theorem proceed_attempts : (w.proceed c next).attempts =
    match next with
    | .refuse req _ => .failed c req.session :: w.attempts
    | .verdict req device verdict => .claim ⟨c, req.session, device, verdict⟩ :: w.attempts
    | _ => w.attempts := by
  cases next with
  | goto call => rfl
  | answer response => rfl
  | refuse req refusal => rfl
  | verdict req device verdict =>
      simp only [World.proceed]
      split <;> rfl

theorem write_sessions (write : Write δ) : (w.write write).sessions =
    Function.update w.sessions write.session ((w.sessions write.session).map write.set) := rfl

@[simp] theorem write_calls (write : Write δ) : (w.write write).calls = w.calls := rfl

@[simp] theorem write_attempts (write : Write δ) : (w.write write).attempts = w.attempts := rfl

end Proceed

omit [DecidableEq δ] in
/-- A request goes on past a claim only to the upload to S3, its session still with room. -/
theorem store_of_verdict {req : Request δ} {device : Option δ} {verdict : Verdict}
    (h : (Next.verdict req device verdict).call ≠ .idle) :
    (Next.verdict req device verdict).call = .store req ∧
      req.found.uploadCount < req.found.maxUploads ∧ verdict.result.1 = true := by
  simp only [Next.call] at h ⊢
  unfold Request.afterClaim at h ⊢
  by_cases hverdict : verdict.result.1 = false
  · simp only [if_pos hverdict] at h
    exact absurd rfl h
  · by_cases hstatus : req.found.status ≠ .active
    · simp only [if_neg hverdict, if_pos hstatus] at h
      exact absurd rfl h
    · by_cases hfull : req.found.maxUploads ≤ req.found.uploadCount
      · simp only [if_neg hverdict, if_neg hstatus, if_pos hfull] at h
        exact absurd rfl h
      · cases hfile : req.file with
        | some error =>
            simp only [if_neg hverdict, if_neg hstatus, if_neg hfull, hfile] at h
            exact absurd rfl h
        | none =>
            simp only [if_neg hverdict, if_neg hstatus, if_neg hfull, true_and]
            exact ⟨Nat.lt_of_not_le hfull, Bool.eq_true_of_not_eq_false hverdict⟩

/-- What request `c` may come to, other than staying or being answered. -/
inductive Came (svc : Service) (w w' : World δ) (c : Nat) : Act δ → Call δ → Prop where
  | asked (qrToken : Str) (file : Option String) :
      Came svc w w' c (.apiUpload c qrToken file) (.find qrToken file)
  | found (qrToken : Str) (file : Option String) (sess : Session δ)
      (hc : w.calls c = .find qrToken file) (hsess : w.sessions qrToken = some sess)
      (hlocked : sess.lockedAt = none) :
      Came svc w w' c (.select c) (.validate ⟨qrToken, sess, file⟩)
  | failed (req : Request δ) (refusal : Refusal) (hc : w.calls c = .validate req) :
      Came svc w w' c (.validate c (.error refusal)) (.failedRead req refusal)
  | counting (req : Request δ) (refusal : Refusal) (sess : Session δ)
      (hc : w.calls c = .failedRead req refusal) (hsess : w.sessions req.session = some sess) :
      Came svc w w' c (.select c) (.failedCommit req refusal sess)
  | validated (req : Request δ) (device : δ) (hc : w.calls c = .validate req) :
      Came svc w w' c (.validate c (.ok (some device))) (.claimRead req device)
  | unclaimed (req : Request δ) (device : δ) (sess : Session δ)
      (hc : w.calls c = .claimRead req device) (hsess : w.sessions req.session = some sess)
      (hnone : sess.claimedByDeviceId = none) :
      Came svc w w' c (.select c) (.claimUpdate req device sess)
  | own (req : Request δ) (device : δ) (hc : w.calls c = .claimRead req device)
      (h : w.claimed req.session = some device) :
      Came svc w w' c (.select c) (.claimReset req device)
  | won (req : Request δ) (device : δ) (sess : Session δ)
      (hc : w.calls c = .claimUpdate req device sess)
      (hclaimed : w'.claimed req.session = some device) :
      Came svc w w' c (.update c) (.claimReset req device)
  | lost (req : Request δ) (device : δ) (sess : Session δ)
      (hc : w.calls c = .claimUpdate req device sess)
      (h : w.sessions req.session = none ∨ ∃ other, w.claimed req.session = some other) :
      Came svc w w' c (.update c) (.claimReread req device sess)
  | passed (req : Request δ) (device : δ) (sess : Session δ)
      (hc : w.calls c = .claimReread req device sess)
      (h : (svc.factory.refetch (w.sessions req.session) sess).any (·.ofOther device) = false) :
      Came svc w w' c (.select c) (.claimReset req device)
  | reached (a : Act δ) (req : Request δ) (ha : a.caller = some c)
      (hc : (w.calls c).claiming = some req)
      (hroom : req.found.uploadCount < req.found.maxUploads) : Came svc w w' c a (.store req)
  | put (req : Request δ) (hc : w.calls c = .store req) : Came svc w w' c (.put c) (.insert req)
  | inserted (req : Request δ) (row : Session δ) (hc : w.calls c = .insert req)
      (hrow : w.sessions req.session = some row) :
      Came svc w w' c (.select c) (.commit req row)

theorem Came.caller {svc : Service} {w w' : World δ} {c : Nat} {a : Act δ} {call : Call δ}
    (h : Came svc w w' c a call) : a.caller = some c := by
  cases h with
  | reached _ req ha hc hroom => exact ha
  | asked | found | failed | counting | validated | unclaimed | own | won | lost | passed | put
  | inserted => rfl

theorem came_of_verdict {svc : Service} {w w' : World δ} {c : Nat} {a : Act δ}
    (ha : a.caller = some c) {req : Request δ} (hc : (w.calls c).claiming = some req)
    (device : Option δ) (verdict : Verdict) :
    (Next.verdict req device verdict).call = .idle ∨
      Came svc w w' c a (Next.verdict req device verdict).call := by
  by_cases hidle : (Next.verdict req device verdict).call = .idle
  · exact .inl hidle
  · obtain ⟨hstore, hroom, -⟩ := store_of_verdict hidle
    rw [hstore]
    exact .inr (.reached a req ha hc hroom)

theorem came_of_moves {svc : Service} {w w' : World δ} {c : Nat} {a : Act δ} {next : Next δ}
    (h : Moves svc w c a next) : next.call = .idle ∨ Came svc w w' c a next.call := by
  cases h with
  | asked qrToken file hc => exact .inr (.asked qrToken file)
  | found qrToken file sess hc hsess htrashed hlocked =>
      exact .inr (.found qrToken file sess hc hsess hlocked)
  | failed req refusal hc => exact .inr (.failed req refusal hc)
  | counting req refusal sess hc hsess => exact .inr (.counting req refusal sess hc hsess)
  | validated req device hc => exact .inr (.validated req device hc)
  | refused req device other hc h hne => exact came_of_verdict rfl (by rw [hc]; rfl) _ _
  | unclaimed req device sess hc hsess hnone =>
      exact .inr (.unclaimed req device sess hc hsess hnone)
  | own req device hc h => exact .inr (.own req device hc h)
  | lost req device sess hc h => exact .inr (.lost req device sess hc h)
  | refusedAgain req device sess hc h => exact came_of_verdict rfl (by rw [hc]; rfl) _ _
  | passed req device sess hc h => exact .inr (.passed req device sess hc h)
  | put req hc => exact .inr (.put req hc)
  | inserted req row hc hrow => exact .inr (.inserted req row hc hrow)
  | dropped _ req refusal ha hc => exact .inl rfl
  | ended a response ha hread => exact .inl rfl
  | ignored a req device verdict ha hread hc hok hother => exact came_of_verdict ha hc device verdict

theorem came_of_writes {svc : Service} {w : World δ} {c : Nat} {write : Write δ} {next : Next δ}
    (h : Writes svc w c write next) : next.call = .idle ∨
      Came svc w ((w.write write).proceed c next) c (.update c) next.call := by
  cases h with
  | registered req refusal sess hc => exact .inl rfl
  | won req device sess row hc hrow hnone =>
      refine .inr (.won req device sess hc ?_)
      have hset : (w.write ⟨req.session, fun row => { row with claimedByDeviceId := some device },
          false⟩).sessions req.session = some { row with claimedByDeviceId := some device } := by
        rw [write_sessions, Function.update_self, hrow]
        rfl
      exact claimed_of_row ((congrFun proceed_sessions _).trans hset)
  | granted req device hc => exact came_of_verdict rfl (by rw [hc]; rfl) _ _
  | stored req row response hc => exact .inl rfl

/-- **Where a request is after a step**: where it was, nowhere, or where the step took it. -/
theorem call_of_effect {svc : Service} {w w' : World δ} {a : Act δ} (heff : Effect svc w a w')
    (c : Nat) : w'.calls c = w.calls c ∨ w'.calls c = .idle ∨ Came svc w w' c a (w'.calls c) := by
  cases heff with
  | waited | created | trashed | renewed => exact .inl rfl
  | moved a c' next h =>
      rw [proceed_calls]
      by_cases hc : c = c'
      · subst hc
        rw [Function.update_self]
        exact .inr (came_of_moves h)
      · exact .inl (Function.update_of_ne hc ..)
  | wrote c' write next h =>
      rw [proceed_calls, write_calls]
      by_cases hc : c = c'
      · subst hc
        rw [Function.update_self]
        exact .inr (came_of_writes h)
      · exact .inl (Function.update_of_ne hc ..)

/-! ## What becomes of a row -/

/-- What a step does to the row of a session. -/
inductive Changed (svc : Service) (w : World δ) (session : Str) :
    Act δ → Option (Session δ) → Option (Session δ) → Prop where
  | kept (a : Act δ) (row : Option (Session δ)) : Changed svc w session a row row
  | created (simpleCode : Str) (maxUploads ttl view expiresAt : Nat) :
      Changed svc w session (.createSession session simpleCode maxUploads ttl view) none
        (some (newSession session simpleCode maxUploads expiresAt view))
  | trashed (row : Session δ) (now : Nat) : Changed svc w session (.trashSession session) (some row)
      (some { row with trashedAt := some now })
  | renewed (row : Session δ) (expiresAt view addUploads : Nat) :
      Changed svc w session (.renewSession session expiresAt view addUploads) (some row)
        (some (row.renewed expiresAt view addUploads))
  | registered (c : Nat) (req : Request δ) (refusal : Refusal) (sess row : Session δ)
      (hc : w.calls c = .failedCommit req refusal sess) (hreq : req.session = session) :
      Changed svc w session (.update c) (some row) (some (row.registered sess svc w.now))
  | won (c : Nat) (req : Request δ) (device : δ) (sess row : Session δ)
      (hc : w.calls c = .claimUpdate req device sess) (hreq : req.session = session)
      (hnone : row.claimedByDeviceId = none) :
      Changed svc w session (.update c) (some row)
        (some { row with claimedByDeviceId := some device })
  | granted (c : Nat) (req : Request δ) (device : δ) (row : Session δ)
      (hc : w.calls c = .claimReset req device) (hreq : req.session = session) :
      Changed svc w session (.update c) (some row) (some { row with failedAttempts := 0 })
  | stored (c : Nat) (req : Request δ) (loaded row : Session δ)
      (hc : w.calls c = .commit req loaded) (hreq : req.session = session) :
      Changed svc w session (.update c) (some row)
        (some { row with uploadCount := loaded.uploadCount + 1 })

omit [DecidableEq δ] in
/-- A write changes the row of its session, if there is one, and no other. -/
theorem changed_of_write {svc : Service} {w : World δ} {session : Str} {a : Act δ}
    {write : Write δ} (h : ∀ row, w.sessions session = some row → write.session = session →
      Changed svc w session a (some row) (some (write.set row))) :
    Changed svc w session a (w.sessions session) ((w.write write).sessions session) := by
  rw [write_sessions]
  by_cases hsession : session = write.session
  · rw [hsession, Function.update_self, ← hsession]
    cases hrow : w.sessions session with
    | none => exact .kept a none
    | some row => exact h row hrow hsession.symm
  · rw [Function.update_of_ne hsession]
    exact .kept a _

/-- **What becomes of a row.** -/
theorem row_of_effect {svc : Service} {w w' : World δ} {a : Act δ} (heff : Effect svc w a w')
    (session : Str) : Changed svc w session a (w.sessions session) (w'.sessions session) := by
  cases heff with
  | waited seconds => exact .kept _ _
  | created qrToken simpleCode maxUploads ttl view sess hsess h =>
      show Changed svc w session _ _ (Function.update w.sessions qrToken (some sess) session)
      by_cases hsession : session = qrToken
      · subst hsession
        subst hsess
        rw [h, Function.update_self]
        exact .created simpleCode maxUploads ttl view _
      · rw [Function.update_of_ne hsession]
        exact .kept _ _
  | trashed qrToken =>
      refine changed_of_write fun row hrow hsession => ?_
      subst hsession
      exact .trashed row w.now
  | renewed qrToken expiresAt view addUploads =>
      refine changed_of_write fun row hrow hsession => ?_
      subst hsession
      exact .renewed row expiresAt view addUploads
  | moved a c next h =>
      rw [proceed_sessions]
      exact .kept a _
  | wrote c write next h =>
      rw [proceed_sessions]
      refine changed_of_write fun row hrow hsession => ?_
      cases h with
      | registered req refusal sess hc => exact .registered c req refusal sess row hc hsession
      | won req device sess row' hc hrow' hnone =>
          have hrow' : w.sessions session = some row' := hsession ▸ hrow'
          rw [hrow] at hrow'
          cases hrow'
          exact .won c req device sess row hc hsession hnone
      | granted req device hc => exact .granted c req device row hc hsession
      | stored req loaded response hc => exact .stored c req loaded row hc hsession

/-! ## Claims, attempts and files -/

/-- A claim after a step was there, or its `UPDATE` has just set it. -/
theorem claimed_of_effect {svc : Service} {w w' : World δ} {a : Act δ}
    (heff : Effect svc w a w') (session : Str) :
    w'.claimed session = w.claimed session ∨ w.claimed session = none ∧
      ∃ c req device sess, a = .update c ∧ w.calls c = .claimUpdate req device sess ∧
        req.session = session ∧ w'.claimed session = some device := by
  have hchanged := row_of_effect heff session
  unfold World.claimed
  cases hrow : w.sessions session with
  | none =>
      generalize w'.sessions session = row' at hchanged
      rw [hrow] at hchanged
      cases hchanged <;> exact .inl rfl
  | some row =>
      generalize w'.sessions session = row' at hchanged
      rw [hrow] at hchanged
      cases hchanged with
      | won c req device sess row hc hreq hnone =>
          exact .inr ⟨hnone, c, req, device, sess, rfl, hc, hreq, rfl⟩
      | kept | trashed | renewed | registered | granted | stored => exact .inl rfl

/-- **A claim is kept.** -/
theorem claim_kept {svc : Service} {w w' : World δ} {a : Act δ} (heff : Effect svc w a w')
    {session : Str} {device : δ} (h : w.claimed session = some device) :
    w'.claimed session = some device := by
  rcases claimed_of_effect heff session with hsame | ⟨hnone, -⟩
  · rw [hsame, h]
  · rw [h] at hnone
    cases hnone

/-- No session goes away. -/
theorem session_kept {svc : Service} {w w' : World δ} {a : Act δ} (heff : Effect svc w a w')
    {session : Str} (h : w.sessions session ≠ none) : w'.sessions session ≠ none := by
  have hchanged := row_of_effect heff session
  intro hgone
  rw [hgone] at hchanged
  generalize w.sessions session = row at h hchanged
  cases hchanged
  exact h rfl

/-- **A session that is new** has no upload, no failure and no claim. -/
theorem created_of_effect {svc : Service} {w w' : World δ} {a : Act δ}
    (heff : Effect svc w a w') {session : Str} {row' : Session δ}
    (h : w.sessions session = none) (h' : w'.sessions session = some row') :
    (∃ simpleCode maxUploads expiresAt view,
      row' = newSession session simpleCode maxUploads expiresAt view) ∧
        w'.attempts = w.attempts ∧ w'.files = w.files := by
  have hchanged := row_of_effect heff session
  rw [h, h'] at hchanged
  cases hchanged with
  | created simpleCode maxUploads ttl view expiresAt =>
      refine ⟨⟨simpleCode, maxUploads, expiresAt, view, rfl⟩, ?_⟩
      cases heff with
      | created => exact ⟨rfl, rfl⟩
      | moved _ c next hmoves =>
          cases hmoves with
          | dropped _ req refusal ha => rcases ha with ⟨ha, -⟩ | ha <;> cases ha
          | ended _ response ha => cases ha
          | ignored _ req device verdict ha => cases ha

/-- What an attempt of a step is about. -/
inductive Attempted (svc : Service) (w : World δ) : Act δ → Attempt δ → Prop where
  | granted (c : Nat) (req : Request δ) (device : δ) (hc : w.calls c = .claimReset req device) :
      Attempted svc w (.update c) (.claim ⟨c, req.session, some device, .ok⟩)
  | refused (c : Nat) (req : Request δ) (device other : δ)
      (hc : w.calls c = .claimRead req device) (h : w.claimed req.session = some other)
      (hne : other ≠ device) :
      Attempted svc w (.select c) (.claim ⟨c, req.session, some device, .claimedByOtherDevice⟩)
  | refusedAgain (c : Nat) (req : Request δ) (device : δ) (sess : Session δ)
      (hc : w.calls c = .claimReread req device sess)
      (h : (svc.factory.refetch (w.sessions req.session) sess).any (·.ofOther device) = true) :
      Attempted svc w (.select c) (.claim ⟨c, req.session, some device, .claimedByOtherDevice⟩)
  | ignored (a : Act δ) (e : Return δ) (hok : e.verdict ≠ .ok)
      (hother : e.verdict ≠ .claimedByOtherDevice) : Attempted svc w a (.claim e)
  | failed (a : Act δ) (c : Nat) (session : Str) (hc : (w.calls c).session = some session) :
      Attempted svc w a (.failed c session)

/-- **An attempt** was there, or the step has made it. -/
theorem attempt_of_effect {svc : Service} {w w' : World δ} {a : Act δ}
    (heff : Effect svc w a w') :
    w'.attempts = w.attempts ∨ ∃ e, w'.attempts = e :: w.attempts ∧ Attempted svc w a e := by
  cases heff with
  | waited | created | trashed | renewed => exact .inl rfl
  | moved a c next h =>
      rw [proceed_attempts]
      cases h with
      | refused req device other hc h hne => exact .inr ⟨_, rfl, .refused c req device other hc h hne⟩
      | refusedAgain req device sess hc h =>
          exact .inr ⟨_, rfl, .refusedAgain c req device sess hc h⟩
      | ignored _ req device verdict ha hread hc hok hother =>
          exact .inr ⟨_, rfl, .ignored _ _ hok hother⟩
      | dropped _ req refusal ha hc =>
          refine .inr ⟨_, rfl, .failed _ c req.session ?_⟩
          rcases hc with hc | ⟨sess, hc⟩ <;> rw [hc] <;> rfl
      | asked | found | failed | counting | validated | unclaimed | own | lost | passed | put
      | inserted | ended => exact .inl rfl
  | wrote c write next h =>
      rw [proceed_attempts]
      cases h with
      | granted req device hc => exact .inr ⟨_, rfl, .granted c req device hc⟩
      | registered req refusal sess hc =>
          exact .inr ⟨_, rfl, .failed _ c req.session (by rw [hc]; rfl)⟩
      | won | stored => exact .inl rfl

omit [DecidableEq δ] in
/-- The write of a request that is at no commit. -/
theorem other_update {w : World δ} {c : Nat} {call : Call δ} (hc : w.calls c = call)
    (hcall : ∀ req row, call ≠ .commit req row) :
    ∀ (c' : Nat) (req : Request δ) (row : Session δ),
      (Act.update c : Act δ) = .update c' → w.calls c' ≠ .commit req row := by
  intro c' req row ha hcommit
  cases ha
  rw [hc] at hcommit
  exact hcall req row hcommit

/-- **A row of `uploaded_files`** was there, or the commit of a request brings it. -/
theorem file_of_effect {svc : Service} {w w' : World δ} {a : Act δ} (heff : Effect svc w a w') :
    (w'.files = w.files ∧ ∀ c req row, a = .update c → w.calls c ≠ .commit req row) ∨
      ∃ c req row, a = .update c ∧ w.calls c = .commit req row ∧
        w'.files = req.session :: w.files ∧ w'.sessions req.session =
          (w.sessions req.session).map fun now =>
            { now with uploadCount := row.uploadCount + 1 } := by
  cases heff with
  | waited | created | trashed | renewed => exact .inl ⟨rfl, fun _ _ _ ha => by cases ha⟩
  | moved a c next h =>
      rw [proceed_files]
      refine .inl ⟨rfl, fun c' req row ha hcommit => ?_⟩
      cases h with
      | lost req device sess hc h =>
          cases ha
          rw [hc] at hcommit
          cases hcommit
      | dropped _ req refusal hfail hc =>
          rcases hfail with ⟨hfail, -⟩ | hfail
          · rw [hfail] at ha
            cases ha
          · rw [hfail] at ha
            cases ha
      | ended _ response _ hread => exact hread c' ha
      | ignored _ _ _ _ _ hread => exact hread c' ha
      | asked | found | failed | counting | validated | refused | unclaimed | own | refusedAgain
      | passed | put | inserted => cases ha
  | wrote c write next h =>
      rw [proceed_files]
      cases h with
      | stored req row response hc =>
          refine .inr ⟨c, req, row, rfl, hc, rfl, ?_⟩
          rw [proceed_sessions, write_sessions, Function.update_self]
      | registered req refusal sess hc => exact .inl ⟨rfl, other_update hc fun _ _ h => by cases h⟩
      | won req device sess row hc hrow hnone => exact .inl ⟨rfl, other_update hc fun _ _ h => by cases h⟩
      | granted req device hc => exact .inl ⟨rfl, other_update hc fun _ _ h => by cases h⟩

end MesReunions.Upload
