import Mathlib.Logic.Function.Basic
import MesReunions.Base.Num
import MesReunions.Base.TSys

/-!
# OIDC tokens of a web session

`services/mesreunions-web/app/modules/auth/token_store.py`: the tokens of a session are in a row
of `web_session_tokens`, encrypted where the key is configured. One column says so of all three.

* `Fernet` — one key; what it decrypts is what it has encrypted.
* `enc`, `dec`, `saveTokens`, `loadTokens`, `updateTokens`, `deleteTokens` — of the source, with
  the memo of the request.
* `Returned` — a load gives back what was written last.
* **`returned_iff`** — it does in the runs where an update finds the key as the row was written, or
  leaves no token as it was.
* **`id_token_dropped`** — the key is configured between a login and a refresh.
-/

namespace MesReunions.TokenStore

open TSys

/-- `secrets_crypto`, with a key. Each encryption draws a nonce. -/
structure Fernet where
  encrypt : Nat → Str → Str
  /-- `none`: an exception. -/
  decrypt : Str → Option Str
  decrypt_encrypt : ∀ n s, decrypt (encrypt n s) = some s
  encrypt_of_decrypt : ∀ {c s}, decrypt c = some s → ∃ n, encrypt n s = c
  longer : ∀ n s, s.length < (encrypt n s).length

inductive Field where
  | idToken
  | accessToken
  | refreshToken
  deriving DecidableEq

/-- A value for each of `id_token`, `access_token`, `refresh_token`. -/
abbrev Tokens := Field → Option Str

/-- A row of `web_session_tokens`. -/
structure WebSessionToken where
  tokens : Tokens
  encrypted : Bool
  updatedAt : Nat

structure World where
  /-- By `token_ref`. -/
  rows : Nat → Option WebSessionToken
  /-- The next of `secrets.token_urlsafe(32)`. -/
  nextRef : Nat
  now : Nat
  /-- `secrets_crypto.is_configured()`, in the process of the current request. -/
  configured : Bool
  /-- `flask.g`, of the current request. -/
  cache : Option (Nat × Tokens)
  /-- What was written last; for the statements only. -/
  written : Nat → Tokens

def World.start : World where
  rows _ := none
  nextRef := 0
  now := 0
  configured := false
  cache := none
  written _ _ := none

variable (F : Fernet)

/-- `_enc(value, use_crypto)` -/
def enc (nonce : Nat) (useCrypto : Bool) (value : Option Str) : Option Str :=
  match value with
  | none | some [] => none
  | some v => some (if useCrypto then F.encrypt nonce v else v)

/-- `_dec(value, was_encrypted)`; without a key, `decrypt` raises too. -/
def dec (configured : Bool) (value : Option Str) (wasEncrypted : Bool) : Option Str :=
  match value with
  | none | some [] => none
  | some v =>
      if wasEncrypted = false then some v
      else if configured then F.decrypt v
      else none

/-- `timedelta(days=_ttl_days())`, from `WEB_SESSION_TOKENS_TTL_DAYS`. -/
def ttl (ttlDays : Nat) : Nat := max 1 ttlDays * 24 * 3600

/-- `save_tokens`: the rows of dead sessions are purged, and a row is added. -/
def saveTokens (ttlDays : Nat) (nonce : Field → Nat) (values : Tokens) (w : World) : World :=
  let kept := fun ref => (w.rows ref).filter fun row => w.now ≤ row.updatedAt + ttl ttlDays
  { w with
    rows := Function.update kept w.nextRef
      (some ⟨fun f => enc F (nonce f) w.configured (values f), w.configured, w.now⟩)
    nextRef := w.nextRef + 1
    written := Function.update w.written w.nextRef fun f => (values f).filter (· ≠ []) }

/-- `load_tokens(ref)`: the tokens, if there is a row, and the memo. -/
def loadTokens (ref : Nat) (w : World) : Option Tokens × World :=
  match w.cache with
  | some (cached, out) => if cached = ref then (some out, w) else fromRow
  | none => fromRow
where
  fromRow : Option Tokens × World :=
    match w.rows ref with
    | none => (none, w)
    | some row =>
        let out : Tokens := fun f => dec F w.configured (row.tokens f) row.encrypted
        (some out, { w with cache := some (ref, out) })

/-- What `update_tokens` is given: no `id_token`, and the others where they are not `None`. -/
def changes (accessToken refreshToken : Option Str) : Tokens
  | .idToken => none
  | .accessToken => accessToken
  | .refreshToken => refreshToken

/-- `update_tokens(ref, access_token, refresh_token)` -/
def updateTokens (ref : Nat) (nonce : Field → Nat) (accessToken refreshToken : Option Str)
    (w : World) : World :=
  match w.rows ref with
  | none => w
  | some row =>
      let tokens : Tokens := fun f =>
        match changes accessToken refreshToken f with
        | some v => enc F (nonce f) w.configured (some v)
        | none => row.tokens f
      let written : Tokens := fun f =>
        match changes accessToken refreshToken f with
        | some v => (some v).filter (· ≠ [])
        | none => w.written ref f
      { w with
        rows := Function.update w.rows ref (some ⟨tokens, w.configured, w.now⟩)
        cache := none
        written := Function.update w.written ref written }

/-- `delete_tokens(ref)` -/
def deleteTokens (ref : Nat) (w : World) : World :=
  { w with
    rows := Function.update w.rows ref none
    cache := none }

inductive Act where
  /-- A request begins, in a process that has the key or not. -/
  | request (configured : Bool)
  | save (ttlDays : Nat) (nonce : Field → Nat) (values : Tokens)
  | load (ref : Nat)
  | update (ref : Nat) (nonce : Field → Nat) (accessToken refreshToken : Option Str)
  | delete (ref : Nat)
  | wait (d : Nat)

def step (w : World) : Act → Option World
  | .request configured => some { w with configured, cache := none }
  | .save ttlDays nonce values => some (saveTokens F ttlDays nonce values w)
  | .load ref => some (loadTokens F ref w).2
  | .update ref nonce accessToken refreshToken =>
      some (updateTokens F ref nonce accessToken refreshToken w)
  | .delete ref => some (deleteTokens ref w)
  | .wait d => some { w with now := w.now + d }

/-! ## Statements -/

/-- **A load that has the key its row needs** gives back what was written last, and none of it as
a ciphertext. An empty text is no token. -/
def Returned (w : World) : Prop :=
  ∀ ref row, w.rows ref = some row → (row.encrypted = true → w.configured = true) →
    ∃ out, (loadTokens F ref w).1 = some out ∧
      ∀ f, out f = w.written ref f ∧ ∀ n v, w.written ref f = some v → out f ≠ some (F.encrypt n v)

/-- An update finds the key as the row was written, or leaves no token as it was. -/
def Act.Uniform (w : World) : Act → Prop
  | .update ref _ accessToken refreshToken =>
      ∀ row, w.rows ref = some row →
        w.configured = row.encrypted ∨
          ∀ f, changes accessToken refreshToken f = none → row.tokens f = none
  | _ => True

/-! ## One column -/

/-- A column of a row, for the value that was written last. -/
inductive Stored : Bool → Option Str → Option Str → Prop
  | absent (encrypted : Bool) : Stored encrypted none none
  | clear {v : Str} (hv : v ≠ []) : Stored false (some v) (some v)
  | cipher {v : Str} (hv : v ≠ []) (n : Nat) : Stored true (some (F.encrypt n v)) (some v)

variable {F}

theorem encrypt_ne_nil (n : Nat) (v : Str) : F.encrypt n v ≠ [] := by
  intro hnil
  have hlt := F.longer n v
  rw [hnil] at hlt
  exact absurd hlt (Nat.not_lt_zero _)

theorem encrypt_ne (n : Nat) (v : Str) : F.encrypt n v ≠ v := by
  intro heq
  have hlt := F.longer n v
  rw [heq] at hlt
  exact Nat.lt_irrefl _ hlt

theorem dec_some {configured wasEncrypted : Bool} {v : Str} (hv : v ≠ []) :
    dec F configured (some v) wasEncrypted =
      if wasEncrypted = false then some v else if configured then F.decrypt v else none := by
  cases v with
  | nil => exact absurd rfl hv
  | cons c v => rfl

theorem stored_enc (n : Nat) (useCrypto : Bool) (value : Option Str) :
    Stored F useCrypto (enc F n useCrypto value) (value.filter (· ≠ [])) := by
  cases value with
  | none => exact .absent useCrypto
  | some v =>
      cases v with
      | nil => exact .absent useCrypto
      | cons c v =>
          cases useCrypto with
          | true => exact .cipher (List.cons_ne_nil c v) n
          | false => exact .clear (List.cons_ne_nil c v)

/-- No token is no token of the other kind. -/
theorem stored_none {encrypted : Bool} {written : Option Str} (h : Stored F encrypted none written)
    (encrypted' : Bool) : Stored F encrypted' none written := by
  cases h
  exact .absent encrypted'

/-- A column is read back. -/
theorem dec_of_stored {encrypted configured : Bool} {value written : Option Str}
    (h : Stored F encrypted value written) (hkey : encrypted = true → configured = true) :
    dec F configured value encrypted = written := by
  cases h with
  | absent => rfl
  | clear hv => rw [dec_some hv, if_pos rfl]
  | cipher hv n =>
      rw [dec_some (encrypt_ne_nil n _), if_neg (by decide), hkey rfl, if_pos rfl,
        F.decrypt_encrypt]

/-- A column that is taken for the other kind is not. -/
theorem dec_of_flipped {encrypted configured : Bool} {value written : Option Str}
    (h : Stored F encrypted value written) (hne : value ≠ none) (hflip : configured ≠ encrypted) :
    dec F configured value configured ≠ written := by
  cases h with
  | absent => exact absurd rfl hne
  | @clear v hv =>
      have hconfigured : configured = true := by simpa using hflip
      subst hconfigured
      rw [dec_some hv, if_neg (by decide), if_pos rfl]
      -- Of a text that could be decrypted, the plain text is shorter.
      intro hdec
      obtain ⟨n, hn⟩ := F.encrypt_of_decrypt hdec
      exact encrypt_ne n v hn
  | @cipher v hv n =>
      have hconfigured : configured = false := by simpa using hflip
      subst hconfigured
      rw [dec_some (encrypt_ne_nil n v), if_pos rfl]
      intro heq
      exact encrypt_ne n v (Option.some.inj heq)

/-! ## The invariant -/

variable (F) in
/-- Every column is what its row says, and the memo is up to date. -/
structure Inv (w : World) : Prop where
  fresh : ∀ ref, w.nextRef ≤ ref → w.rows ref = none
  stored : ∀ ref row, w.rows ref = some row →
    ∀ f, Stored F row.encrypted (row.tokens f) (w.written ref f)
  cached : ∀ ref out, w.cache = some (ref, out) → ref < w.nextRef ∧
    ∀ row, w.rows ref = some row → (row.encrypted = true → w.configured = true) →
      ∀ f, out f = w.written ref f

theorem inv_start : Inv F .start where
  fresh := fun _ _ => rfl
  stored := nofun
  cached := nofun

theorem returned_of_inv {w : World} (h : Inv F w) : Returned F w := by
  intro ref row hrow hkey
  have hgives : ∃ out, (loadTokens F ref w).1 = some out ∧ ∀ f, out f = w.written ref f := by
    have hread : ∃ out, (loadTokens.fromRow F ref w).1 = some out ∧
        ∀ f, out f = w.written ref f := by
      rw [loadTokens.fromRow, hrow]
      exact ⟨_, rfl, fun f => dec_of_stored (h.stored ref row hrow f) hkey⟩
    unfold loadTokens
    cases hcache : w.cache with
    | none => exact hread
    | some memo =>
        obtain ⟨cached, out⟩ := memo
        by_cases hsame : cached = ref
        · subst hsame
          simp only [if_pos]
          exact ⟨out, rfl, (h.cached cached out hcache).2 row hrow hkey⟩
        · simp only [if_neg hsame]
          exact hread
  obtain ⟨out, hout, hsame⟩ := hgives
  refine ⟨out, hout, fun f => ⟨hsame f, fun n v hv heq => ?_⟩⟩
  rw [hsame f, hv] at heq
  exact encrypt_ne n v (Option.some.inj heq).symm

section Steps

variable {w : World}

theorem Inv.request (h : Inv F w) (configured : Bool) :
    Inv F { w with configured, cache := none } where
  fresh := h.fresh
  stored := h.stored
  cached := nofun

theorem Inv.wait (h : Inv F w) (d : Nat) : Inv F { w with now := w.now + d } where
  fresh := h.fresh
  stored := h.stored
  cached := h.cached

section Save

variable {ttlDays : Nat} {nonce : Field → Nat} {values : Tokens}

theorem saveTokens_rows_self : (saveTokens F ttlDays nonce values w).rows w.nextRef =
    some ⟨fun f => enc F (nonce f) w.configured (values f), w.configured, w.now⟩ := by
  simp only [saveTokens, Function.update_self]

/-- The other rows are kept, or purged. -/
theorem rows_of_saveTokens {ref : Nat} (hne : ref ≠ w.nextRef) {row : WebSessionToken}
    (h : (saveTokens F ttlDays nonce values w).rows ref = some row) : w.rows ref = some row := by
  have hkept : (saveTokens F ttlDays nonce values w).rows ref =
      (w.rows ref).filter fun row => w.now ≤ row.updatedAt + ttl ttlDays := by
    simp only [saveTokens, Function.update_of_ne hne]
  rw [hkept] at h
  exact (Option.filter_eq_some_iff.mp h).1

theorem saveTokens_written_self : (saveTokens F ttlDays nonce values w).written w.nextRef =
    fun f => (values f).filter (· ≠ []) :=
  Function.update_self ..

theorem saveTokens_written {ref : Nat} (hne : ref ≠ w.nextRef) :
    (saveTokens F ttlDays nonce values w).written ref = w.written ref :=
  Function.update_of_ne hne ..

theorem Inv.save (h : Inv F w) : Inv F (saveTokens F ttlDays nonce values w) where
  fresh := by
    intro ref hle
    have hlt : w.nextRef < ref := hle
    cases hrow : (saveTokens F ttlDays nonce values w).rows ref with
    | none => rfl
    | some row =>
        have hold := rows_of_saveTokens hlt.ne' hrow
        rw [h.fresh ref hlt.le] at hold
        cases hold
  stored := by
    intro ref row hrow f
    by_cases hne : ref = w.nextRef
    · subst hne
      rw [saveTokens_rows_self] at hrow
      cases hrow
      rw [saveTokens_written_self]
      exact stored_enc _ _ _
    · rw [saveTokens_written hne]
      exact h.stored ref row (rows_of_saveTokens hne hrow) f
  cached := by
    intro ref out hcache
    obtain ⟨hlt, hmemo⟩ := h.cached ref out hcache
    refine ⟨Nat.lt_succ_of_lt hlt, fun row hrow hkey f => ?_⟩
    rw [saveTokens_written hlt.ne]
    exact hmemo row (rows_of_saveTokens hlt.ne hrow) hkey f

end Save

theorem Inv.load (h : Inv F w) (ref : Nat) : Inv F (loadTokens F ref w).2 := by
  have hread : Inv F (loadTokens.fromRow F ref w).2 := by
    rw [loadTokens.fromRow]
    cases hrow : w.rows ref with
    | none => exact h
    | some row =>
        refine ⟨h.fresh, h.stored, fun ref' out hcache => ?_⟩
        cases hcache
        refine ⟨?_, fun row' hrow' hkey f => ?_⟩
        · by_contra hge
          rw [h.fresh ref (not_lt.mp hge)] at hrow
          cases hrow
        · have hsame : some row = some row' := hrow.symm.trans hrow'
          cases hsame
          exact dec_of_stored (h.stored ref row hrow f) hkey
  unfold loadTokens
  cases hcache : w.cache with
  | none => exact hread
  | some memo =>
      obtain ⟨cached, out⟩ := memo
      by_cases hsame : cached = ref
      · simp only [if_pos hsame]
        exact h
      · simp only [if_neg hsame]
        exact hread

theorem Inv.delete (h : Inv F w) (ref : Nat) : Inv F (deleteTokens ref w) where
  fresh := by
    intro ref' hle
    show Function.update w.rows ref none ref' = none
    by_cases hne : ref' = ref
    · rw [hne, Function.update_self]
    · rw [Function.update_of_ne hne, h.fresh ref' hle]
  stored := by
    intro ref' row hrow f
    change Function.update w.rows ref none ref' = some row at hrow
    by_cases hne : ref' = ref
    · rw [hne, Function.update_self] at hrow
      cases hrow
    · rw [Function.update_of_ne hne] at hrow
      exact h.stored ref' row hrow f
  cached := nofun

/-- **An update that leaves nothing of another kind** keeps every column what its row says. -/
theorem Inv.update (h : Inv F w) {ref : Nat} {nonce : Field → Nat}
    {accessToken refreshToken : Option Str}
    (huniform : (Act.update ref nonce accessToken refreshToken).Uniform w) :
    Inv F (updateTokens F ref nonce accessToken refreshToken w) := by
  unfold updateTokens
  cases hrow : w.rows ref with
  | none => exact h
  | some row =>
      refine ⟨fun ref' hle => ?_, fun ref' row' hrow' f => ?_, nofun⟩
      · have hne : ref' ≠ ref := by
          rintro rfl
          rw [h.fresh ref' hle] at hrow
          cases hrow
        show Function.update w.rows ref _ ref' = none
        rw [Function.update_of_ne hne, h.fresh ref' hle]
      · change Function.update w.rows ref _ ref' = some row' at hrow'
        show Stored F row'.encrypted (row'.tokens f) (Function.update w.written ref _ ref' f)
        by_cases hne : ref' = ref
        · subst hne
          rw [Function.update_self] at hrow' ⊢
          cases hrow'
          dsimp only
          cases hchange : changes accessToken refreshToken f with
          | some v => exact stored_enc _ _ _
          | none =>
              have hold := h.stored ref' row hrow f
              rcases huniform row hrow with hsame | hnone
              · rw [hsame]
                exact hold
              · rw [hnone f hchange] at hold ⊢
                exact stored_none hold w.configured
        · rw [Function.update_of_ne hne] at hrow' ⊢
          exact h.stored ref' row' hrow' f

/-- **An update that leaves a token of the other kind** loses it: the row is taken for what the
update has made of it. -/
theorem uniform_of_returned (h : Inv F w) {ref : Nat} {nonce : Field → Nat}
    {accessToken refreshToken : Option Str}
    (hreturned : Returned F (updateTokens F ref nonce accessToken refreshToken w)) :
    (Act.update ref nonce accessToken refreshToken).Uniform w := by
  intro row hrow
  by_contra hnot
  obtain ⟨hflip, hleft⟩ := not_or.mp hnot
  obtain ⟨f, hf⟩ := not_forall.mp hleft
  obtain ⟨hchange, hne⟩ := Classical.not_imp.mp hf
  unfold updateTokens at hreturned
  rw [hrow] at hreturned
  obtain ⟨out, hout, hsame⟩ := hreturned ref _ (Function.update_self ..) id
  have hread : out f = dec F w.configured (row.tokens f) w.configured := by
    rw [loadTokens] at hout
    simp only [loadTokens.fromRow, Function.update_self] at hout
    cases hout
    simp only [hchange]
  have hwritten := (hsame f).1
  simp only [Function.update_self, hchange] at hwritten
  exact dec_of_flipped (h.stored ref row hrow f) hne hflip (hread.symm.trans hwritten)

end Steps

/-! ## Runs -/

theorem inv_step {w w' : World} {a : Act} (h : Inv F w) (huniform : a.Uniform w)
    (hs : step F w a = some w') : Inv F w' := by
  cases a with
  | request configured =>
      cases hs
      exact h.request configured
  | save ttlDays nonce values =>
      cases hs
      exact h.save
  | load ref =>
      cases hs
      exact h.load ref
  | update ref nonce accessToken refreshToken =>
      cases hs
      exact h.update huniform
  | delete ref =>
      cases hs
      exact h.delete ref
  | wait d =>
      cases hs
      exact h.wait d

theorem returned_step_iff {w w' : World} {a : Act} (h : Inv F w) (hs : step F w a = some w') :
    Returned F w' ↔ a.Uniform w := by
  refine ⟨fun hreturned => ?_, fun huniform => returned_of_inv (inv_step h huniform hs)⟩
  cases a with
  | update ref nonce accessToken refreshToken =>
      cases hs
      exact uniform_of_returned h hreturned
  | _ => trivial

/-- **What is stored is returned**, in every state of a run, exactly where each update finds the key
as the row was written, or leaves no token as it was. -/
theorem returned_iff {acts : List Act} {w : World} (hrun : run (step F) .start acts = some w) :
    Along (step F) (fun _ _ w' => Returned F w') .start acts ↔
      Guarded (step F) (fun w a => a.Uniform w) .start acts :=
  along_iff_guarded (step F) (Inv F) (fun _ _ _ h hs => returned_step_iff h hs)
    (fun _ _ _ h huniform hs => inv_step h huniform hs) inv_start hrun

/-! ## A login and a refresh -/

/-- A ciphertext starts with `gAAAAA`. -/
def prefixFernet : Fernet where
  encrypt _ s := ['g', 'A', 'A', 'A', 'A', 'A'] ++ s
  decrypt
    | 'g' :: 'A' :: 'A' :: 'A' :: 'A' :: 'A' :: s => some s
    | _ => none
  decrypt_encrypt _ _ := rfl
  encrypt_of_decrypt := by
    intro c s h
    split at h
    · cases h
      exact ⟨0, rfl⟩
    · cases h
  longer n s := by
    rw [List.length_append]
    exact Nat.lt_add_of_pos_left (by decide)

/-- The tokens of a login. -/
def loginTokens : Tokens
  | .idToken => some ['i']
  | .accessToken => some ['a']
  | .refreshToken => some ['r']

/-- A login, then a refresh in another request. -/
def loginAndRefresh (atLogin atRefresh : Bool) : List Act :=
  [.request atLogin, .save 14 (fun _ => 0) loginTokens, .request atRefresh,
    .update 0 (fun _ => 1) (some ['b']) none, .request atRefresh, .load 0]

/-- With the key all along. -/
theorem keyed_refresh_returned : ∃ w,
    run (step prefixFernet) .start (loginAndRefresh true true) = some w ∧
      w.written 0 .accessToken = some ['b'] ∧ w.written 0 .idToken = some ['i'] ∧
      Along (step prefixFernet) (fun _ _ w' => Returned prefixFernet w') .start
        (loginAndRefresh true true) := by
  obtain ⟨w, hrun, haccess, hid⟩ : ∃ w,
      run (step prefixFernet) .start (loginAndRefresh true true) = some w ∧
        w.written 0 .accessToken = some ['b'] ∧ w.written 0 .idToken = some ['i'] :=
    ⟨_, rfl, rfl, rfl⟩
  refine ⟨w, hrun, haccess, hid, (returned_iff hrun).mpr ?_⟩
  refine guarded_cons _ trivial rfl (guarded_cons _ trivial rfl (guarded_cons _ trivial rfl
    (guarded_cons _ ?_ rfl (guarded_cons _ trivial rfl (guarded_cons _ trivial rfl trivial)))))
  intro row hrow
  cases hrow
  exact .inl rfl

/-- **The key is configured between a login and a refresh**: the id token, which the refresh leaves
in clear, is taken for a ciphertext and dropped. -/
theorem id_token_dropped : ¬ ∀ (F : Fernet) acts w, run (step F) .start acts = some w →
    Along (step F) (fun _ _ w' => Returned F w') .start acts := by
  intro hall
  have halong := hall prefixFernet (loginAndRefresh false true) _ rfl
  obtain ⟨-, halong⟩ := halong _ rfl
  obtain ⟨-, halong⟩ := halong _ rfl
  obtain ⟨-, halong⟩ := halong _ rfl
  obtain ⟨hreturned, -⟩ := halong _ rfl
  obtain ⟨out, hout, hsame⟩ := hreturned 0 _ rfl fun _ => rfl
  cases hout
  exact absurd (hsame .idToken).1 nofun

end MesReunions.TokenStore
