import MesReunions.Base.Base64
import MesReunions.Base.JsonDumps

/-!
# Signed device tokens

`libs/shared/app/device_token.py`: the payload as JSON and its signature, both in base64, with a dot
between them. `hmac` stands for HMAC-SHA256, and `repr` for the text of a float.

* `createDeviceToken`, `verifyDeviceToken` — the two functions, under a recursion limit.
* **`verify_create`** — the payload of a token that was created comes back.
* **`verify_ok_iff`** — what is accepted: the bytes of an object, with their signature.
* **`verify_create_append`** — also with characters that the decoder passes over after it.
-/

namespace MesReunions.DeviceToken

open Json Base64

/-- A `ValueError`, with its text. -/
inductive Failure where
  | invalidTokenFormat
  | invalidTokenSignature
  | invalidTokenPayload

def Failure.text : Failure → String
  | .invalidTokenFormat => "invalid_token_format"
  | .invalidTokenSignature => "invalid_token_signature"
  | .invalidTokenPayload => "invalid_token_payload"

abbrev Fields := List (Str × Json)

def b64urlEncode (data : Bytes) : Str := stripped (encode data)

def b64urlDecode (data : Str) : Option Bytes := decode (padded data)

section Model

variable (hmac : Bytes → Bytes → Bytes) (repr : ℚ → Str) (limit : Nat)

/-- `none` when the payload cannot be written. -/
def createDeviceToken (payload : Fields) (secret : Str) : Option Str := do
  let rawPayload := encodeUtf8 (← dumps repr limit (.obj payload))
  let sig := hmac (encodeUtf8 secret) rawPayload
  some (b64urlEncode rawPayload ++ '.' :: b64urlEncode sig)

/-- `token.split(".", 1)`, and both parts decoded. -/
def splitToken (token : Str) : Option (Bytes × Bytes) :=
  match token.span (· != '.') with
  | (_, []) => none
  | (payloadB64, _ :: sigB64) => do
      let rawPayload ← b64urlDecode payloadB64
      let gotSig ← b64urlDecode sigB64
      some (rawPayload, gotSig)

/-- `json.loads(raw_payload.decode("utf-8"))` -/
def loadPayload (rawPayload : Bytes) : Option Json :=
  (decodeStrict rawPayload).bind (loadsText limit)

def verifyDeviceToken (token secret : Str) : Except Failure Fields :=
  match splitToken token with
  | none => .error .invalidTokenFormat
  | some (rawPayload, gotSig) =>
      if gotSig = hmac (encodeUtf8 secret) rawPayload then
        match loadPayload limit rawPayload with
        | some (.obj fields) => .ok fields
        | _ => .error .invalidTokenPayload
      else .error .invalidTokenSignature

end Model

/-! ## The two parts -/

theorem not_dot_of_mem_encode {data : Bytes} {c : Char} (hc : c ∈ b64urlEncode data) :
    (c != '.') = true := by
  obtain ⟨v, hv, rfl⟩ := (stripped_encode data).symbols c hc
  exact bne_iff_ne.mpr (symbol_ne_dot v hv)

theorem span_of_not {s t : Str} (h : ∀ c ∈ s, (c != '.') = true) :
    (s ++ '.' :: t).span (· != '.') = (s, '.' :: t) := by
  rw [List.span_eq_takeWhile_dropWhile, List.takeWhile_append_of_pos h,
    List.dropWhile_append_of_pos h]
  simp

/-- The parts of a token that begins with an encoded body. -/
theorem splitToken_body (rawPayload : Bytes) (sigB64 : Str) :
    splitToken (b64urlEncode rawPayload ++ '.' :: sigB64) =
      (b64urlDecode sigB64).map fun gotSig => (rawPayload, gotSig) := by
  have hdecode : b64urlDecode (b64urlEncode rawPayload) = some rawPayload :=
    decode_padded rawPayload
  rw [splitToken, span_of_not fun c hc => not_dot_of_mem_encode hc]
  dsimp only
  rw [hdecode]
  cases b64urlDecode sigB64 with
  | none => rfl
  | some gotSig => rfl

section Laws

variable {hmac : Bytes → Bytes → Bytes} {repr : ℚ → Str} {limit depthLimit : Nat}
  {payload fields : Fields} {secret token : Str}

/-- What a token is made of. -/
theorem of_create (h : createDeviceToken hmac repr limit payload secret = some token) :
    ∃ text, dumps repr limit (.obj payload) = some text ∧
      token = b64urlEncode (encodeUtf8 text) ++
        '.' :: b64urlEncode (hmac (encodeUtf8 secret) (encodeUtf8 text)) := by
  obtain ⟨text, htext, htoken⟩ := Option.bind_eq_some_iff.mp h
  exact ⟨text, htext, (Option.some.inj htoken).symm⟩

/-- The body of a token is read back. -/
theorem loadPayload_dumps {text : Str} (hread : Readable repr (.obj payload))
    (hdepth : depth (.obj payload) ≤ depthLimit)
    (htext : dumps repr limit (.obj payload) = some text) :
    loadPayload depthLimit (encodeUtf8 text) = some (.obj (sortedFields payload)) := by
  rw [loadPayload, decodeStrict_encodeUtf8 (ascii_dumps hread htext), Option.bind_some,
    loadsText_dumps hread hdepth htext]
  rfl

/-- **What is accepted**: the bytes of an object, with their signature under the secret. -/
theorem verify_ok_iff : verifyDeviceToken hmac depthLimit token secret = .ok fields ↔
    ∃ rawPayload, splitToken token = some (rawPayload, hmac (encodeUtf8 secret) rawPayload) ∧
      loadPayload depthLimit rawPayload = some (.obj fields) := by
  constructor
  · intro h
    unfold verifyDeviceToken at h
    split at h
    · cases h
    · rename_i rawPayload gotSig hsplit
      split at h
      · rename_i hsig
        split at h
        · rename_i hload
          cases h
          exact ⟨rawPayload, by rw [hsplit, hsig], hload⟩
        · cases h
      · cases h
  · rintro ⟨rawPayload, hsplit, hload⟩
    rw [verifyDeviceToken, hsplit]
    dsimp only
    rw [if_pos rfl, hload]

/-- The three ways to be refused. -/
theorem verify_error_iff {failure : Failure} :
    verifyDeviceToken hmac depthLimit token secret = .error failure ↔
      match failure with
      | .invalidTokenFormat => splitToken token = none
      | .invalidTokenSignature => ∃ rawPayload gotSig, splitToken token = some (rawPayload, gotSig) ∧
          gotSig ≠ hmac (encodeUtf8 secret) rawPayload
      | .invalidTokenPayload => ∃ rawPayload,
          splitToken token = some (rawPayload, hmac (encodeUtf8 secret) rawPayload) ∧
          ∀ fields, loadPayload depthLimit rawPayload ≠ some (.obj fields) := by
  unfold verifyDeviceToken
  cases hsplit : splitToken token with
  | none => cases failure <;> simp
  | some parts =>
      obtain ⟨rawPayload, gotSig⟩ := parts
      dsimp only
      by_cases hsig : gotSig = hmac (encodeUtf8 secret) rawPayload
      · rw [if_pos hsig]
        split
        · rename_i fields hload
          cases failure with
          | invalidTokenFormat => simp
          | invalidTokenSignature => simp [hsig]
          | invalidTokenPayload => simp [hsig, hload]
        · rename_i hload
          cases failure with
          | invalidTokenFormat => simp
          | invalidTokenSignature => simp [hsig]
          | invalidTokenPayload => simpa [hsig] using hload
      · rw [if_neg hsig]
        cases failure with
        | invalidTokenFormat => simp
        | invalidTokenSignature => simpa using hsig
        | invalidTokenPayload => simpa using fun h => absurd h hsig

/-- **A token that was created** gives its payload back. -/
theorem verify_create (hread : Readable repr (.obj payload))
    (hdepth : depth (.obj payload) ≤ depthLimit)
    (h : createDeviceToken hmac repr limit payload secret = some token) :
    verifyDeviceToken hmac depthLimit token secret = .ok (sortedFields payload) := by
  obtain ⟨text, htext, rfl⟩ := of_create h
  have hdecode : b64urlDecode (b64urlEncode (hmac (encodeUtf8 secret) (encodeUtf8 text))) =
      some (hmac (encodeUtf8 secret) (encodeUtf8 text)) := decode_padded _
  refine verify_ok_iff.mpr ⟨encodeUtf8 text, ?_, loadPayload_dumps hread hdepth htext⟩
  rw [splitToken_body, hdecode]
  rfl

/-- **Characters that the decoder passes over**, four of them after the signature, are accepted. -/
theorem verify_create_append (hread : Readable repr (.obj payload))
    (hdepth : depth (.obj payload) ≤ depthLimit)
    (h : createDeviceToken hmac repr limit payload secret = some token) :
    verifyDeviceToken hmac depthLimit (token ++ ['!', '!', '!', '!']) secret =
      .ok (sortedFields payload) := by
  obtain ⟨text, htext, rfl⟩ := of_create h
  have hothers : b64urlDecode (b64urlEncode (hmac (encodeUtf8 secret) (encodeUtf8 text)) ++
      ['!', '!', '!', '!']) = some (hmac (encodeUtf8 secret) (encodeUtf8 text)) :=
    (decode_padded_others (by decide) (by decide) (by decide) _).trans (decode_padded _)
  refine verify_ok_iff.mpr ⟨encodeUtf8 text, ?_, loadPayload_dumps hread hdepth htext⟩
  rw [List.append_assoc, List.cons_append, splitToken_body, hothers]
  rfl

/-- A token is of the alphabet and one dot. -/
theorem mem_create (h : createDeviceToken hmac repr limit payload secret = some token) {c : Char}
    (hc : c ∈ token) : c = '.' ∨ ∃ v < 64, c = symbol v := by
  obtain ⟨text, -, rfl⟩ := of_create h
  rw [List.mem_append, List.mem_cons] at hc
  rcases hc with hc | rfl | hc
  · exact Or.inr ((stripped_encode _).symbols c hc)
  · exact Or.inl rfl
  · exact Or.inr ((stripped_encode _).symbols c hc)

theorem create_isSome (hints : intsFit (.obj payload) = true)
    (hdepth : depth (.obj payload) ≤ limit) :
    ∃ token, createDeviceToken hmac repr limit payload secret = some token := by
  rw [createDeviceToken, dumps, if_pos ⟨hints, hdepth⟩]
  exact ⟨_, rfl⟩

end Laws

/-! ## The round trip -/

/-- The token carries an object, and its signature under the secret. -/
def Signed (hmac : Bytes → Bytes → Bytes) (depthLimit : Nat) (secret token : Str)
    (fields : Fields) : Prop :=
  ∃ rawPayload, splitToken token = some (rawPayload, hmac (encodeUtf8 secret) rawPayload) ∧
    loadPayload depthLimit rawPayload = some (.obj fields)

/-- **Round trip.** A payload whose integers and nesting can be written becomes a token, from which
it comes back, and a string is accepted only when it carries an object and its signature under the
secret. Every other one is refused with a `ValueError`. -/
theorem device_token_spec (hmac : Bytes → Bytes → Bytes) (repr : ℚ → Str)
    (limit depthLimit : Nat) (secret : Str) :
    (∀ payload, Readable repr (.obj payload) → intsFit (.obj payload) = true →
      depth (.obj payload) ≤ limit → depth (.obj payload) ≤ depthLimit →
      ∃ token fields, createDeviceToken hmac repr limit payload secret = some token ∧
        verifyDeviceToken hmac depthLimit token secret = .ok fields ∧
        Same (.obj fields) (.obj payload)) ∧
    (∀ token fields, verifyDeviceToken hmac depthLimit token secret = .ok fields ↔
      Signed hmac depthLimit secret token fields) ∧
    (∀ token, (∀ fields, ¬ Signed hmac depthLimit secret token fields) →
      ∃ failure, verifyDeviceToken hmac depthLimit token secret = .error failure) := by
  refine ⟨fun payload hread hints hlimit hdepth => ?_, fun token fields => verify_ok_iff,
    fun token hnone => ?_⟩
  · obtain ⟨token, htoken⟩ : ∃ token, createDeviceToken hmac repr limit payload secret = some token :=
      create_isSome hints hlimit
    exact ⟨token, sortedFields payload, htoken, verify_create hread hdepth htoken,
      same_sorted (.obj payload)⟩
  · cases hverify : verifyDeviceToken hmac depthLimit token secret with
    | error failure => exact ⟨failure, rfl⟩
    | ok fields => exact absurd (verify_ok_iff.mp hverify) (hnone fields)

/-- A signature that two keys or two bodies never share. -/
def paired (key raw : Bytes) : Bytes := key.flatMap (fun b => [1, b]) ++ 0 :: raw

theorem paired_injective {key key' raw raw' : Bytes} (h : paired key raw = paired key' raw') :
    key = key' ∧ raw = raw' := by
  induction key generalizing key' with
  | nil =>
      cases key' with
      | nil => exact ⟨rfl, (List.cons.inj h).2⟩
      | cons b key' => exact absurd (List.cons.inj h).1 (by decide)
  | cons a key ih =>
      cases key' with
      | nil => exact absurd (List.cons.inj h).1 (by decide)
      | cons b key' =>
          have htail := List.cons.inj (List.cons.inj h).2
          obtain ⟨hkey, hraw⟩ := ih htail.2
          exact ⟨by rw [htail.1, hkey], hraw⟩

theorem device_token_spec_name :
    ∃ token fields,
      createDeviceToken paired (fun _ => []) 10 [(['i', 'd'], .int 7), (['a'], .str ['é'])]
        ['k'] = some token ∧
      verifyDeviceToken paired 10 token ['k'] = .ok fields ∧
      Same (.obj fields) (.obj [(['i', 'd'], .int 7), (['a'], .str ['é'])]) :=
  (device_token_spec paired (fun _ => []) 10 10 ['k']).1 _
    ⟨by decide, trivial, trivial, trivial⟩ (by decide +kernel) (by decide) (by decide)

/-- A string that no payload gives, and that is accepted all the same. -/
theorem unsigned_string_accepted :
    ¬ ∀ hmac : Bytes → Bytes → Bytes,
      (∀ key key' raw raw', hmac key raw = hmac key' raw' → key = key' ∧ raw = raw') →
      ∀ (secret token : Str),
        (∀ payload, createDeviceToken hmac (fun _ => []) 10 payload secret ≠ some token) →
        ∃ failure, verifyDeviceToken hmac 10 token secret = .error failure := by
  intro h
  obtain ⟨token, htoken⟩ :
      ∃ token, createDeviceToken paired (fun _ => []) 10 [] ['k'] = some token :=
    create_isSome (by decide) (by decide)
  have hread : Readable (fun _ => []) (.obj []) := ⟨List.nodup_nil, trivial⟩
  have haccepted : verifyDeviceToken paired 10 (token ++ ['!', '!', '!', '!']) ['k'] =
      .ok (sortedFields []) :=
    verify_create_append hread (by decide) htoken
  obtain ⟨failure, hrefused⟩ := h paired (fun _ _ _ _ => paired_injective) ['k']
    (token ++ ['!', '!', '!', '!']) fun payload hcreate => by
      have hmark : '!' ∈ token ++ ['!', '!', '!', '!'] :=
        List.mem_append_right _ List.mem_cons_self
      rcases mem_create hcreate hmark with hdot | ⟨v, hv, hsymbol⟩
      · exact absurd hdot (by decide)
      · have hnone := value_symbol v hv
        rw [← hsymbol] at hnone
        exact absurd (hnone : none = some v) nofun
  rw [haccepted] at hrefused
  cases hrefused

end MesReunions.DeviceToken
