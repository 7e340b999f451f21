import MiniVault.Core.Vault

/-!
# Transit ciphertexts

`transit/ciphertext.py`: a ciphertext names the key and the version it was made with, so
that a client need not remember either. The first version of a key is framed without its
number, every other one with it:

    vault:<key_name>:<payload>
    vault:v<N>:<key_name>:<payload>

A key may be called `v2`. What tells the two forms apart is the number of colons: neither a
key's name nor the payload has one.

## What is proved

* `parse_format` — a ciphertext is parsed to the key, the version and the blob it was
  formatted from, up to the largest version `VERSION_PATTERN` accepts.
-/

namespace MiniVault

open Foundations

/-- `CIPHERTEXT_PREFIX`. -/
def ciphertextPrefix : PyStr := py "vault"

/-- `DEFAULT_KEY_VERSION`. -/
def defaultKeyVersion : ℤ := 1

/-- `[A-Za-z0-9._-]`. -/
def isKeyNameChar (c : PyChar) : Bool :=
  isLowercase c || isUppercase c || isDecimalDigit c || c = .scalar '.' || c = .scalar '_' || c = .scalar '-'

/-- `KEY_NAME_PATTERN.fullmatch`. -/
def keyNamePattern (s : PyStr) : Bool := 1 ≤ s.length && s.length ≤ 64 && s.all isKeyNameChar

/-- `VERSION_PATTERN.fullmatch`, with the digits it finds: `v([1-9][0-9]{0,8})`. -/
def versionPattern : PyStr → Option PyStr
  | v :: d :: ds =>
    if v = .scalar 'v' ∧ isDecimalDigit d ∧ d ≠ .scalar '0' ∧ ds.length ≤ 8 ∧ ds.all isDecimalDigit then some (d :: ds)
    else none
  | _ => none

/-- `TransitCiphertext`. -/
structure TransitCiphertext where
  /-- `key_name`. -/
  keyName : PyStr
  /-- `key_version`. -/
  keyVersion : ℤ
  /-- `blob`. -/
  blob : EncryptedBlob
  deriving DecidableEq

/-- `blob.nonce + blob.ciphertext + blob.tag`. -/
def EncryptedBlob.payload (blob : EncryptedBlob) : Bytes := blob.nonce ++ blob.ciphertext ++ blob.tag

/-- `format_ciphertext`. -/
def formatCiphertext (keyName : PyStr) (keyVersion : ℤ) (blob : EncryptedBlob) : Except Exc PyStr :=
  if !keyNamePattern keyName then .error (.valueError "Invalid key name")
  else if keyVersion < 1 then .error (.valueError "Invalid key version")
  else
    let payload := encodeB64 blob.payload
    if keyVersion = defaultKeyVersion then .ok (ciphertextPrefix ++ py ":" ++ keyName ++ py ":" ++ payload)
    else
      (intRepr keyVersion).map fun version =>
        ciphertextPrefix ++ py ":v" ++ version ++ py ":" ++ keyName ++ py ":" ++ payload

/-- The parts of a token: prefix, key name, version and payload. -/
def tokenParts (token : PyStr) : Except Exc (PyStr × PyStr × ℤ × PyStr) :=
  match splitMax (.scalar ':') 3 token with
  | [start, keyName, payloadB64] => .ok (start, keyName, defaultKeyVersion, payloadB64)
  | [start, versionSegment, keyName, payloadB64] =>
    match versionPattern versionSegment with
    | none => .error .malformedCiphertextError
    | some digits => .ok (start, keyName, natOfDigits digits, payloadB64)
  | _ => .error .malformedCiphertextError

/-- The blob in a payload: a nonce, a ciphertext and a tag. -/
def splitPayload (payload : Bytes) : EncryptedBlob where
  nonce := payload.take gcmNonceLength
  ciphertext := (payload.take (payload.length - gcmTagLength)).drop gcmNonceLength
  tag := payload.drop (payload.length - gcmTagLength)

/-- `parse_ciphertext`. Whatever `decode_b64` raises for text is a `ValueError`. -/
def parseCiphertext (token : PyStr) : Except Exc TransitCiphertext := do
  let (start, keyName, keyVersion, payloadB64) ← tokenParts token
  if start ≠ ciphertextPrefix ∨ !keyNamePattern keyName then .error .malformedCiphertextError
  else
    match decodeB64 (.str payloadB64) with
    | .error _ => .error .malformedCiphertextError
    | .ok payload =>
      if payload.length < gcmNonceLength + gcmTagLength then .error .malformedCiphertextError
      else .ok ⟨keyName, keyVersion, splitPayload payload⟩

/-! ### Names and numbers -/

/-- A name has no colon. -/
theorem colon_notMem_keyName {s : PyStr} (h : keyNamePattern s) : PyChar.scalar ':' ∉ s := by
  intro hmem
  simp only [keyNamePattern, Bool.and_eq_true, List.all_eq_true] at h
  exact absurd (h.2 _ hmem) (by decide)

/-- A name has UTF-8 bytes. -/
theorem encodable_keyName {s : PyStr} (h : keyNamePattern s) : Encodable s := by
  intro c hc
  simp only [keyNamePattern, Bool.and_eq_true, List.all_eq_true] at h
  have hchar := h.2 c hc
  cases c with
  | scalar c => rfl
  | surrogate k =>
    -- surrogates are beyond the letters and digits
    have hk := k.2
    simp only [isKeyNameChar, isLowercase, isUppercase, isDecimalDigit, Bool.or_eq_true, Bool.and_eq_true,
      decide_eq_true_eq, reduceCtorEq, or_false] at hchar
    simp only [PyChar.code] at hchar
    omega

/-- Few of them. -/
theorem bindable_keyName {s : PyStr} (h : keyNamePattern s) : Bindable s := by
  apply bindable_of_length (encodable_keyName h)
  simp only [keyNamePattern, Bool.and_eq_true, decide_eq_true_eq] at h
  omega

theorem isDecimalDigit_scalar {c : Char} (h : c.isDigit) : isDecimalDigit (.scalar c) := by
  simp only [Char.isDigit, Bool.and_eq_true, decide_eq_true_eq, ge_iff_le] at h
  have hlow : 48 ≤ c.val.toNat := h.1
  have hhigh : c.val.toNat ≤ 57 := h.2
  simp only [isDecimalDigit, Bool.and_eq_true, decide_eq_true_eq]
  exact ⟨hlow, hhigh⟩

/-- The digits of a version in range are what the pattern accepts. -/
theorem versionPattern_natText {n : ℕ} (hpos : 0 < n) (hmax : n ≤ 999999999) :
    versionPattern (.scalar 'v' :: natText n) = some (natText n) := by
  obtain ⟨d, ds, hn, hd⟩ := natText_head hpos
  have hlen : (natText n).length ≤ 9 := by
    rw [natText, ofChars, List.length_map, Nat.length_toDigits_le_iff (by omega) (by omega)]
    omega
  have hdigits : ∀ c ∈ natText n, isDecimalDigit c := by
    intro c hc
    obtain ⟨e, rfl, he⟩ := isDigit_of_mem_natText hc
    exact isDecimalDigit_scalar he
  rw [hn] at hlen hdigits ⊢
  simp only [List.length_cons] at hlen
  have hrest : ds.length ≤ 8 := by omega
  simp only [List.mem_cons, forall_eq_or_imp] at hdigits
  have hall : ds.all isDecimalDigit := List.all_eq_true.mpr hdigits.2
  simp only [versionPattern, hdigits.1, ne_eq, PyChar.scalar.injEq, hd, not_false_eq_true, hrest, hall, and_self,
    ↓reduceIte]

/-! ### Parsing undoes formatting -/

/-- A payload is split where it was joined. -/
theorem splitPayload_payload {blob : EncryptedBlob} (hnonce : blob.nonce.length = gcmNonceLength)
    (htag : blob.tag.length = gcmTagLength) : splitPayload blob.payload = blob := by
  have hlen : blob.payload.length - gcmTagLength = (blob.nonce ++ blob.ciphertext).length := by
    simp only [EncryptedBlob.payload, List.length_append]
    omega
  unfold splitPayload
  rw [hlen]
  simp only [EncryptedBlob.payload, List.take_left, List.drop_left]
  rw [List.append_assoc, ← hnonce, List.take_left]
  simp

/-- A token is made for the name of a key. -/
theorem keyName_of_format {keyName token : PyStr} {keyVersion : ℤ} {blob : EncryptedBlob}
    (h : formatCiphertext keyName keyVersion blob = .ok token) : keyNamePattern keyName := by
  by_contra hname
  rw [Bool.not_eq_true] at hname
  simp [formatCiphertext, hname] at h

/-- The parts of what `format_ciphertext` makes. -/
theorem tokenParts_format {keyName token : PyStr} {keyVersion : ℤ} {blob : EncryptedBlob}
    (h : formatCiphertext keyName keyVersion blob = .ok token) (hmax : keyVersion ≤ 999999999) :
    keyNamePattern keyName ∧
      tokenParts token = .ok (ciphertextPrefix, keyName, keyVersion, encodeB64 blob.payload) := by
  have hpayload : PyChar.scalar ':' ∉ encodeB64 blob.payload := colon_notMem_encodeB64 _
  have hstart : PyChar.scalar ':' ∉ ciphertextPrefix := by decide
  unfold formatCiphertext at h
  split_ifs at h with hname hpos hone
  · -- the first version: three parts
    subst hone
    simp only [Bool.not_eq_true', Bool.not_eq_false] at hname
    refine ⟨hname, ?_⟩
    have htoken : token = ciphertextPrefix ++ .scalar ':' :: (keyName ++ .scalar ':' :: encodeB64 blob.payload) := by
      rw [← Except.ok.inj h]
      simp [py, ofChars]
    unfold tokenParts
    rw [htoken, splitMax_append hstart, splitMax_append (colon_notMem_keyName hname), splitMax_of_notMem hpayload]
  · -- a later version: four parts
    simp only [Bool.not_eq_true', Bool.not_eq_false] at hname
    refine ⟨hname, ?_⟩
    obtain ⟨n, rfl⟩ : ∃ n : ℕ, keyVersion = n := ⟨keyVersion.toNat, by omega⟩
    have htoken : token = ciphertextPrefix ++ .scalar ':' ::
        ((.scalar 'v' :: natText n) ++ .scalar ':' :: (keyName ++ .scalar ':' :: encodeB64 blob.payload)) := by
      rcases hversion : intRepr n with e | version
      · simp [hversion, Except.map] at h
      · simp only [hversion, Except.map, Except.ok.injEq] at h
        rw [← h, intRepr_eq_ok hversion]
        simp [py, ofChars, decimal]
    have hversion : PyChar.scalar ':' ∉ PyChar.scalar 'v' :: natText n := by
      rw [List.mem_cons, not_or]
      exact ⟨by decide, sep_notMem_decimal (by decide) (by decide) n⟩
    unfold tokenParts
    rw [htoken, splitMax_append hstart, splitMax_append hversion, splitMax_append (colon_notMem_keyName hname)]
    have hrest : splitMax (.scalar ':') 0 (encodeB64 blob.payload) = [encodeB64 blob.payload] :=
      splitMax_of_notMem hpayload 0
    simp only [hrest, versionPattern_natText (show 0 < n by omega) (show n ≤ 999999999 by omega), natOfDigits_natText]

example : tokenParts (py "vault:v2:AAAA") = .ok (py "vault", py "v2", 1, py "AAAA") := by decide +kernel

/-- **Parsing undoes formatting**, for the versions the pattern accepts. -/
theorem parse_format {keyName token : PyStr} {keyVersion : ℤ} {blob : EncryptedBlob}
    (h : formatCiphertext keyName keyVersion blob = .ok token) (hmax : keyVersion ≤ 999999999)
    (hnonce : blob.nonce.length = gcmNonceLength) (htag : blob.tag.length = gcmTagLength) :
    parseCiphertext token = .ok ⟨keyName, keyVersion, blob⟩ := by
  obtain ⟨hname, hparts⟩ := tokenParts_format h hmax
  have hlen : ¬ blob.payload.length < gcmNonceLength + gcmTagLength := by
    simp only [EncryptedBlob.payload, List.length_append]
    omega
  unfold parseCiphertext
  simp only [hparts, ok_bind, ne_eq, not_true_eq_false, hname, Bool.not_true, Bool.false_eq_true, or_self, ↓reduceIte,
    decodeB64_encodeB64, hlen, splitPayload_payload hnonce htag]

end MiniVault
