import MiniVault.Foundations.Base64
import MiniVault.Runtime.World

/-!
# Encryption

`core/encoding.py` and `core/crypto.py`: Base 64, and AES-256-GCM with the nonce
in front of the ciphertext and the tag behind it.

## What is assumed of the cipher, where it is

* `GcmCorrect` — decryption undoes encryption under the same key, nonce and
  associated data, and the ciphertext has its 16-byte tag at the end.
* `OpensOnly w key aad blob` — what an ideal cipher adds: the blob opens under the
  key and the associated data only if it came out of an encryption that took place.
-/

namespace MiniVault

open Foundations

variable [Platform]

/-! ### Base 64 -/

/-- `encode_b64`. -/
def encodeB64 (data : Bytes) : PyStr := ofChars (Base64.encode data)

/-- `decode_b64`. Text that is not ASCII raises `UnicodeEncodeError`. The rest is the documented strict mode; CPython
3.11 also takes padding after a complete group. -/
def decodeB64 : Value → Except Exc Bytes
  | .str s =>
    if s.all fun c => c.code < 128 then
      match Base64.decode (s.filterMap PyChar.scalar?) with
      | some b => .ok b
      | none => .error .binasciiError
    else .error .unicodeEncodeError
  | _ => .error (.valueError "Base64 value must be a string")

omit [Platform] in
/-- Decoding undoes encoding. -/
@[simp] theorem decodeB64_encodeB64 (b : Bytes) : decodeB64 (.str (encodeB64 b)) = .ok b := by
  have hascii : (encodeB64 b).all fun c => c.code < 128 := by
    rw [List.all_eq_true]
    intro c hc
    obtain ⟨d, hd, rfl⟩ := List.mem_map.mp hc
    exact decide_eq_true (Base64.ascii_of_mem_encode hd)
  rw [decodeB64, if_pos hascii, encodeB64, filterMap_scalar?_ofChars, Base64.decode_encode]

omit [Platform] in
@[simp] theorem encodable_encodeB64 (b : Bytes) : Encodable (encodeB64 b) := encodable_ofChars _

omit [Platform] in
theorem utf8Length_encodeB64 (b : Bytes) : utf8Length (encodeB64 b) = 4 * ((b.length + 2) / 3) := by
  rw [encodeB64, utf8Length_ofChars, Base64.length_encode]
  exact fun c hc => Char.utf8Size_eq_one_iff.mpr (Nat.le_of_lt_succ (Base64.ascii_of_mem_encode hc))

omit [Platform] in
/-- Encoded text has no colon. -/
theorem colon_notMem_encodeB64 (b : Bytes) : PyChar.scalar ':' ∉ encodeB64 b := by
  intro h
  obtain ⟨c, hc, hcolon⟩ := List.mem_map.mp h
  exact Base64.colon_notMem_encode b (PyChar.scalar.inj hcolon ▸ hc)

omit [Platform] in
theorem encodeB64_inj {a b : Bytes} (h : encodeB64 a = encodeB64 b) : a = b := by
  have := decodeB64_encodeB64 a
  rw [h, decodeB64_encodeB64] at this
  exact (Except.ok.inj this).symm

/-! ### AES-256-GCM -/

/-- `AES_256_KEY_LENGTH`. -/
def aes256KeyLength : ℕ := 32

/-- `GCM_NONCE_LENGTH`. -/
def gcmNonceLength : ℕ := 12

/-- `GCM_TAG_LENGTH`. -/
def gcmTagLength : ℕ := 16

/-- `encrypted[:-GCM_TAG_LENGTH]` and `encrypted[-GCM_TAG_LENGTH:]` behind the nonce. -/
def EncryptedBlob.split (nonce encrypted : Bytes) : EncryptedBlob where
  nonce := nonce
  ciphertext := encrypted.take (encrypted.length - gcmTagLength)
  tag := encrypted.drop (encrypted.length - gcmTagLength)

/-- Keep a record of an encryption. -/
def recordSealing (s : Sealing) : Act Unit :=
  Prog.change .record fun w => { w with sealed := w.sealed ++ [s] }

/-- `encrypt_aes_gcm`, with the nonce it draws. -/
def encryptAesGcm (key plaintext associatedData : Bytes) (nonce : Nonce) : Act EncryptedBlob := do
  if key.length ≠ aes256KeyLength then
    throw (.valueError "AES-256 key must contain exactly 32 bytes")
  let encrypted ← Prog.done (Platform.aesGcmEncrypt key nonce plaintext associatedData)
  let blob := EncryptedBlob.split nonce encrypted
  recordSealing ⟨key, associatedData, plaintext, blob⟩
  return blob

/-- `decrypt_aes_gcm`. -/
def decryptAesGcm (key : Bytes) (blob : EncryptedBlob) (associatedData : Bytes) : Except Exc Bytes :=
  if key.length ≠ aes256KeyLength then
    .error (.valueError "AES-256 key must contain exactly 32 bytes")
  else if blob.nonce.length ≠ gcmNonceLength then
    .error (.valueError "AES-GCM nonce must contain exactly 12 bytes")
  else if blob.tag.length ≠ gcmTagLength then
    .error (.valueError "AES-GCM tag must contain exactly 16 bytes")
  else Platform.aesGcmDecrypt key blob.nonce (blob.ciphertext ++ blob.tag) associatedData

/-- `except (InvalidTag, ValueError)`: what the services take for tampering. -/
def isTampering (e : Exc) : Bool := e = .invalidTag || e.isValueError

/-- Decryption undoes encryption, and the tag is there. -/
def GcmCorrect : Prop :=
  ∀ (key : Key) (nonce : Nonce) (plaintext aad encrypted : Bytes),
    Platform.aesGcmEncrypt key nonce plaintext aad = .ok encrypted →
      gcmTagLength ≤ encrypted.length ∧ Platform.aesGcmDecrypt key nonce encrypted aad = .ok plaintext

/-- An ideal cipher opens the blob, under the key and the associated data, only if
the blob came out of an encryption that took place. -/
def OpensOnly (w : World) (key aad : Bytes) (blob : EncryptedBlob) : Prop :=
  ∀ plaintext, decryptAesGcm key blob aad = .ok plaintext → ⟨key, aad, plaintext, blob⟩ ∈ w.sealed

instance (w : World) (key aad : Bytes) (blob : EncryptedBlob) : Decidable (OpensOnly w key aad blob) :=
  match h : decryptAesGcm key blob aad with
  | .ok p => decidable_of_iff (⟨key, aad, p, blob⟩ ∈ w.sealed) (by simp [OpensOnly, h])
  | .error e => isTrue (by simp [OpensOnly, h])

/-- The blob is sealed: it opens under the key and the associated data to the plaintext. -/
def Opens (key aad : Bytes) (blob : EncryptedBlob) (plaintext : Bytes) : Prop :=
  decryptAesGcm key blob aad = .ok plaintext

/-- The blob is bound to its associated data: it opens under the key with no other. -/
def BoundTo (key aad : Bytes) (blob : EncryptedBlob) : Prop :=
  ∀ other plaintext, Opens key other blob plaintext → other = aad

/-- What an encryption that succeeds does. -/
theorem run_encryptAesGcm_eq_ok {key plaintext aad : Bytes} {nonce : Nonce} {w w' : World}
    {blob : EncryptedBlob} :
    (encryptAesGcm key plaintext aad nonce).run w = (.ok blob, w') ↔
      key.length = 32 ∧ ∃ encrypted, Platform.aesGcmEncrypt key nonce plaintext aad = .ok encrypted ∧
        blob = .split nonce encrypted ∧ w' = { w with sealed := w.sealed ++ [⟨key, aad, plaintext, blob⟩] } := by
  unfold encryptAesGcm
  by_cases hk : key.length = 32
  · simp only [hk, aes256KeyLength, ne_eq, not_true_eq_false, ↓reduceIte, true_and,
      Prog.run_bind_eq_ok, Prog.run_done, Prod.mk.injEq, Prog.run_pure, Except.ok.injEq, recordSealing,
      Prog.run_change]
    constructor
    · rintro ⟨encrypted, w₁, ⟨henc, rfl⟩, u, w₂, rfl, rfl, rfl⟩
      exact ⟨encrypted, henc, rfl, rfl⟩
    · rintro ⟨encrypted, henc, rfl, rfl⟩
      exact ⟨encrypted, w, ⟨henc, rfl⟩, (), _, rfl, rfl, rfl⟩
  · simp [hk, aes256KeyLength]

/-- An encryption changes nothing but the record. -/
theorem encryptAesGcm_keeps {γ : Type} {f : World → γ} {key plaintext aad : Bytes} {nonce : Nonce}
    (hf : ∀ w sealed, f { w with sealed := sealed } = f w) : Keeps f (encryptAesGcm key plaintext aad nonce) := by
  refine Prog.Sat.ite (fun _ => Keeps.throw _) fun _ => ?_
  exact Keeps.bind (.done _) fun _ => .bind (.change fun w => hf w _) fun _ => .pure _

/-- An encryption that fails leaves everything. -/
theorem encryptAesGcm_failKeeps {γ : Type} {f : World → γ} {key plaintext aad : Bytes} {nonce : Nonce} :
    FailKeeps f (encryptAesGcm key plaintext aad nonce) := by
  intro w e w' h
  unfold encryptAesGcm recordSealing at h
  by_cases hk : key.length = 32
  · rcases henc : Platform.aesGcmEncrypt key nonce plaintext aad with x | encrypted
    · simp only [hk, aes256KeyLength, ne_eq, not_true_eq_false, ↓reduceIte, Prog.run_bind, Prog.run_done, henc,
        Prod.mk.injEq] at h
      rw [h.2]
    · simp [hk, aes256KeyLength, Prog.run_bind, henc] at h
  · simp only [hk, aes256KeyLength, ne_eq, not_false_eq_true, ↓reduceIte, Prog.throw_bind, Prog.run_throw,
      Prod.mk.injEq] at h
    rw [h.2]

/-- An encryption encrypts what it was called with. -/
theorem encryptAesGcm_seals {P : Sealing → Prop} {key plaintext aad : Bytes} {nonce : Nonce}
    (h : ∀ encrypted, key.length = 32 → Platform.aesGcmEncrypt key nonce plaintext aad = .ok encrypted →
      P ⟨key, aad, plaintext, .split nonce encrypted⟩) : Seals P (encryptAesGcm key plaintext aad nonce) := by
  unfold encryptAesGcm
  refine Prog.Sat.ite (fun _ => .throw _) fun hlen => .bind_done fun encrypted henc => .bind (.change fun w _ => ?_)
    fun _ => .pure _
  simp only [aes256KeyLength, ne_eq, Decidable.not_not] at hlen
  exact ⟨_, rfl, by simpa using h encrypted hlen henc⟩

/-- **What was encrypted opens**, under the key and the associated data it was
encrypted with. -/
theorem GcmCorrect.opens (h : GcmCorrect) {key : Bytes} {nonce : Nonce} {plaintext aad encrypted : Bytes}
    (hk : key.length = 32) (henc : Platform.aesGcmEncrypt key nonce plaintext aad = .ok encrypted) :
    Opens key aad (.split nonce encrypted) plaintext := by
  obtain ⟨hlen, hdec⟩ := h ⟨key, hk⟩ nonce plaintext aad encrypted henc
  have htag : (encrypted.drop (encrypted.length - gcmTagLength)).length = gcmTagLength := by
    rw [List.length_drop]
    omega
  simp only [Opens, decryptAesGcm, EncryptedBlob.split, hk, aes256KeyLength, nonce.2, gcmNonceLength, htag, ne_eq,
    not_true_eq_false, ↓reduceIte, List.take_append_drop]
  exact hdec

/-- What opens has a 32-byte key, a 12-byte nonce and a 16-byte tag. -/
theorem Opens.lengths {key aad plaintext : Bytes} {blob : EncryptedBlob} (h : Opens key aad blob plaintext) :
    key.length = 32 ∧ blob.nonce.length = 12 ∧ blob.tag.length = 16 := by
  unfold Opens decryptAesGcm at h
  split_ifs at h with hk hn ht
  simp only [aes256KeyLength, gcmNonceLength, gcmTagLength, ne_eq, Decidable.not_not] at hk hn ht
  exact ⟨hk, hn, ht⟩

/-- A blob opens to one plaintext. -/
theorem Opens.unique {key aad p q : Bytes} {blob : EncryptedBlob} (hp : Opens key aad blob p)
    (hq : Opens key aad blob q) : p = q :=
  Except.ok.inj (hp.symm.trans hq)

end MiniVault
