import MiniVault.Core.Crypto

/-!
# A sample platform

A platform small enough to run: a cipher that writes key, nonce and associated data
in front of the plaintext and checks them, a digest that is its input, signatures that
are private key and message. It satisfies what the theorems assume of a platform
(`samplePlatform_gcmCorrect`), and their assumptions are tried on it.
-/

namespace MiniVault

open Foundations

/-- Bytes that show where they end. -/
def framed (b : Bytes) : Bytes := b.flatMap (fun x => [1, x]) ++ [0]

/-- What the sample cipher writes in front of the plaintext. -/
def samplePrefix (key nonce aad : Bytes) : Bytes := framed key ++ framed nonce ++ framed aad

/-- The sample cipher's tag. -/
def sampleTag : Bytes := List.replicate 16 0

/-- The sample cipher: anyone could read what it encrypts, but it opens only what was
encrypted under the same key, nonce and associated data. -/
def sampleEncrypt (key nonce plaintext aad : Bytes) : Bytes :=
  samplePrefix key nonce aad ++ plaintext ++ sampleTag

/-- Opening what the sample cipher wrote. -/
def sampleDecrypt (key nonce data aad : Bytes) : Except Exc Bytes :=
  let front := samplePrefix key nonce aad
  let rest := data.drop front.length
  if data.take front.length = front ∧ 16 ≤ rest.length ∧ rest.drop (rest.length - 16) = sampleTag then
    .ok (rest.take (rest.length - 16))
  else .error .invalidTag

theorem sampleDecrypt_sampleEncrypt (key nonce plaintext aad : Bytes) :
    sampleDecrypt key nonce (sampleEncrypt key nonce plaintext aad) aad = .ok plaintext := by
  have hlen : (plaintext ++ sampleTag).length - 16 = plaintext.length := by simp [sampleTag]
  have hge : 16 ≤ (plaintext ++ sampleTag).length := by simp [sampleTag]
  simp only [sampleDecrypt, sampleEncrypt, List.append_assoc, List.take_left, List.drop_left, hlen, hge, true_and,
    ↓reduceIte]

/-- The documents the sample platform can read. -/
def sampleLoads (text : PyStr) : Except LoadsError Json :=
  if text = py "\x7b\x7d" then .ok (.obj [])
  else if text = py "\x7b\"a\":null\x7d" then .ok (.obj [(py "a", .null)])
  else .error .notJson

/-- A change of case among the ASCII letters. -/
def mapScalar (f : Char → Char) : PyChar → PyChar
  | .scalar c => .scalar (f c)
  | .surrogate k => .surrogate k

/-- The sample platform. -/
@[reducible] def samplePlatform : Platform where
  lower s := s.map (mapScalar Char.toLower)
  upper s := s.map (mapScalar Char.toUpper)
  intOfText s :=
    if s ≠ [] ∧ s.all (fun c => 48 ≤ c.code && c.code ≤ 57) then some (natOfDigits s) else none
  intOfBytes _ := none
  floatRepr _ := ⟨"0.0".toList, by simp⟩
  jsonLoads := sampleLoads
  dumpsDepth := 900
  sha256 data := data
  hashSecretRaw secret _ _ _ _ length := .ok ((secret ++ List.replicate length.toNat 0).take length.toNat)
  passwordHash password _ _ _ _ := .ok password
  passwordVerify hash password := if hash = .str password then .ok () else .error .verifyMismatchError
  aesGcmEncrypt key nonce plaintext aad := .ok (sampleEncrypt key nonce plaintext aad)
  aesGcmDecrypt key nonce data aad := sampleDecrypt key nonce data aad
  ed25519Public k := k.map fun b => b ^^^ 255
  ed25519Sign k digest := k ++ digest
  ed25519Verify k signature digest := signature = (k.map fun b => b ^^^ 255) ++ digest
  makeParent _ := .ok ()
  writesBeside _ _ := true
  replaces _ := true

/-- Its cipher is correct. -/
theorem samplePlatform_gcmCorrect : @GcmCorrect samplePlatform := by
  intro key nonce plaintext aad encrypted h
  obtain rfl := Except.ok.inj h
  refine ⟨?_, sampleDecrypt_sampleEncrypt _ _ _ _⟩
  simp only [gcmTagLength, sampleEncrypt, sampleTag, List.length_append, List.length_replicate]
  omega

/-- Framed bytes show where they end. -/
theorem framed_prefix {a b rest : Bytes} (h : framed a <+: framed b ++ rest) : a = b := by
  induction a generalizing b with
  | nil =>
    cases b with
    | nil => rfl
    | cons y b => simp [framed] at h
  | cons x a ih =>
    cases b with
    | nil => simp [framed] at h
    | cons y b =>
      simp only [framed, List.flatMap_cons, List.cons_append, List.nil_append, List.cons_prefix_cons] at h
      obtain ⟨-, rfl, h⟩ := h
      rw [ih h]

/-- What the sample cipher encrypts is bound to its associated data. -/
theorem samplePlatform_boundTo {key : Key} {nonce : Nonce} {plaintext aad encrypted : Bytes}
    (h : samplePlatform.aesGcmEncrypt key nonce plaintext aad = .ok encrypted) :
    @BoundTo samplePlatform key aad (.split nonce encrypted) := by
  obtain rfl := Except.ok.inj h
  intro other p hopens
  unfold Opens decryptAesGcm at hopens
  split_ifs at hopens
  simp only [EncryptedBlob.split, List.take_append_drop] at hopens
  change sampleDecrypt key nonce (sampleEncrypt key nonce plaintext aad) other = .ok p at hopens
  simp only [sampleDecrypt] at hopens
  split_ifs at hopens with hfront
  have hprefix : samplePrefix key nonce other <+: sampleEncrypt key nonce plaintext aad := by
    rw [← hfront.1]
    exact List.take_prefix _ _
  simp only [samplePrefix, sampleEncrypt, List.append_assoc, List.prefix_append_right_inj] at hprefix
  exact framed_prefix hprefix

/-- Framed bytes are followed by one rest only. -/
theorem framed_append_inj {a b x y : Bytes} (h : framed a ++ x <+: framed b ++ y) : a = b ∧ x <+: y := by
  obtain rfl := framed_prefix ((List.prefix_append _ x).trans h)
  exact ⟨rfl, (List.prefix_append_right_inj _).mp h⟩

/-- What the sample cipher encrypted opens as it was encrypted, and in no other way: the
sample cipher is ideal for it. -/
theorem samplePlatform_opensOnly {w : World} (key plaintext aad : Bytes) {nonce : Nonce}
    (h : ⟨key, aad, plaintext, .split nonce (sampleEncrypt key nonce plaintext aad)⟩ ∈ w.sealed) (key' aad' : Bytes) :
    @OpensOnly samplePlatform w key' aad' (.split nonce (sampleEncrypt key nonce plaintext aad)) := by
  intro p hopens
  unfold decryptAesGcm at hopens
  split_ifs at hopens
  simp only [EncryptedBlob.split, List.take_append_drop] at hopens
  change sampleDecrypt key' nonce (sampleEncrypt key nonce plaintext aad) aad' = .ok p at hopens
  have hfront : samplePrefix key' nonce aad' <+: sampleEncrypt key nonce plaintext aad := by
    simp only [sampleDecrypt] at hopens
    split_ifs at hopens with hfront
    rw [← hfront.1]
    exact List.take_prefix _ _
  simp only [samplePrefix, sampleEncrypt, List.append_assoc] at hfront
  obtain ⟨rfl, hrest⟩ := framed_append_inj hfront
  obtain ⟨-, hrest⟩ := framed_append_inj hrest
  obtain rfl := framed_prefix hrest
  rw [sampleDecrypt_sampleEncrypt] at hopens
  rwa [← Except.ok.inj hopens]

/-- A key of one byte repeated. -/
def sampleKey (b : UInt8) : Key := ⟨List.replicate 32 b, rfl⟩

/-- A nonce of one byte repeated. -/
def sampleNonce (b : UInt8) : Nonce := ⟨List.replicate 12 b, rfl⟩

end MiniVault
