import MiniVault.Core.Vault
import Mathlib.Data.Set.Defs

/-!
# Runs of the vault

A vault that was initialized once, and then locked, unlocked with right and wrong
passphrases, initialized again, restarted, under settings that change.

## The model

Beside the cipher, the derivation of keys is assumed to be ideal, for a set of passphrases
(`ArgonIdeal`): whether it yields a key, and how long a one, does not depend on the
passphrase, and two passphrases of the set do not yield the same. No output of a fixed
length is different for all passphrases, so it is not assumed of all.

## What is proved

* `KeepsKey.session` — in every run the configuration stays what the first `initialize` wrote,
  and no other key than the one it made comes into memory.
* `unlock_restores` — so in every state the first passphrase brings that key back, every other
  of the set is refused and leaves the vault locked, and no second `initialize` succeeds.
-/

namespace MiniVault

open Foundations

section Runs

variable [Platform]

/-! ### Runs -/

/-- A step of a run. -/
inductive VaultOp where
  /-- `VaultService.initialize`. -/
  | initializeVault (passphrase : PyStr) (coins : VaultService.InitCoins)
  /-- `VaultService.unlock`. -/
  | unlock (passphrase : PyStr)
  /-- `VaultService.lock`. -/
  | lock
  /-- The process restarts. -/
  | restart
  /-- The environment is another. -/
  | setEnviron (environ : PyStr → Option PyStr)

/-- What a step answers. -/
inductive VaultAnswer where
  /-- A status. -/
  | status (s : VaultService.Status)
  /-- Nothing. -/
  | nothing
  deriving DecidableEq

/-- The program of a step. -/
def VaultOp.exec : VaultOp → Act VaultAnswer
  | .initializeVault passphrase coins => do return .status (← VaultService.initializeVault passphrase coins)
  | .unlock passphrase => do return .status (← VaultService.unlock passphrase)
  | .lock => do return .status (← VaultService.lock)
  | .restart => do
    VaultService.restart
    return .nothing
  | .setEnviron environ => do
    Prog.change .state fun w => { w with environ := environ }
    return .nothing

/-- A run. -/
def vaultSession : World → List VaultOp → List (VaultOp × Except Exc VaultAnswer) × World := Prog.session VaultOp.exec

/-! ### What is assumed -/

/-- `AESGCM.decrypt` returns a plaintext or raises `InvalidTag`. -/
def GcmRejects : Prop :=
  ∀ (key : Key) (nonce data aad : Bytes) e, nonce.length = 12 → 16 ≤ data.length →
    Platform.aesGcmDecrypt key nonce data aad = .error e → e = .invalidTag

/-- The derivation of keys is ideal for the passphrases in `S`. -/
structure ArgonIdeal (S : Set PyStr) : Prop where
  /-- Whether there is a key depends on salt and costs. -/
  total : ∀ secret secret' salt time memory parallelism length k,
    Platform.hashSecretRaw secret salt time memory parallelism length = .ok k →
      ∃ k', Platform.hashSecretRaw secret' salt time memory parallelism length = .ok k'
  /-- So does its length. -/
  length : ∀ secret salt time memory parallelism length k,
    Platform.hashSecretRaw secret salt time memory parallelism length = .ok k → k.length = length.toNat
  /-- Different passphrases yield different keys of the cipher. -/
  injective : ∀ P ∈ S, ∀ Q ∈ S, ∀ (salt : Salt) parameters k, k.length = aes256KeyLength →
    deriveWrappingKey P salt parameters = .ok k → deriveWrappingKey Q salt parameters = .ok k → P = Q

/-- An ideal cipher opens what the configuration wraps only as it was wrapped. -/
def IdealWrapping (w : World) : Prop :=
  ∀ (salt : Salt) parameters wrapped, w.config = some (.json (.obj (VaultService.configOf salt parameters wrapped))) →
    ∀ key, OpensOnly w key VaultService.dekWrapAad wrapped

/-! ### What every run keeps -/

/-- What an initialization leaves: a configuration that wraps the key, under the key derived
from the passphrase and under no other. -/
structure WrapsOnly (passphrase : PyStr) (dek : Key) (salt : Salt) (parameters : KdfParameters) (wrappingKey : Bytes)
    (wrapped : EncryptedBlob) : Prop where
  /-- The key it is wrapped under. -/
  derive : deriveWrappingKey passphrase salt parameters = .ok wrappingKey
  /-- It opens under this key. -/
  opens : Opens wrappingKey VaultService.dekWrapAad wrapped dek
  /-- And under no other. -/
  only : ∀ key plaintext, Opens key VaultService.dekWrapAad wrapped plaintext → key = wrappingKey ∧ plaintext = dek.1

/-- The configuration is the one there was, and no other key is in memory. -/
structure KeepsKey (dek : Key) (salt : Salt) (parameters : KdfParameters) (wrapped : EncryptedBlob) (w : World) : Prop where
  /-- The configuration. -/
  config : w.config = some (.json (.obj (VaultService.configOf salt parameters wrapped)))
  /-- The key in memory. -/
  memory : ∀ k ∈ w.dek, k = dek

section Steps

variable {passphrase : PyStr} {dek : Key} {salt : Salt} {parameters : KdfParameters} {wrappingKey : Bytes}
  {wrapped : EncryptedBlob} {w : World}

/-- A second initialization is refused, and changes nothing. -/
theorem KeepsKey.initializeVault (h : KeepsKey dek salt parameters wrapped w) (Q : PyStr) (coins : VaultService.InitCoins) :
    (VaultService.initializeVault Q coins).run w = (.error .vaultAlreadyInitializedError, w) := by
  unfold VaultService.initializeVault
  simp only [Prog.run_bind, VaultService.run_configExists, h.config, Option.isSome_some, ↓reduceIte, Prog.run_throw]

/-- Unlocking brings the key into memory, or fails and leaves none. -/
theorem KeepsKey.unlock (h : KeepsKey dek salt parameters wrapped w)
    (hwraps : WrapsOnly passphrase dek salt parameters wrappingKey wrapped) (Q : PyStr) :
    (VaultService.unlock Q).run w = (.ok ⟨true, py "unlocked"⟩, { w with dek := some dek }) ∨
      ∃ e, (VaultService.unlock Q).run w = (.error e, { w with dek := none }) := by
  rw [VaultService.run_unlock_config Q h.config]
  rcases hopen : (do decryptAesGcm (← deriveWrappingKey Q salt parameters) wrapped VaultService.dekWrapAad :
    Except Exc Bytes) with e | k
  · exact .inr ⟨_, rfl⟩
  · obtain ⟨key, -, hkey⟩ := bind_eq_ok.mp hopen
    obtain ⟨-, rfl⟩ := hwraps.only key k hkey
    exact .inl (dif_pos dek.2)

/-- Every step keeps the configuration and the key. -/
theorem KeepsKey.step (h : KeepsKey dek salt parameters wrapped w)
    (hwraps : WrapsOnly passphrase dek salt parameters wrappingKey wrapped) (op : VaultOp) :
    KeepsKey dek salt parameters wrapped (op.exec.run w).2 := by
  cases op with
  | initializeVault Q coins =>
    simp only [VaultOp.exec, run_answer, h.initializeVault Q coins]
    exact h
  | unlock Q =>
    simp only [VaultOp.exec, run_answer]
    rcases h.unlock hwraps Q with hrun | ⟨e, hrun⟩ <;> rw [hrun]
    · exact ⟨h.config, by simp⟩
    · exact ⟨h.config, by simp⟩
  | lock =>
    simp only [VaultOp.exec, run_answer, VaultService.run_lock]
    exact ⟨h.config, by simp⟩
  | restart =>
    simp only [VaultOp.exec, VaultService.run_restart, Prog.run_bind, Prog.run_pure]
    exact ⟨h.config, by simp⟩
  | setEnviron environ => exact ⟨h.config, h.memory⟩

/-- **Every run keeps the configuration and the key.** -/
theorem KeepsKey.session (h : KeepsKey dek salt parameters wrapped w)
    (hwraps : WrapsOnly passphrase dek salt parameters wrappingKey wrapped) (ops : List VaultOp) :
    KeepsKey dek salt parameters wrapped (vaultSession w ops).2 :=
  Prog.session_invariant (I := fun _ w => KeepsKey dek salt parameters wrapped w) h
    (fun _ _ op hw => hw.step hwraps op) ops

/-- What a successful initialization of a fresh vault wraps. -/
theorem wrapsOnly_start (hgcm : GcmCorrect) {environ : PyStr → Option PyStr} {coins : VaultService.InitCoins}
    {s : VaultService.Status} (hrun : (VaultService.initializeVault passphrase coins).run (.fresh environ) = (.ok s, w))
    (hideal : IdealWrapping w) : ∃ salt parameters wrappingKey wrapped, KeepsKey coins.dek salt parameters wrapped w ∧
      WrapsOnly passphrase coins.dek salt parameters wrappingKey wrapped := by
  obtain ⟨-, -, wrappingKey, encrypted, hderive, hlen, henc, rfl⟩ := VaultService.run_initializeVault_eq_ok hrun
  refine ⟨coins.salt, _, wrappingKey, .split coins.nonce encrypted, ⟨rfl, by simp⟩, hderive, hgcm.opens hlen henc,
    fun key plaintext hopens => ?_⟩
  -- nothing else was encrypted so far
  have hmem := hideal coins.salt _ _ rfl key plaintext hopens
  simp only [World.fresh, List.nil_append, List.mem_singleton, Sealing.mk.injEq] at hmem
  exact ⟨hmem.1, hmem.2.2.1⟩

end Steps

/-! ### What unlocking does in every state -/

/-- The vault restores the key for the passphrase and refuses the others of a set. -/
structure Restores (passphrase : PyStr) (dek : Key) (S : Set PyStr) (w : World) : Prop where
  /-- The passphrase brings the key into memory. -/
  unlock : (VaultService.unlock passphrase).run w = (.ok ⟨true, py "unlocked"⟩, { w with dek := some dek }) ∧
    getDek.run { w with dek := some dek } = (.ok dek, { w with dek := some dek })
  /-- Every other is refused, and leaves the vault locked. -/
  refuse : ∀ Q ∈ S, Q ≠ [] → Encodable Q → Q ≠ passphrase →
    (VaultService.unlock Q).run w = (.error .invalidMasterPassphraseError, { w with dek := none })
  /-- No further initialization succeeds, or changes anything. -/
  again : ∀ Q coins, (VaultService.initializeVault Q coins).run w = (.error .vaultAlreadyInitializedError, w)
  /-- The key in memory is this one, or there is none. -/
  memory : getDek.run w = (.ok dek, w) ∨ getDek.run w = (.error .vaultLockedError, w)

/-- A key is derived from a passphrase that is not empty and has bytes. -/
theorem deriveWrappingKey_eq_ok {passphrase : PyStr} {salt : Salt} {parameters : KdfParameters} {k : Bytes} :
    deriveWrappingKey passphrase salt parameters = .ok k ↔ passphrase ≠ [] ∧ ∃ secret, utf8Encode passphrase = some secret ∧
      Platform.hashSecretRaw secret salt parameters.timeCost parameters.memoryCost parameters.parallelism
        parameters.hashLen = .ok k := by
  have hsalt : ¬ salt.1.length < 16 := by
    rw [salt.2]
    decide
  unfold deriveWrappingKey
  by_cases hne : passphrase = []
  · simp [hne]
  · rcases hencode : utf8Encode passphrase with - | secret <;> simp [hne, hsalt]

/-- A derived key has a length that depends on the costs only, and there is one for every
passphrase that has bytes. -/
theorem ArgonIdeal.derive {S : Set PyStr} (hargon : ArgonIdeal S) {P Q : PyStr} {salt : Salt} {parameters : KdfParameters}
    {k : Bytes} (hP : deriveWrappingKey P salt parameters = .ok k) (hne : Q ≠ []) (hQ : Encodable Q) :
    ∃ k', deriveWrappingKey Q salt parameters = .ok k' ∧ k'.length = k.length := by
  obtain ⟨-, secret, -, hhash⟩ := deriveWrappingKey_eq_ok.mp hP
  obtain ⟨secret', hsecret'⟩ := Option.isSome_iff_exists.mp ((utf8Encode_isSome_iff Q).mpr hQ)
  obtain ⟨k', hhash'⟩ := hargon.total _ secret' _ _ _ _ _ _ hhash
  refine ⟨k', deriveWrappingKey_eq_ok.mpr ⟨hne, secret', hsecret', hhash'⟩, ?_⟩
  rw [hargon.length _ _ _ _ _ _ _ hhash, hargon.length _ _ _ _ _ _ _ hhash']

/-- A blob that opens under one key, and not under another, is refused under the other with
`InvalidTag`. -/
theorem GcmRejects.refuse (hrejects : GcmRejects) {key key' aad plaintext : Bytes} {blob : EncryptedBlob}
    (hopens : Opens key aad blob plaintext) (hlen : key'.length = key.length) (hnot : ∀ p, ¬ Opens key' aad blob p) :
    decryptAesGcm key' blob aad = .error .invalidTag := by
  obtain ⟨hkey, hnonce, htag⟩ := hopens.lengths
  rcases hdecrypt : decryptAesGcm key' blob aad with e | p
  · have hdata : 16 ≤ (blob.ciphertext ++ blob.tag).length := by
      rw [List.length_append]
      omega
    simp only [decryptAesGcm, hlen.trans hkey, hnonce, htag, aes256KeyLength, gcmNonceLength, gcmTagLength, ne_eq,
      not_true_eq_false, ↓reduceIte] at hdecrypt
    rw [hrejects ⟨key', hlen.trans hkey⟩ _ _ _ e hnonce hdata hdecrypt]
  · exact absurd hdecrypt (hnot p)

/-- **Unlocking restores the one key, and nothing else**: after a successful initialization,
in every state a run reaches. -/
theorem unlock_restores (hgcm : GcmCorrect) (hrejects : GcmRejects) {S : Set PyStr} (hargon : ArgonIdeal S)
    (environ : PyStr → Option PyStr) (passphrase : PyStr) (coins : VaultService.InitCoins) (ops : List VaultOp) :
    let start := (VaultService.initializeVault passphrase coins).run (.fresh environ)
    start.1.isOk → IdealWrapping start.2 → passphrase ∈ S →
      Restores passphrase coins.dek S (vaultSession start.2 ops).2 := by
  intro start hinit hideal hS
  rcases hrun : (VaultService.initializeVault passphrase coins).run (.fresh environ) with ⟨e | s, w₀⟩
  · simp only [start, hrun] at hinit
    cases hinit
  simp only [start, hrun] at hideal ⊢
  obtain ⟨salt, parameters, wrappingKey, wrapped, hkeeps, hwraps⟩ := wrapsOnly_start hgcm hrun hideal
  have h := hkeeps.session hwraps ops
  refine ⟨⟨VaultService.run_unlock_configOf h.config hwraps.derive hwraps.opens, rfl⟩, fun Q hQS hne hQ hother => ?_,
    h.initializeVault, ?_⟩
  · obtain ⟨k, hk, hlen⟩ := hargon.derive hwraps.derive hne hQ
    have hother' : k ≠ wrappingKey := by
      rintro rfl
      exact hother (hargon.injective Q hQS passphrase hS salt parameters k hwraps.opens.lengths.1 hk hwraps.derive)
    have hrefuse := hrejects.refuse hwraps.opens hlen fun p hp => hother' (hwraps.only k p hp).1
    rw [VaultService.run_unlock_config Q h.config, hk]
    simp only [ok_bind, hrefuse]
    rfl
  · rw [run_getDek]
    rcases hdek : (vaultSession w₀ ops).2.dek with - | k
    · exact .inr rfl
    · obtain rfl := h.memory k hdek
      exact .inl rfl

end Runs

/-! ### A run on the sample platform -/

section Sample

attribute [local instance] samplePlatform

/-- Another passphrase. -/
def sampleOtherPassphrase : PyStr := py "Correct-Horse-8-Battery"

/-- A run with a wrong passphrase, a second initialization, other settings and a restart. -/
def sampleVaultOps : List VaultOp :=
  [.unlock samplePassphrase, .unlock sampleOtherPassphrase, .initializeVault sampleOtherPassphrase sampleCoins,
    .setEnviron fun _ => some (py "9"), .restart]

/-- The derivation on the sample platform tells two passphrases apart that have bytes and are no longer than its
output. -/
theorem samplePlatform_argonIdeal : @ArgonIdeal samplePlatform {samplePassphrase, sampleOtherPassphrase} where
  total _ _ _ _ _ _ _ _ _ := ⟨_, rfl⟩
  length secret salt time memory parallelism length k h := by
    rw [← Except.ok.inj h]
    simp
  injective := by
    -- with 32 bytes of output the sample passphrases are still there
    have hdiffer : ∀ (salt : Salt) parameters k, k.length = aes256KeyLength →
        deriveWrappingKey samplePassphrase salt parameters = .ok k →
          deriveWrappingKey sampleOtherPassphrase salt parameters = .ok k → False := by
      intro salt parameters k hlen hk hk'
      obtain ⟨-, secret, hsecret, hhash⟩ := deriveWrappingKey_eq_ok.mp hk
      obtain ⟨-, secret', hsecret', hhash'⟩ := deriveWrappingKey_eq_ok.mp hk'
      obtain rfl := Except.ok.inj hhash
      have hn : parameters.hashLen.toNat = 32 := by simpa [aes256KeyLength] using hlen
      have heq := Except.ok.inj hhash'
      have hbytes : utf8Encode samplePassphrase = some ((utf8Encode samplePassphrase).getD []) := by decide +kernel
      have hbytes' : utf8Encode sampleOtherPassphrase = some ((utf8Encode sampleOtherPassphrase).getD []) := by
        decide +kernel
      obtain rfl := Option.some.inj (hsecret.symm.trans hbytes)
      obtain rfl := Option.some.inj (hsecret'.symm.trans hbytes')
      rw [hn] at heq
      exact absurd heq (by decide +kernel)
    rintro P (rfl | rfl) Q (rfl | rfl) salt parameters k hlen hP hQ
    · rfl
    · exact (hdiffer salt parameters k hlen hP hQ).elim
    · exact (hdiffer salt parameters k hlen hQ hP).elim
    · rfl

/-- The sample cipher rejects with `InvalidTag`. -/
theorem samplePlatform_gcmRejects : @GcmRejects samplePlatform := by
  intro key nonce data aad e _ _ h
  change sampleDecrypt key nonce data aad = .error e at h
  unfold sampleDecrypt at h
  dsimp only at h
  split_ifs at h
  exact (Except.error.inj h).symm

/-- The key is restored on the sample platform. -/
theorem unlock_restores_sample :
    Restores samplePassphrase sampleCoins.dek {samplePassphrase, sampleOtherPassphrase}
      (vaultSession sampleStart.2 sampleVaultOps).2 := by
  refine unlock_restores samplePlatform_gcmCorrect samplePlatform_gcmRejects samplePlatform_argonIdeal (fun _ => none)
    samplePassphrase sampleCoins sampleVaultOps (by decide +kernel) ?_ (by simp)
  · rcases hrun : (VaultService.initializeVault samplePassphrase sampleCoins).run (.fresh fun _ => none) with ⟨e | s, w⟩
    · have hok : sampleStart.1.isOk := by decide +kernel
      rw [sampleStart, hrun] at hok
      cases hok
    obtain ⟨-, -, wrappingKey, encrypted, -, -, henc, rfl⟩ := VaultService.run_initializeVault_eq_ok hrun
    obtain rfl := Except.ok.inj henc
    intro salt parameters wrapped hconfig key
    obtain ⟨-, -, rfl⟩ := VaultService.configOf_inj (Json.obj.inj (ConfigFile.json.inj (Option.some.inj hconfig)))
    exact samplePlatform_opensOnly wrappingKey sampleCoins.dek _ (by simp) key _

end Sample

end MiniVault
