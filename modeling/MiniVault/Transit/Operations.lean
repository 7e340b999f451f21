import MiniVault.Transit.Keyring

/-!
# What the transit operations do

One lemma for each operation of `TransitService`: what a call that succeeds found and did.
The operations that use a key are described on any tables; those that make, rotate and
revoke one on tables that store a keyring (`Stores`), where an operation that has committed
its transaction does not fail any more.

* `run_encrypt_eq_ok`, `run_decrypt_eq_ok`, `run_sign_eq_ok` — what was found, unwrapped,
  encrypted, decrypted and signed.
* `createKey_cases`, `createSigningKey_cases`, `rotateKey_cases`, `deleteKey_cases` — the
  operation fails and leaves the tables as they were, or it succeeds and the keyring
  changes under one owner and name.
* `encrypt_keeps` and its like — what the other operations leave alone.
-/

namespace MiniVault

open Foundations

variable [Platform]

/-! ### What is left alone -/

/-- The part of the world the keys live in: their tables, the key in memory and the
configuration that it comes from. -/
structure KeyPart where
  /-- `named_keys`. -/
  namedKeys : Table NamedKey
  /-- `named_key_versions`. -/
  namedKeyVersions : Table NamedKeyVersion
  /-- The key in memory. -/
  dek : Option Key
  /-- The configuration. -/
  config : Option ConfigFile

/-- The world's part. -/
def World.keyPart (w : World) : KeyPart := ⟨w.db.namedKeys, w.db.namedKeyVersions, w.dek, w.config⟩

omit [Platform] in
theorem World.keyPart_restore {w w' : World} (h : w'.vaultPart = w.vaultPart) :
    World.keyPart { w' with db := w.db } = w.keyPart := by
  simp only [vaultPart, Prod.mk.injEq] at h
  simp only [keyPart, h.1, h.2]

omit [Platform] in
theorem World.keyPart_of_besideLog {w w' : World} (h : w'.besideLog = w.besideLog) : w'.keyPart = w.keyPart := by
  have hpart := congrArg World.keyPart h
  exact hpart

/-- The world without the database and the record of what was encrypted. -/
def World.besideStores (w : World) : World := { w with db := .fresh, sealed := [] }

omit [Platform] in
theorem World.parts_of_besideStores {w w' : World} (h : w'.besideStores = w.besideStores) :
    w'.signed = w.signed ∧ w'.vaultPart = w.vaultPart := by
  simp only [besideStores, World.mk.injEq, true_and] at h
  obtain ⟨hdek, -, -, hconfig, -, -, -, hsigned⟩ := h
  simp only [vaultPart, hdek, hconfig, hsigned, and_self]

namespace TransitService

variable {owner name : PyStr} {w w' : World}

/-! ### Looking up a key -/

omit [Platform] in
theorem run_validateKeyName_eq_ok {u : Unit} :
    (validateKeyName name).run w = (.ok u, w') ↔ keyNamePattern name ∧ w = w' := by
  unfold validateKeyName
  by_cases h : keyNamePattern name <;> simp [h]

omit [Platform] in
theorem run_getOwned_eq_ok {row : Option NamedKey} :
    (NamedKeyRepository.getOwned owner name).run w = (.ok row, w') ↔
      Bindable owner ∧ Bindable name ∧ (∀ r ∈ row, Fetchable r.cells) ∧ w.db.keyAt owner name = row ∧ w = w' := by
  rw [NamedKeyRepository.getOwned, run_connection_eq_ok, run_query_eq_ok, Database.selectKey_eq, fetchable_fetchone]
  constructor
  · rintro ⟨hbind, hfetch, rfl, rfl⟩
    exact ⟨(bindValue_str_iff owner).mp (bindAll_eq_ok hbind _ (by simp)),
      (bindValue_str_iff name).mp (bindAll_eq_ok hbind _ (by simp)), hfetch, rfl, rfl⟩
  · rintro ⟨howner, hname, hfetch, rfl, rfl⟩
    exact ⟨bindAll_ok (by simp [bindValue_str howner, bindValue_str hname]), hfetch, rfl, rfl⟩

omit [Platform] in
theorem run_getOwned (howner : Bindable owner) (hname : Bindable name) (h : w.db.KeySound) :
    (NamedKeyRepository.getOwned owner name).run w = (.ok (w.db.keyAt owner name), w) :=
  run_getOwned_eq_ok.mpr ⟨howner, hname, h.fetchable_keyAt, rfl, rfl⟩

/-- A key that is found has a name, and stands under it and its owner. -/
theorem run_ownedKey_eq_ok {row : NamedKey} :
    (ownedKey owner name).run w = (.ok row, w') ↔
      keyNamePattern name ∧ Bindable owner ∧ Fetchable row.cells ∧ w.db.keyAt owner name = some row ∧ w = w' := by
  unfold ownedKey
  constructor
  · intro h
    obtain ⟨_, _, hvalid, h⟩ := Prog.run_bind_eq_ok.mp h
    obtain ⟨hname, rfl⟩ := run_validateKeyName_eq_ok.mp hvalid
    obtain ⟨found, _, hget, h⟩ := Prog.run_bind_eq_ok.mp h
    obtain ⟨howner, -, hfetch, hrow, rfl⟩ := run_getOwned_eq_ok.mp hget
    cases found with
    | none =>
      obtain ⟨_, _, -, hthrow⟩ := Prog.run_bind_eq_ok.mp h
      simp at hthrow
    | some r =>
      simp only [Prog.run_pure, Prod.mk.injEq, Except.ok.injEq] at h
      obtain ⟨rfl, rfl⟩ := h
      exact ⟨hname, howner, hfetch r rfl, hrow, rfl⟩
  · rintro ⟨hname, howner, hfetch, hrow, rfl⟩
    refine Prog.run_bind_eq_ok.mpr ⟨(), w, run_validateKeyName_eq_ok.mpr ⟨hname, rfl⟩, ?_⟩
    exact Prog.run_bind_eq_ok.mpr
      ⟨some row, w, run_getOwned_eq_ok.mpr ⟨howner, bindable_keyName hname, by simpa using hfetch, hrow, rfl⟩, rfl⟩

omit [Platform] in
theorem run_getVersion_eq_ok {keyId version : ℤ} {row : Option NamedKeyVersion} :
    (NamedKeyRepository.getVersion keyId version).run w = (.ok row, w') ↔
      Fits keyId ∧ Fits version ∧ (∀ r ∈ row, Fetchable r.cells) ∧ w.db.selectKeyVersion keyId version = row ∧
        w = w' := by
  rw [NamedKeyRepository.getVersion, run_connection_eq_ok, run_query_eq_ok, fetchable_fetchone]
  constructor
  · rintro ⟨hbind, hfetch, rfl, rfl⟩
    exact ⟨(bindValue_int_iff _).mp (bindAll_eq_ok hbind _ (by simp)),
      (bindValue_int_iff _).mp (bindAll_eq_ok hbind _ (by simp)), hfetch, rfl, rfl⟩
  · rintro ⟨hid, hversion, hfetch, rfl, rfl⟩
    exact ⟨bindAll_ok (by simp [bindValue_int hid, bindValue_int hversion]), hfetch, rfl, rfl⟩

omit [Platform] in
theorem run_keyVersion_eq_ok {keyRow : NamedKey} {version : ℤ} {row : NamedKeyVersion} :
    (keyVersion keyRow version).run w = (.ok row, w') ↔
      Fits keyRow.id ∧ Fits version ∧ Fetchable row.cells ∧ w.db.selectKeyVersion keyRow.id version = some row ∧
        w = w' := by
  unfold keyVersion
  constructor
  · intro h
    obtain ⟨found, _, hget, h⟩ := Prog.run_bind_eq_ok.mp h
    obtain ⟨hid, hversion, hfetch, hrow, rfl⟩ := run_getVersion_eq_ok.mp hget
    cases found with
    | none => simp at h
    | some r =>
      simp only [Prog.run_pure, Prod.mk.injEq, Except.ok.injEq] at h
      obtain ⟨rfl, rfl⟩ := h
      exact ⟨hid, hversion, hfetch r rfl, hrow, rfl⟩
  · rintro ⟨hid, hversion, hfetch, hrow, rfl⟩
    exact Prog.run_bind_eq_ok.mpr
      ⟨some row, w, run_getVersion_eq_ok.mpr ⟨hid, hversion, by simpa using hfetch, hrow, rfl⟩, rfl⟩

/-- What a row is unwrapped to is what its blob opens to, under what its key says of it. -/
theorem openVersion_eq_ok {dek : Key} {keyRow : NamedKey} {row : NamedKeyVersion} {material : Bytes} :
    openVersion dek keyRow row = .ok material ↔ ∃ blob version associatedData, blobOf row = .ok blob ∧
      pyInt row.version = .ok version ∧
        keyAad keyRow.ownerEmail keyRow.keyName keyRow.keyUsage keyRow.signingAlgorithm version = .ok associatedData ∧
          Opens dek associatedData blob material := by
  unfold openVersion
  simp only [bind_eq_ok]
  constructor
  · rintro ⟨blob, hblob, version, hversion, associatedData, haad, hopens⟩
    exact ⟨blob, version, associatedData, hblob, hversion, haad, hopens⟩
  · rintro ⟨blob, version, associatedData, hblob, hversion, haad, hopens⟩
    exact ⟨blob, hblob, version, hversion, associatedData, haad, hopens⟩

theorem run_unwrap_eq_ok {keyRow : NamedKey} {row : NamedKeyVersion} {material : Bytes} :
    (unwrap keyRow row).run w = (.ok material, w') ↔
      ∃ dek, w.dek = some dek ∧ openVersion dek keyRow row = .ok material ∧ w = w' := by
  rw [unwrap, run_mapExc_eq_ok, Prog.run_bind_eq_ok]
  constructor
  · rintro ⟨dek, _, hget, hdone⟩
    obtain ⟨hdek, rfl⟩ := run_getDek_eq_ok.mp hget
    obtain ⟨hopen, rfl⟩ := Prog.run_done_eq_ok.mp hdone
    exact ⟨dek, hdek, hopen, rfl⟩
  · rintro ⟨dek, hdek, hopen, rfl⟩
    exact ⟨dek, w, run_getDek_eq_ok.mpr ⟨hdek, rfl⟩, Prog.run_done_eq_ok.mpr ⟨hopen, rfl⟩⟩

/-! ### Encryption -/

omit [Platform] in
theorem decodePayload_eq_ok {value : PyStr} {b : Bytes} : decodePayload value = .ok b ↔ decodeB64 (.str value) = .ok b := by
  unfold decodePayload
  cases decodeB64 (.str value) <;> simp

/-- **What an encryption that succeeds did**: under the material of the latest version it
encrypted the payload, for owner, name and version. -/
theorem run_encrypt_eq_ok {plaintextB64 : PyStr} {nonce : Nonce} {r : EncryptResult}
    (h : (encrypt owner name plaintextB64 nonce).run w = (.ok r, w')) :
    keyNamePattern name ∧ Bindable owner ∧ ∃ dek keyRow row material plaintext associatedData encrypted,
      w.dek = some dek ∧ w.db.keyAt owner name = some keyRow ∧ keyRow.keyUsage = .str encryptDecrypt ∧
        decodeB64 (.str plaintextB64) = .ok plaintext ∧ pyInt keyRow.latestVersion = .ok r.keyVersion ∧
          w.db.selectKeyVersion keyRow.id r.keyVersion = some row ∧ openVersion dek keyRow row = .ok material ∧
            material.length = 32 ∧ dataAad owner name r.keyVersion = .ok associatedData ∧
              Platform.aesGcmEncrypt material nonce plaintext associatedData = .ok encrypted ∧
                let blob := EncryptedBlob.split nonce encrypted
                r.keyName = name ∧ formatCiphertext name r.keyVersion blob = .ok r.ciphertext ∧
                  w' = { w with sealed := w.sealed ++ [⟨material, associatedData, plaintext, blob⟩] } := by
  unfold encrypt at h
  obtain ⟨keyRow, _, howned, h⟩ := Prog.run_bind_eq_ok.mp h
  obtain ⟨hname, howner, -, hrow, rfl⟩ := run_ownedKey_eq_ok.mp howned
  by_cases husage : keyRow.keyUsage = .str encryptDecrypt
  · simp only [husage, ne_eq, not_true_eq_false, ↓reduceIte] at h
    obtain ⟨dek, _, hget, h⟩ := Prog.run_bind_eq_ok.mp h
    obtain ⟨hdek, rfl⟩ := run_getDek_eq_ok.mp hget
    obtain ⟨plaintext, _, hdone, h⟩ := Prog.run_bind_eq_ok.mp h
    obtain ⟨hplain, rfl⟩ := Prog.run_done_eq_ok.mp hdone
    obtain ⟨version, _, hdone, h⟩ := Prog.run_bind_eq_ok.mp h
    obtain ⟨hversion, rfl⟩ := Prog.run_done_eq_ok.mp hdone
    obtain ⟨row, _, hfound, h⟩ := Prog.run_bind_eq_ok.mp h
    obtain ⟨-, -, -, hselect, rfl⟩ := run_keyVersion_eq_ok.mp hfound
    obtain ⟨material, _, hunwrap, h⟩ := Prog.run_bind_eq_ok.mp h
    obtain ⟨dek', hdek', hopen, rfl⟩ := run_unwrap_eq_ok.mp hunwrap
    obtain rfl : dek = dek' := Option.some.inj (hdek.symm.trans hdek')
    by_cases hlen : material.length = aesKeyLength
    · simp only [hlen, not_true_eq_false, ↓reduceIte] at h
      obtain ⟨associatedData, _, hdone, h⟩ := Prog.run_bind_eq_ok.mp h
      obtain ⟨haad, rfl⟩ := Prog.run_done_eq_ok.mp hdone
      obtain ⟨blob, _, henc, h⟩ := Prog.run_bind_eq_ok.mp h
      obtain ⟨-, encrypted, hencrypted, rfl, rfl⟩ := run_encryptAesGcm_eq_ok.mp henc
      obtain ⟨ciphertext, _, hdone, h⟩ := Prog.run_bind_eq_ok.mp h
      obtain ⟨hformat, rfl⟩ := Prog.run_done_eq_ok.mp hdone
      simp only [Prog.run_pure, Prod.mk.injEq, Except.ok.injEq] at h
      obtain ⟨rfl, rfl⟩ := h
      exact ⟨hname, howner, dek, keyRow, row, material, plaintext, associatedData, encrypted, hdek, hrow, husage,
        decodePayload_eq_ok.mp hplain, hversion, hselect, hopen, hlen, haad, hencrypted, rfl, hformat, rfl⟩
    · simp [hlen] at h
  · simp [husage] at h

/-- What opens a ciphertext is its key and its associated data. -/
theorem openCiphertext_eq_ok {material : Bytes} {parsed : TransitCiphertext} {plaintext : Bytes} :
    openCiphertext material owner parsed = .ok plaintext ↔
      ∃ associatedData, dataAad owner parsed.keyName parsed.keyVersion = .ok associatedData ∧
        Opens material associatedData parsed.blob plaintext := bind_eq_ok

/-- **What a decryption that succeeds found**: the token opens under the material of the
version it names, for owner, name and version. -/
theorem run_decrypt_eq_ok {ciphertext : PyStr} {r : DecryptResult} :
    (decrypt owner ciphertext).run w = (.ok r, w') ↔
      w = w' ∧ ∃ parsed dek keyRow row material associatedData plaintext, parseCiphertext ciphertext = .ok parsed ∧
        keyNamePattern parsed.keyName ∧ Bindable owner ∧ w.dek = some dek ∧
          w.db.keyAt owner parsed.keyName = some keyRow ∧ Fetchable keyRow.cells ∧
            keyRow.keyUsage = .str encryptDecrypt ∧ Fits keyRow.id ∧ Fits parsed.keyVersion ∧
              w.db.selectKeyVersion keyRow.id parsed.keyVersion = some row ∧ Fetchable row.cells ∧
              openVersion dek keyRow row = .ok material ∧
                dataAad owner parsed.keyName parsed.keyVersion = .ok associatedData ∧
                  Opens material associatedData parsed.blob plaintext ∧
                    r = ⟨parsed.keyName, parsed.keyVersion, encodeB64 plaintext⟩ := by
  unfold decrypt
  constructor
  · intro h
    obtain ⟨parsed, _, hdone, h⟩ := Prog.run_bind_eq_ok.mp h
    obtain ⟨hparsed, rfl⟩ := Prog.run_done_eq_ok.mp hdone
    obtain ⟨keyRow, _, howned, h⟩ := Prog.run_bind_eq_ok.mp h
    obtain ⟨hname, howner, hkeyFetch, hrow, rfl⟩ := run_ownedKey_eq_ok.mp howned
    by_cases husage : keyRow.keyUsage = .str encryptDecrypt
    · simp only [husage, ne_eq, not_true_eq_false, ↓reduceIte] at h
      obtain ⟨dek, _, hget, h⟩ := Prog.run_bind_eq_ok.mp h
      obtain ⟨hdek, rfl⟩ := run_getDek_eq_ok.mp hget
      obtain ⟨row, _, hfound, h⟩ := Prog.run_bind_eq_ok.mp h
      obtain ⟨hid, hversion, hfetch, hselect, rfl⟩ := run_keyVersion_eq_ok.mp hfound
      obtain ⟨material, _, hunwrap, h⟩ := Prog.run_bind_eq_ok.mp h
      obtain ⟨dek', hdek', hopen, rfl⟩ := run_unwrap_eq_ok.mp hunwrap
      obtain rfl : dek = dek' := Option.some.inj (hdek.symm.trans hdek')
      obtain ⟨plaintext, _, hexc, h⟩ := Prog.run_bind_eq_ok.mp h
      obtain ⟨hdec, rfl⟩ := Prog.run_done_eq_ok.mp (run_mapExc_eq_ok.mp hexc)
      obtain ⟨associatedData, haad, hopens⟩ := openCiphertext_eq_ok.mp hdec
      simp only [Prog.run_pure, Prod.mk.injEq, Except.ok.injEq] at h
      obtain ⟨rfl, rfl⟩ := h
      exact ⟨rfl, parsed, dek, keyRow, row, material, associatedData, plaintext, hparsed, hname, howner, hdek, hrow,
        hkeyFetch, husage, hid, hversion, hselect, hfetch, hopen, haad, hopens, rfl⟩
    · simp [husage] at h
  · rintro ⟨rfl, parsed, dek, keyRow, row, material, associatedData, plaintext, hparsed, hname, howner, hdek, hrow,
      hkeyFetch, husage, hid, hversion, hselect, hfetch, hopen, haad, hopens, rfl⟩
    have howned := run_ownedKey_eq_ok.mpr ⟨hname, howner, hkeyFetch, hrow, rfl⟩
    have hget := run_getDek_eq_ok.mpr ⟨hdek, rfl⟩
    have hfound := run_keyVersion_eq_ok.mpr ⟨hid, hversion, hfetch, hselect, rfl⟩
    have hunwrap := run_unwrap_eq_ok.mpr ⟨dek, hdek, hopen, rfl⟩
    have hdec := openCiphertext_eq_ok.mpr ⟨associatedData, haad, hopens⟩
    simp only [Prog.run_bind, Prog.run_done, hparsed, howned, husage, ne_eq, not_true_eq_false, ↓reduceIte, hget,
      hfound, hunwrap, run_mapExc, hdec, Prog.run_pure]

/-! ### Signing -/

theorem run_validateAlgorithm_eq_ok {keyRow : NamedKey} {signingAlgorithm : PyStr} {u : Unit} :
    (validateAlgorithm keyRow signingAlgorithm).run w = (.ok u, w') ↔
      keyRow.signingAlgorithm = .str (Platform.upper signingAlgorithm) ∧ w = w' := by
  unfold validateAlgorithm
  by_cases h : .str (Platform.upper signingAlgorithm) = keyRow.signingAlgorithm
  · simp [h]
  · simp [h, Ne.symm h]

/-- **What a signature that is made was made with**: the material of the latest version. -/
theorem run_sign_eq_ok {messageB64 messageType signingAlgorithm : PyStr} {r : SignResult}
    (h : (sign owner name messageB64 messageType signingAlgorithm).run w = (.ok r, w')) :
    keyNamePattern name ∧ Bindable owner ∧ ∃ dek keyRow row privateKey digest,
      w.dek = some dek ∧ w.db.keyAt owner name = some keyRow ∧ keyRow.keyUsage = .str signVerify ∧
        keyRow.signingAlgorithm = .str (Platform.upper signingAlgorithm) ∧
          messageDigest messageB64 messageType = .ok digest ∧ pyInt keyRow.latestVersion = .ok r.keyVersion ∧
            Fits keyRow.id ∧ Fits r.keyVersion ∧ w.db.selectKeyVersion keyRow.id r.keyVersion = some row ∧
              openVersion dek keyRow row = .ok privateKey ∧ privateKey.length = 32 ∧ r.keyName = name ∧
                r.signingAlgorithm = keyRow.signingAlgorithm ∧
                  r.signatureB64 = encodeB64 (Platform.ed25519Sign privateKey digest) ∧
                    w' = { w with signed := w.signed ++ [⟨privateKey, digest, Platform.ed25519Sign privateKey digest⟩] } := by
  unfold sign at h
  obtain ⟨keyRow, _, howned, h⟩ := Prog.run_bind_eq_ok.mp h
  obtain ⟨hname, howner, -, hrow, rfl⟩ := run_ownedKey_eq_ok.mp howned
  by_cases husage : keyRow.keyUsage = .str signVerify
  · simp only [husage, ne_eq, not_true_eq_false, ↓reduceIte] at h
    obtain ⟨_, _, hvalid, h⟩ := Prog.run_bind_eq_ok.mp h
    obtain ⟨halg, rfl⟩ := run_validateAlgorithm_eq_ok.mp hvalid
    obtain ⟨dek, _, hget, h⟩ := Prog.run_bind_eq_ok.mp h
    obtain ⟨hdek, rfl⟩ := run_getDek_eq_ok.mp hget
    obtain ⟨digest, _, hdone, h⟩ := Prog.run_bind_eq_ok.mp h
    obtain ⟨hdigest, rfl⟩ := Prog.run_done_eq_ok.mp hdone
    obtain ⟨version, _, hdone, h⟩ := Prog.run_bind_eq_ok.mp h
    obtain ⟨hlatest, rfl⟩ := Prog.run_done_eq_ok.mp hdone
    obtain ⟨row, _, hfound, h⟩ := Prog.run_bind_eq_ok.mp h
    obtain ⟨hid, hversion, -, hselect, rfl⟩ := run_keyVersion_eq_ok.mp hfound
    obtain ⟨privateKey, _, hunwrap, h⟩ := Prog.run_bind_eq_ok.mp h
    obtain ⟨dek', hdek', hopen, rfl⟩ := run_unwrap_eq_ok.mp hunwrap
    obtain rfl : dek = dek' := Option.some.inj (hdek.symm.trans hdek')
    by_cases hlen : privateKey.length = ed25519KeyLength
    · simp only [hlen, not_true_eq_false, ↓reduceIte, recordSigning, Prog.run_bind, Prog.run_change,
        Prog.run_pure, Prod.mk.injEq, Except.ok.injEq] at h
      obtain ⟨rfl, rfl⟩ := h
      exact ⟨hname, howner, dek, keyRow, row, privateKey, digest, hdek, hrow, husage, halg, hdigest, hlatest, hid,
        hversion, hselect, hopen, hlen, rfl, rfl, rfl, rfl⟩
    · simp [hlen] at h
  · simp [husage] at h

/-! ### What the using operations leave alone -/

theorem ownedKey_keeps (owner name : PyStr) : Keeps World.besideLog (ownedKey owner name) := by
  unfold ownedKey validateKeyName
  refine .bind (Prog.Sat.ite (fun _ => .pure _) fun _ => .throw _) fun _ =>
    .bind (.connection (.query _ _) fun _ _ => World.besideLog_restore) fun row => ?_
  cases row with
  | none => exact .bind (AuditRepository.log_keeps _) fun _ => .throw _
  | some r => exact .pure _

omit [Platform] in
/-- What reads the database only keeps everything. -/
theorem reads_keep {γ α : Type} {f : World → γ} {params : List Value} {cells : α → List Value} {g : Database → α} :
    Keeps f (connection .transaction (query params cells g)) := by
  have hall : Keeps (fun w : World => w) (connection .transaction (query params cells g)) :=
    .connection (.query _ _) fun w w' (h : w' = w) => by rw [h]
  exact hall.weaken fun h => congrArg f h

omit [Platform] in
theorem keyVersion_keeps {γ : Type} {f : World → γ} (keyRow : NamedKey) (version : ℤ) : Keeps f (keyVersion keyRow version) := by
  unfold keyVersion
  refine .bind reads_keep fun row => ?_
  cases row with
  | none => exact .throw _
  | some r => exact .pure _

theorem unwrap_keeps {γ : Type} {f : World → γ} (keyRow : NamedKey) (row : NamedKeyVersion) : Keeps f (unwrap keyRow row) :=
  .mapExc (.bind .getDek fun _ => .done _)

theorem decrypt_keeps (owner ciphertext : PyStr) : Keeps World.besideLog (decrypt owner ciphertext) := by
  unfold decrypt
  refine .bind (.done _) fun parsed => .bind (ownedKey_keeps _ _) fun keyRow =>
    Prog.Sat.ite (fun _ => .throw _) fun _ => Keeps.bind .getDek fun _ => .bind (keyVersion_keeps _ _) fun row =>
      .bind (unwrap_keeps _ _) fun material => .bind (.mapExc (.done _)) fun _ => .pure _

/-- Encrypting changes the log and the record of what was encrypted only. -/
theorem encrypt_keeps {γ : Type} {f : World → γ} (owner name plaintextB64 : PyStr) (nonce : Nonce)
    (hlog : ∀ w, f w = f w.besideLog) (hf : ∀ (w : World) sealed, f { w with sealed := sealed } = f w) :
    Keeps f (encrypt owner name plaintextB64 nonce) := by
  unfold encrypt
  refine .bind ((ownedKey_keeps _ _).aside hlog) fun keyRow => Prog.Sat.ite (fun _ => .throw _) fun _ =>
    Keeps.bind .getDek fun _ => .bind (.done _) fun plaintext => .bind (.done _) fun version =>
      .bind (keyVersion_keeps _ _) fun row => .bind (unwrap_keeps _ _) fun material =>
        Prog.Sat.ite (fun _ => .throw _) fun _ => Keeps.bind (.done _) fun associatedData =>
          .bind (encryptAesGcm_keeps hf) fun _ => .bind (.done _) fun _ => .pure _

/-- Signing changes the log and the record of what was signed only. -/
theorem sign_keeps {γ : Type} {f : World → γ} (owner name messageB64 messageType signingAlgorithm : PyStr)
    (hlog : ∀ w, f w = f w.besideLog) (hf : ∀ (w : World) signed, f { w with signed := signed } = f w) :
    Keeps f (sign owner name messageB64 messageType signingAlgorithm) := by
  unfold sign validateAlgorithm
  refine .bind ((ownedKey_keeps _ _).aside hlog) fun keyRow => Prog.Sat.ite (fun _ => .throw _) fun _ =>
    Keeps.bind (Prog.Sat.ite (fun _ => .throw _) fun _ => .pure _) fun _ => .bind .getDek fun _ =>
      .bind (.done _) fun digest => .bind (.done _) fun version => .bind (keyVersion_keeps _ _) fun row =>
        .bind (unwrap_keeps _ _) fun privateKey => Prog.Sat.ite (fun _ => .throw _) fun _ =>
          Keeps.bind (.change fun w => hf w _) fun _ => .pure _

theorem candidates_keeps {γ : Type} {f : World → γ} (keyRow : NamedKey) (version : Option ℤ) :
    Keeps f (candidates keyRow version) := by
  have hrows : ∀ rows, Keeps f (candidateRows keyRow rows) := by
    intro rows
    induction rows with
    | nil => exact .pure _
    | cons row rows ih => exact .bind (.done _) fun _ => .bind (keyVersion_keeps _ _) fun _ => .bind ih fun _ => .pure _
  cases version with
  | some v => exact .bind (keyVersion_keeps _ _) fun _ => .pure _
  | none => exact .bind reads_keep fun _ => hrows _

theorem verify_keeps (owner name messageB64 messageType signatureB64 signingAlgorithm : PyStr) (version : Option ℤ) :
    Keeps World.besideLog (verify owner name messageB64 messageType signatureB64 signingAlgorithm version) := by
  unfold verify validateAlgorithm
  exact .bind (ownedKey_keeps _ _) fun keyRow => Prog.Sat.ite (fun _ => .throw _) fun _ =>
    Keeps.bind (Prog.Sat.ite (fun _ => .throw _) fun _ => .pure _) fun _ => .bind .getDek fun _ =>
      .bind (.done _) fun digest => .bind (candidates_keeps _ _) fun rows => .bind (.done _) fun _ => .pure _

theorem metadata_keeps {γ : Type} {f : World → γ} (row : NamedKey) : Keeps f (metadata row) :=
  .bind (.done _) fun _ => .bind reads_keep fun _ => .bind (.done _) fun _ => .pure _

theorem listKeys_keeps {γ : Type} {f : World → γ} (owner : PyStr) : Keeps f (listKeys owner) := by
  have hall : ∀ rows, Keeps f (metadataAll rows) := by
    intro rows
    induction rows with
    | nil => exact .pure _
    | cons row rows ih => exact .bind (metadata_keeps _) fun _ => .bind ih fun _ => .pure _
  exact .bind .getDek fun _ => .bind reads_keep fun rows => hall rows

/-! ### The answer of an operation that changes a key -/

omit [Platform] in
theorem run_listVersions {keyId : ℤ} (h : Fits keyId) (hs : w.db.KeySound) :
    (NamedKeyRepository.listVersions keyId).run w = (.ok (w.db.selectKeyVersions keyId), w) :=
  run_connection_eq_ok.mpr
    (run_query_eq_ok.mpr ⟨bindAll_ok (by simp [bindValue_int h]), hs.fetchable_selectKeyVersions, rfl, rfl⟩)

/-- The numbers in a listing whose numbers are integers. -/
theorem versionNumbers_ok (rows : List NamedKeyVersion) (numbers : List ℤ)
    (h : rows.map (·.version) = numbers.map .int) : versionNumbers rows = .ok numbers := by
  induction rows generalizing numbers with
  | nil =>
    obtain rfl : numbers = [] := by simpa using h.symm
    rfl
  | cons row rows ih =>
    cases numbers with
    | nil => simp at h
    | cons n numbers =>
      simp only [List.map_cons, List.cons.injEq] at h
      simp [versionNumbers, h.1, ih numbers h.2]

/-- What is said about a key that is stored. -/
theorem run_metadata {dek : Key} {K : Keyring} {r : NamedKey} {key : KeyKind × List Key} (h : Stores dek w.db K)
    (hr : w.db.keyAt owner name = some r) (hK : K owner name = some key) :
    (metadata r).run w = (.ok ⟨.str name, .str key.1.usage, key.1.algorithm, key.2.length,
      (List.range key.2.length).map fun i : ℕ => (i : ℤ) + 1, r.createdAt, r.updatedAt⟩, w) := by
  obtain ⟨key', hK', hold⟩ := h.holdsKey hr
  obtain rfl : key = key' := Option.some.inj (hK.symm.trans hK')
  obtain ⟨hmem, -, hname⟩ := Database.keyAt_mem hr
  have hlen := hold.wraps.length_eq
  have hlatest : pyInt r.latestVersion = .ok (key.2.length : ℤ) := by
    rw [(Database.keyAt_latest h.sound hr).1, pyInt_int, hlen]
  have hnumbers : versionNumbers (w.db.keyVersionsAt owner name) =
      .ok ((List.range key.2.length).map fun i : ℕ => (i : ℤ) + 1) := by
    refine versionNumbers_ok _ _ (List.ext_getElem (by simp [hlen]) fun i hi _ => ?_)
    rw [List.length_map] at hi
    simp [Database.keyVersionsAt_number h.sound (List.getElem?_eq_getElem hi)]
  unfold metadata
  simp only [Prog.run_bind, Prog.run_done, hlatest, run_listVersions (h.fits r hmem) h.sound,
    Database.selectKeyVersions_eq h.sound hr,
    hnumbers, Prog.run_pure, hname, hold.usage, hold.algorithm]

/-! ### Making, rotating and revoking keys -/

/-- What a material that was stored left behind it: it was encrypted for owner, name, kind
and number, and nothing else but the key tables changed. -/
structure Stored (dek : Key) (owner name : PyStr) (kind : KeyKind) (coins : KeyCoins) (version : ℤ) (w w' : World) :
    Prop where
  /-- The encryption. -/
  sealed : ∃ associatedData encrypted,
    keyAad (.str owner) (.str name) (.str kind.usage) kind.algorithm version = .ok associatedData ∧
      Platform.aesGcmEncrypt dek coins.nonce coins.material associatedData = .ok encrypted ∧
        w'.sealed = w.sealed ++ [⟨dek, associatedData, coins.material, .split coins.nonce encrypted⟩]
  /-- Everything but the database and the record is as it was. -/
  rest : w' = { w with db := w'.db, sealed := w'.sealed }
  /-- The other tables are as they were. -/
  frame : w.db.KeyFrame w'.db

section Keys

variable {dek : Key} {K : Keyring} {kind : KeyKind} {coins : KeyCoins}

omit [Platform] in
theorem insertVersion_keeps {γ : Type} {f : World → γ} {keyId version : ℤ} {wrap : WrapForVersion} {now : PyStr}
    (hwrap : ∀ v, Keeps f (wrap.wrap v)) (hf : ∀ (w : World) db, f { w with db := db } = f w) :
    Keeps f (NamedKeyRepository.insertVersion keyId version wrap now) :=
  .bind (hwrap version) fun _ => .execute fun w _ _ _ => hf w _

omit [Platform] in
/-- What a wrapper and the statements around it keep, the transactions keep. -/
theorem createBody_keeps {γ : Type} {f : World → γ} {usage now : PyStr} {algorithm : Value} {wrap : WrapForVersion}
    (hwrap : ∀ v, Keeps f (wrap.wrap v)) (hf : ∀ (w : World) db, f { w with db := db } = f w) :
    Keeps f (NamedKeyRepository.createBody owner name usage algorithm wrap now) :=
  .bind (.execute fun w _ _ _ => hf w _) fun _ => insertVersion_keeps hwrap hf

theorem rotateBody_keeps {γ : Type} {f : World → γ} {now : PyStr} {wrap : WrapForVersion}
    (hwrap : ∀ v, Keeps f (wrap.wrap v)) (hf : ∀ (w : World) db, f { w with db := db } = f w) :
    Keeps f (NamedKeyRepository.rotateBody owner name wrap now) := by
  refine .bind (.query _ _) fun row => ?_
  cases row with
  | none => exact .pure _
  | some r =>
    exact .bind (.done _) fun _ => .bind (insertVersion_keeps hwrap hf) fun _ =>
      .bind (.execute fun w _ _ _ => hf w _) fun _ => .pure _

/-- **A creation that commits** stores the key. -/
theorem createBody_stores (hgcm : GcmCorrect) (h : Stores dek w.db K) (hmem : ∀ k ∈ w.dek, k = dek) {now : PyStr}
    {u : Unit} (hrun : (NamedKeyRepository.createBody owner name kind.usage kind.algorithm
      (wrapFor kind owner name coins) now).run w = (.ok u, w')) :
    Bindable owner ∧ Bindable name ∧ w.dek = some dek ∧ K owner name = none ∧
      Stores dek w'.db (K.set owner name (some (kind, [coins.material]))) ∧
        (∃ row, w'.db.keyAt owner name = some row) ∧ Stored dek owner name kind coins 1 w w' := by
  obtain ⟨howner, hname, halgorithm, hnone, id, versionId, wrapped, w₀, w₁, hpublic, hfits, hid, ⟨db, rfl⟩, hwrap, rfl⟩ :=
    NamedKeyRepository.run_createBody_eq_ok (fun v => wrapFor_keeps (fun _ _ => rfl) v) hrun
  obtain ⟨k, associatedData, encrypted, hk, haad, henc, rfl, rfl⟩ := run_wrapFor_eq_ok.mp hwrap
  obtain rfl := hmem k hk
  obtain ⟨-, hframe, hat, -⟩ := Database.createdKey_sound h.sound
    (NamedKeyRepository.newKey id owner name kind.usage kind.algorithm now)
    (NamedKeyRepository.newVersion versionId id 1 _ now) hnone hid rfl rfl rfl rfl rfl
    (NamedKeyRepository.fetchable_newKey halgorithm) (NamedKeyRepository.fetchable_newVersion hpublic)
  have hfound := hat owner name
  rw [if_pos ⟨rfl, rfl⟩] at hfound
  exact ⟨howner, hname, hk, h.keyAt_eq_none.mp hnone, h.create hnone hid hfits (wraps_newVersion hgcm haad henc),
    ⟨_, hfound⟩, ⟨associatedData, encrypted, haad, henc, rfl⟩, rfl, hframe⟩

/-- **A rotation that commits**, with the wrapper for the kind of the key, stores one more
version; where there is no key it does nothing. -/
theorem rotateBody_stores (hgcm : GcmCorrect) (h : Stores dek w.db K) (hmem : ∀ k ∈ w.dek, k = dek) {now : PyStr}
    {b : Bool} (hkind : ∀ key, K owner name = some key → key.1 = kind)
    (hrun : (NamedKeyRepository.rotateBody owner name (wrapFor kind owner name coins) now).run w = (.ok b, w')) :
    Bindable owner ∧ Bindable name ∧ ((b = false ∧ K owner name = none ∧ w' = w) ∨
      (b = true ∧ w.dek = some dek ∧ ∃ key, K owner name = some key ∧
        Stores dek w'.db (K.rotated owner name coins.material) ∧ (∃ row, w'.db.keyAt owner name = some row) ∧
          Stored dek owner name kind coins (key.2.length + 1) w w')) := by
  obtain ⟨howner, hname, ⟨hb, hnone, hw⟩ | ⟨hb, r, latest, versionId, wrapped, w₁, hpublic, hr, hlatest, hid, hfits, hwrap,
    rfl⟩⟩ :=
    NamedKeyRepository.run_rotateBody_eq_ok (fun v => wrapFor_keeps (fun _ _ => rfl) v) hrun
  · exact ⟨howner, hname, .inl ⟨hb, h.keyAt_eq_none.mp hnone, hw⟩⟩
  · obtain ⟨k, associatedData, encrypted, hk, haad, henc, rfl, rfl⟩ := run_wrapFor_eq_ok.mp hwrap
    obtain rfl := hmem k hk
    obtain ⟨key, hK, hold⟩ := h.holdsKey hr
    obtain rfl := hkind key hK
    have hlen : r.latestVersion = .int (w.db.keyVersionsAt owner name).length := (Database.keyAt_latest h.sound hr).1
    rw [hlen, pyInt_int] at hlatest
    obtain rfl := Except.ok.inj hlatest
    obtain ⟨-, hframe, hat, -⟩ := Database.rotatedKey_sound h.sound
      (NamedKeyRepository.newVersion versionId r.id _ _ now) now hr hlen rfl rfl
      (NamedKeyRepository.fetchable_newVersion hpublic)
    have hfound := hat owner name
    rw [if_pos ⟨rfl, rfl⟩] at hfound
    refine ⟨howner, hname, .inr ⟨hb, hk, key, hK, h.rotate hr hK (by rw [hlen, pyInt_int]) hfits
      (wraps_newVersion hgcm haad henc), ⟨_, hfound⟩, ⟨associatedData, encrypted, ?_, henc, rfl⟩, rfl, hframe⟩⟩
    rw [← h.length_eq hr hK]
    exact haad

/-- A creation: it commits and finds the key, or it leaves the tables. -/
theorem create_cases (kind : KeyKind) (owner name : PyStr) (coins : KeyCoins) (hgcm : GcmCorrect)
    (h : Stores dek w.db K) (hmem : ∀ k ∈ w.dek, k = dek) :
    (∃ e w', (NamedKeyRepository.create owner name kind.usage kind.algorithm (wrapFor kind owner name coins)).run w =
        (.error e, w') ∧ w'.keyPart = w.keyPart) ∨
      ∃ row w', (NamedKeyRepository.create owner name kind.usage kind.algorithm (wrapFor kind owner name coins)).run w =
        (.ok row, w') ∧ Bindable owner ∧ w.dek = some dek ∧ K owner name = none ∧
          Stores dek w'.db (K.set owner name (some (kind, [coins.material]))) ∧ w'.db.keyAt owner name = some row ∧
            Stored dek owner name kind coins 1 w w' := by
  unfold NamedKeyRepository.create
  simp only [Prog.run_bind, run_now, run_mapExc]
  rcases hconn : (connection .transaction (NamedKeyRepository.createBody owner name kind.usage kind.algorithm
    (wrapFor kind owner name coins) (isoformat w.clock))).run w with ⟨e | u, w₁⟩
  · refine .inl ⟨_, _, rfl, ?_⟩
    exact FailKeeps.connection (createBody_keeps (fun v => wrapFor_keeps (fun _ _ => rfl) v) fun _ _ => rfl)
      (fun _ _ => World.keyPart_restore) w e w₁ hconn
  · obtain ⟨howner, hname, hdek, hnone, hstores, ⟨row, hrow⟩, hstored⟩ :=
      createBody_stores hgcm h hmem (run_connection_eq_ok.mp hconn)
    refine .inr ⟨row, w₁, ?_, howner, hdek, hnone, hstores, hrow, hstored⟩
    simp only [run_getOwned howner hname hstores.sound, hrow, Prog.run_pure]

/-- A key is made: there was none, and its first version has the material. -/
def Creates (K : Keyring) (owner name : PyStr) (kind : KeyKind) (material : Key) (K' : Keyring) (version : ℤ) : Prop :=
  K owner name = none ∧ K' = K.set owner name (some (kind, [material])) ∧ version = 1

/-- A key is rotated: its next version has the material. -/
def Rotates (K : Keyring) (owner name : PyStr) (kind : KeyKind) (material : Key) (K' : Keyring) (version : ℤ) : Prop :=
  ∃ materials, K owner name = some (kind, materials) ∧ K' = K.rotated owner name material ∧
    version = materials.length + 1

/-- What an operation that stores a material comes to: it fails and leaves the tables, or it
succeeds and says which version it made, and the tables store the keyring that is changed
so. -/
def StoresOrFails (dek : Key) (owner name : PyStr) (kind : KeyKind) (coins : KeyCoins)
    (change : Keyring → ℤ → Prop) (w : World) (r : Except Exc Metadata × World) : Prop :=
  (∃ e, r.1 = .error e ∧ r.2.keyPart = w.keyPart) ∨
    ∃ m K', r.1 = .ok m ∧ change K' m.latestVersion ∧ keyNamePattern name ∧ Bindable owner ∧ w.dek = some dek ∧
      Stores dek r.2.db K' ∧ Stored dek owner name kind coins m.latestVersion w r.2

/-- A creation with its answer. -/
theorem create_metadata_cases (kind : KeyKind) (owner : PyStr) (coins : KeyCoins) (hgcm : GcmCorrect)
    (h : Stores dek w.db K) (hmem : ∀ k ∈ w.dek, k = dek) (hname : keyNamePattern name) :
    StoresOrFails dek owner name kind coins (Creates K owner name kind coins.material) w
      ((NamedKeyRepository.create owner name kind.usage kind.algorithm (wrapFor kind owner name coins) >>=
        metadata).run w) := by
  rw [Prog.run_bind]
  obtain ⟨e, w', hrun, hpart⟩ | ⟨row, w', hrun, howner, hdek, hnone, hstores, hrow, hstored⟩ :=
    create_cases kind owner name coins hgcm h hmem
  · rw [hrun]
    exact .inl ⟨e, rfl, hpart⟩
  · rw [hrun]
    simp only [run_metadata hstores hrow (Keyring.set_self _ _ _ _)]
    exact .inr ⟨_, _, rfl, ⟨hnone, rfl, rfl⟩, hname, howner, hdek, hstores, hstored⟩

/-- **Making an AES key.** -/
theorem createKey_cases (hgcm : GcmCorrect) (h : Stores dek w.db K) (hmem : ∀ k ∈ w.dek, k = dek) :
    StoresOrFails dek owner name .aes coins (Creates K owner name .aes coins.material) w
      ((createKey owner name coins).run w) := by
  unfold createKey validateKeyName
  by_cases hname : keyNamePattern name
  · simp only [hname, ↓reduceIte]
    rw [Prog.run_bind, Prog.run_pure]
    simp only [Prog.run_bind, run_getDek]
    cases hdek : w.dek with
    | none => exact .inl ⟨_, rfl, rfl⟩
    | some k =>
      have hcases := create_metadata_cases .aes owner coins hgcm h hmem hname
      rwa [Prog.run_bind] at hcases
  · simp only [hname, Bool.false_eq_true, ↓reduceIte]
    exact .inl ⟨_, rfl, rfl⟩

/-- **Making a signing key.** -/
theorem createSigningKey_cases (hgcm : GcmCorrect) (h : Stores dek w.db K) (hmem : ∀ k ∈ w.dek, k = dek)
    (signingAlgorithm : PyStr) :
    StoresOrFails dek owner name .ed25519 coins (Creates K owner name .ed25519 coins.material) w
      ((createSigningKey owner name signingAlgorithm coins).run w) := by
  unfold createSigningKey validateKeyName
  by_cases hname : keyNamePattern name
  · simp only [hname, ↓reduceIte]
    rw [Prog.run_bind, Prog.run_pure]
    by_cases halg : Platform.upper signingAlgorithm = ed25519
    · simp only [halg, ne_eq, not_true_eq_false, ↓reduceIte, Prog.run_bind, run_getDek]
      cases hdek : w.dek with
      | none => exact .inl ⟨_, rfl, rfl⟩
      | some k =>
        have hcases := create_metadata_cases .ed25519 owner coins hgcm h hmem hname
        rwa [Prog.run_bind] at hcases
    · simp only [halg, ne_eq, not_false_eq_true, ↓reduceIte]
      exact .inl ⟨_, rfl, rfl⟩
  · simp only [hname, Bool.false_eq_true, ↓reduceIte]
    exact .inl ⟨_, rfl, rfl⟩

/-- **Rotating a key.** -/
theorem rotateKey_cases (owner name : PyStr) (coins : KeyCoins) (hgcm : GcmCorrect)
    (h : Stores dek w.db K) (hmem : ∀ k ∈ w.dek, k = dek) :
    ∃ kind, StoresOrFails dek owner name kind coins (Rotates K owner name kind coins.material) w
      ((rotateKey owner name coins).run w) := by
  unfold rotateKey
  rw [Prog.run_bind]
  rcases howned : (ownedKey owner name).run w with ⟨e | keyRow, w₁⟩
  · refine ⟨.aes, .inl ⟨e, rfl, ?_⟩⟩
    have hkeep := World.keyPart_of_besideLog ((ownedKey_keeps owner name).run w)
    rwa [howned] at hkeep
  · obtain ⟨hname, howner, -, hrow, rfl⟩ := run_ownedKey_eq_ok.mp howned
    obtain ⟨key, hK, hold⟩ := h.holdsKey hrow
    refine ⟨key.1, ?_⟩
    -- the wrapper is the one for the kind of the key
    have hwrapper : wrapperOf keyRow owner name coins = wrapFor key.1 owner name coins := by
      unfold wrapperOf
      rw [hold.usage]
      cases key.1
      · exact if_pos rfl
      · exact if_neg (by decide)
    simp only [Prog.run_bind, run_getDek]
    cases hdek : w.dek with
    | none => exact .inl ⟨_, rfl, rfl⟩
    | some k =>
      simp only [hwrapper, NamedKeyRepository.rotate, Prog.run_bind, run_now]
      rcases hconn : (connection (.rotate owner name (wrapFor key.1 owner name coins).usage)
        (NamedKeyRepository.rotateBody owner name (wrapFor key.1 owner name coins) (isoformat w.clock))).run w
        with ⟨e | b, w₁⟩
      · refine .inl ⟨e, rfl, ?_⟩
        exact FailKeeps.connection (rotateBody_keeps (fun v => wrapFor_keeps (fun _ _ => rfl) v) fun _ _ => rfl)
          (fun _ _ => World.keyPart_restore) w e w₁ hconn
      · have hkind : ∀ key', K owner name = some key' → key'.1 = key.1 := by
          intro key' hK'
          rw [Option.some.inj (hK.symm.trans hK')]
        obtain ⟨-, hname', ⟨-, hnone, -⟩ | ⟨rfl, hk, key', hK', hstores, ⟨row, hrow'⟩, hstored⟩⟩ :=
          rotateBody_stores hgcm h hmem hkind (run_connection_eq_ok.mp hconn)
        · rw [hK] at hnone
          cases hnone
        · obtain rfl : key = key' := Option.some.inj (hK.symm.trans hK')
          have hK'' : K.rotated owner name coins.material owner name = some (key.1, key.2 ++ [coins.material]) := by
            rw [Keyring.rotated, Keyring.set_self, hK]
            rfl
          simp only [↓reduceIte, run_getOwned howner hname' hstores.sound, hrow', run_metadata hstores hrow' hK'']
          refine .inr ⟨_, _, rfl, ⟨key.2, hK, rfl, by simp⟩, hname, howner, hk, hstores, ?_⟩
          simpa using hstored

/-- **Revoking a key.** -/
theorem deleteKey_cases (owner name : PyStr) (h : Stores dek w.db K) :
    (∃ e w', (deleteKey owner name).run w = (.error e, w') ∧ w'.keyPart = w.keyPart) ∨
      ∃ w', (deleteKey owner name).run w = (.ok name, w') ∧ keyNamePattern name ∧ Bindable owner ∧ w.dek ≠ none ∧
        K owner name ≠ none ∧ Stores dek w'.db (K.set owner name none) ∧
          w' = { w with db := (w.db.deleteKey owner name).2 } := by
  unfold deleteKey
  rw [Prog.run_bind]
  rcases howned : (ownedKey owner name).run w with ⟨e | keyRow, w₁⟩
  · refine .inl ⟨e, w₁, rfl, ?_⟩
    have hkeep := World.keyPart_of_besideLog ((ownedKey_keeps owner name).run w)
    rwa [howned] at hkeep
  · obtain ⟨hname, howner, -, hrow, rfl⟩ := run_ownedKey_eq_ok.mp howned
    simp only [Prog.run_bind, run_getDek]
    cases hdek : w.dek with
    | none => exact .inl ⟨_, _, rfl, rfl⟩
    | some k =>
      have hdelete : (NamedKeyRepository.deleteOwned owner name).run w =
          (.ok (decide ((w.db.deleteKey owner name).1 > 0)), { w with db := (w.db.deleteKey owner name).2 }) := by
        refine run_connection_eq_ok.mpr (Prog.run_bind_eq_ok.mpr ⟨_, _, run_execute_eq_ok.mpr ⟨?_, _, rfl, rfl⟩, rfl⟩)
        exact bindAll_ok (by simp [bindValue_str howner, bindValue_str (bindable_keyName hname)])
      have hpos : (w.db.deleteKey owner name).1 > 0 :=
        (Database.deleteKey_spec h.sound owner name).2.2.1.mpr (by simp [hrow])
      have hsome : K owner name ≠ none := by
        rw [ne_eq, ← h.keyAt_eq_none, hrow]
        simp
      simp only [hdelete, hpos, decide_true, ↓reduceIte, Prog.run_pure]
      refine .inr ⟨_, rfl, hname, howner, by simp, hsome, h.delete owner name, ?_⟩
      rw [← hdek]

/-! ### What making, rotating and revoking leave alone -/

omit [Platform] in
theorem besideStores_restore {w w' : World} (h : w'.besideStores = w.besideStores) :
    World.besideStores { w' with db := w.db } = w.besideStores := h

omit [Platform] in
theorem create_keeps {usage : PyStr} {algorithm : Value} {wrap : WrapForVersion}
    (hwrap : ∀ v, Keeps World.besideStores (wrap.wrap v)) :
    Keeps World.besideStores (NamedKeyRepository.create owner name usage algorithm wrap) := by
  refine .bind .now fun now => .bind (.mapExc (.connection (createBody_keeps hwrap fun _ _ => rfl) fun _ _ =>
    besideStores_restore)) fun _ => .bind reads_keep fun row => ?_
  cases row with
  | none => exact .throw _
  | some r => exact .pure _

theorem createKey_keeps (owner name : PyStr) (coins : KeyCoins) :
    Keeps World.besideStores (createKey owner name coins) :=
  .bind (Prog.Sat.ite (fun _ => .pure _) fun _ => .throw _) fun _ => .bind .getDek fun _ =>
    .bind (create_keeps fun _ => wrapFor_keeps (fun _ _ => rfl) _) fun _ => metadata_keeps _

theorem createSigningKey_keeps (owner name signingAlgorithm : PyStr) (coins : KeyCoins) :
    Keeps World.besideStores (createSigningKey owner name signingAlgorithm coins) :=
  .bind (Prog.Sat.ite (fun _ => .pure _) fun _ => .throw _) fun _ => Prog.Sat.ite (fun _ => .throw _) fun _ =>
    Keeps.bind .getDek fun _ => .bind (create_keeps fun _ => wrapFor_keeps (fun _ _ => rfl) _) fun _ =>
      metadata_keeps _

/-- The wrapper `rotate_key` chooses is the one for some kind of key. -/
theorem wrapperOf_eq (keyRow : NamedKey) (owner name : PyStr) (coins : KeyCoins) :
    ∃ kind, wrapperOf keyRow owner name coins = wrapFor kind owner name coins := by
  unfold wrapperOf
  split_ifs
  · exact ⟨.aes, rfl⟩
  · exact ⟨.ed25519, rfl⟩

theorem rotateKey_keeps (owner name : PyStr) (coins : KeyCoins) :
    Keeps World.besideStores (rotateKey owner name coins) := by
  refine .bind ((ownedKey_keeps _ _).aside fun _ => rfl) fun keyRow => .bind .getDek fun _ => .bind ?_ fun rotated => ?_
  · obtain ⟨kind, hwrapper⟩ := wrapperOf_eq keyRow owner name coins
    rw [hwrapper]
    exact .bind .now fun now => .bind (.connection (rotateBody_keeps (fun _ => wrapFor_keeps (fun _ _ => rfl) _)
      fun _ _ => rfl) fun _ _ => besideStores_restore) fun b => Prog.Sat.ite
        (fun _ => reads_keep) fun _ => .pure _
  · cases rotated with
    | none => exact .throw _
    | some row => exact metadata_keeps _

theorem deleteKey_keeps (owner name : PyStr) : Keeps World.besideStores (deleteKey owner name) :=
  .bind ((ownedKey_keeps _ _).aside fun _ => rfl) fun _ => .bind .getDek fun _ =>
    .bind (.connection (.bind (.execute fun _ _ _ _ => rfl) fun _ => .pure _) fun _ _ => besideStores_restore) fun _ =>
      Prog.Sat.ite (fun _ => .pure _) fun _ => .throw _

theorem deleteKey_keepsSealed (owner name : PyStr) : Keeps World.sealed (deleteKey owner name) :=
  .bind ((ownedKey_keeps _ _).aside fun _ => rfl) fun _ => .bind .getDek fun _ =>
    .bind (.connection (.bind (.execute fun _ _ _ _ => rfl) fun _ => .pure _) fun _ _ h => h) fun _ =>
      Prog.Sat.ite (fun _ => .pure _) fun _ => .throw _

/-! ### What making and rotating encrypt -/

/-- The encryption wraps the material for owner, name and kind. -/
def Wrapping (owner name : PyStr) (kind : KeyKind) (material : Key) (s : Sealing) : Prop :=
  s.plaintext = material ∧ ∃ version, keyAad (.str owner) (.str name) (.str kind.usage) kind.algorithm version = .ok s.aad

theorem wrapFor_seals (version : ℤ) :
    Seals (Wrapping owner name kind coins.material) ((wrapFor kind owner name coins).wrap version) :=
  .bind Keeps.getDek.seals fun _ => .bind_done fun _ haad =>
    .bind (encryptAesGcm_seals fun _ _ _ => ⟨rfl, version, haad⟩) fun _ => .pure _

omit [Platform] in
theorem insertVersion_seals {P : Sealing → Prop} {keyId version : ℤ} {wrap : WrapForVersion} {now : PyStr}
    (hwrap : ∀ v, Seals P (wrap.wrap v)) : Seals P (NamedKeyRepository.insertVersion keyId version wrap now) :=
  .bind (hwrap version) fun _ => (Keeps.execute fun _ _ _ _ => rfl).seals

omit [Platform] in
theorem create_seals {P : Sealing → Prop} {usage : PyStr} {algorithm : Value} {wrap : WrapForVersion}
    (hwrap : ∀ v, Seals P (wrap.wrap v)) : Seals P (NamedKeyRepository.create owner name usage algorithm wrap) := by
  refine .bind Keeps.now.seals fun now => .bind (.handle (Seals.connection (.bind (Keeps.execute fun _ _ _ _ => rfl).seals
    fun _ => insertVersion_seals hwrap)) fun e => .ite (fun _ => .throw _) fun _ => .throw _) fun _ =>
      .bind (reads_keep (f := World.sealed)).seals fun row => ?_
  cases row with
  | none => exact .throw _
  | some r => exact .pure _

theorem createKey_seals (owner name : PyStr) (coins : KeyCoins) :
    Seals (Wrapping owner name .aes coins.material) (createKey owner name coins) :=
  .bind (.ite (fun _ => .pure _) fun _ => .throw _) fun _ => .bind Keeps.getDek.seals fun _ =>
    .bind (create_seals wrapFor_seals) fun _ => (metadata_keeps _).seals

theorem createSigningKey_seals (owner name signingAlgorithm : PyStr) (coins : KeyCoins) :
    Seals (Wrapping owner name .ed25519 coins.material) (createSigningKey owner name signingAlgorithm coins) :=
  .bind (.ite (fun _ => .pure _) fun _ => .throw _) fun _ => .ite (fun _ => .throw _) fun _ =>
    .bind Keeps.getDek.seals fun _ => .bind (create_seals wrapFor_seals) fun _ =>
      (metadata_keeps _).seals

theorem rotateKey_seals (owner name : PyStr) (coins : KeyCoins) :
    Seals (fun s => ∃ kind, Wrapping owner name kind coins.material s) (rotateKey owner name coins) := by
  refine .bind ((ownedKey_keeps _ _).aside fun _ => rfl).seals fun keyRow => .bind Keeps.getDek.seals fun _ =>
    .bind (.bind Keeps.now.seals fun now => .bind (.connection ?_) fun b => .ite
      (fun _ => (reads_keep (f := World.sealed)).seals) fun _ => .pure _) fun rotated => ?_
  · obtain ⟨kind, hwrapper⟩ := wrapperOf_eq keyRow owner name coins
    rw [hwrapper]
    refine .bind (Keeps.query _ _).seals fun row => ?_
    cases row with
    | none => exact .pure _
    | some r =>
      refine .bind_done fun latest _ => .bind (insertVersion_seals fun v => ?_) fun _ =>
        .bind (Keeps.execute fun _ _ _ _ => rfl).seals fun _ => .pure _
      exact (wrapFor_seals v).mono fun s hs => ⟨kind, hs⟩
  · cases rotated with
    | none => exact .throw _
    | some row => exact (metadata_keeps _).seals

/-- A text that is not the name of a key is refused. -/
theorem refused_of_not_keyName (h : ¬ keyNamePattern name) (signingAlgorithm : PyStr) :
    createKey owner name coins = throw .invalidKeyNameError ∧
      createSigningKey owner name signingAlgorithm coins = throw .invalidKeyNameError ∧
        rotateKey owner name coins = throw .invalidKeyNameError := by
  refine ⟨?_, ?_, ?_⟩
  · simp [createKey, validateKeyName, h]
  · simp [createSigningKey, validateKeyName, h]
  · simp [rotateKey, ownedKey, validateKeyName, h]

/-! ### Using keys -/

/-- What an encryption that succeeds made: the payload, encrypted under the latest material of
an AES key, for owner, name and version. -/
structure Encrypted (K : Keyring) (owner name plaintextB64 : PyStr) (r : EncryptResult) (s : Sealing) : Prop where
  /-- The key, and its latest material. -/
  key : ∃ materials material, K owner name = some (.aes, materials) ∧ materials.getLast? = some material ∧
    r.keyVersion = materials.length ∧ s.key = material
  /-- The name. -/
  keyName : r.keyName = name
  /-- What the encryption is bound to. -/
  aad : dataAad owner name r.keyVersion = .ok s.aad
  /-- The payload. -/
  plaintext : decodeB64 (.str plaintextB64) = .ok s.plaintext
  /-- It opens again. -/
  opens : Opens s.key s.aad s.blob s.plaintext
  /-- The token. -/
  ciphertext : formatCiphertext name r.keyVersion s.blob = .ok r.ciphertext

/-- The latest version of a key that is stored: its number, and the row that is unwrapped to
its material. -/
theorem latest_stored (h : Stores dek w.db K) {r : NamedKey} {key : KeyKind × List Key} {latest : ℤ}
    (hr : w.db.keyAt owner name = some r) (hK : K owner name = some key) (hlatest : pyInt r.latestVersion = .ok latest) :
    latest = key.2.length ∧ Fits r.id ∧ Fits latest ∧ ∃ material row, key.2.getLast? = some material ∧
      w.db.selectKeyVersion r.id latest = some row ∧ openVersion dek r row = .ok material := by
  obtain ⟨hl, hne⟩ := Database.keyAt_latest h.sound hr
  have hlen := h.length_eq hr hK
  rw [hl, pyInt_int] at hlatest
  obtain rfl := Except.ok.inj hlatest
  have hpos : 0 < key.2.length := hlen ▸ hne
  have hnumber : ((w.db.keyVersionsAt owner name).length : ℤ) = ((key.2.length - 1 : ℕ) : ℤ) + 1 := by omega
  refine ⟨by rw [hlen], h.fits r (Database.keyAt_mem hr).1, h.numbers owner name, ?_⟩
  rcases h.selectKeyVersion hr hK (key.2.length - 1) with ⟨row, m, hrow, hm, -, hopen, -⟩ | ⟨-, hm⟩
  · refine ⟨m, row, ?_, ?_, hopen⟩
    · rw [List.getLast?_eq_getElem?, hm]
    · rw [hnumber]
      exact hrow
  · rw [List.getElem?_eq_none_iff] at hm
    omega

/-- The framing of a token, which comes after the encryption, does not fail: so a call that
fails has encrypted nothing. -/
theorem encrypt_error_sealed (h : Stores dek w.db K) {plaintextB64 : PyStr} {nonce : Nonce} {e : Exc}
    (hrun : (encrypt owner name plaintextB64 nonce).run w = (.error e, w')) : w'.sealed = w.sealed := by
  unfold encrypt at hrun
  rcases Prog.run_bind_eq_error.mp hrun with hrun | ⟨keyRow, w₁, howned, hrun⟩
  · exact ((ownedKey_keeps owner name).aside fun _ => rfl).fail w e w' hrun
  obtain ⟨hname, -, -, hrow, rfl⟩ := run_ownedKey_eq_ok.mp howned
  by_cases husage : keyRow.keyUsage = .str encryptDecrypt
  · simp only [husage, ne_eq, not_true_eq_false, ↓reduceIte] at hrun
    rcases Prog.run_bind_eq_error.mp hrun with hrun | ⟨k, w₁, hget, hrun⟩
    · exact Keeps.getDek.fail w e w' hrun
    obtain ⟨-, rfl⟩ := run_getDek_eq_ok.mp hget
    rcases Prog.run_bind_eq_error.mp hrun with hrun | ⟨plaintext, w₁, hdone, hrun⟩
    · exact (Keeps.done _).fail w e w' hrun
    obtain ⟨-, rfl⟩ := Prog.run_done_eq_ok.mp hdone
    rcases Prog.run_bind_eq_error.mp hrun with hrun | ⟨version, w₁, hdone, hrun⟩
    · exact (Keeps.done _).fail w e w' hrun
    obtain ⟨hlatest, rfl⟩ := Prog.run_done_eq_ok.mp hdone
    rcases Prog.run_bind_eq_error.mp hrun with hrun | ⟨row, w₁, hfound, hrun⟩
    · exact (keyVersion_keeps (f := World.sealed) keyRow version).fail w e w' hrun
    obtain ⟨-, hfits, -, -, rfl⟩ := run_keyVersion_eq_ok.mp hfound
    rcases Prog.run_bind_eq_error.mp hrun with hrun | ⟨material, w₁, hunwrap, hrun⟩
    · exact (unwrap_keeps keyRow row).fail w e w' hrun
    obtain ⟨-, -, -, rfl⟩ := run_unwrap_eq_ok.mp hunwrap
    by_cases hlen : material.length = aesKeyLength
    · simp only [hlen, not_true_eq_false, ↓reduceIte] at hrun
      rcases Prog.run_bind_eq_error.mp hrun with hrun | ⟨associatedData, w₁, hdone, hrun⟩
      · exact (Keeps.done _).fail w e w' hrun
      obtain ⟨-, rfl⟩ := Prog.run_done_eq_ok.mp hdone
      rcases Prog.run_bind_eq_error.mp hrun with hrun | ⟨blob, w₁, henc, hrun⟩
      · exact encryptAesGcm_failKeeps w e w' hrun
      -- the name is one, and the version at least the first
      obtain ⟨key, hK, hold⟩ := h.holdsKey hrow
      obtain ⟨rfl, -, -, m, -, hlast, -⟩ := latest_stored h hrow hK hlatest
      have hpos : ¬ (key.2.length : ℤ) < 1 := by
        have := List.length_pos_iff.mpr (List.ne_nil_of_mem (List.mem_of_getLast? hlast))
        omega
      have hformat : ∃ token, formatCiphertext name key.2.length blob = .ok token := by
        unfold formatCiphertext
        simp only [hname, Bool.not_true, Bool.false_eq_true, ↓reduceIte, hpos, intRepr_of_fits hfits]
        split_ifs <;> exact ⟨_, rfl⟩
      obtain ⟨token, hformat⟩ := hformat
      simp [Prog.run_bind, hformat] at hrun
    · simp only [hlen, not_false_eq_true, ↓reduceIte, Prog.throw_bind, Prog.run_throw, Prod.mk.injEq] at hrun
      rw [hrun.2]
  · simp only [husage, ne_eq, not_false_eq_true, ↓reduceIte, Prog.throw_bind, Prog.run_throw, Prod.mk.injEq] at hrun
    rw [hrun.2]

/-- **Encrypting**: the call fails, changes no key and encrypts nothing, or it encrypts the
payload under the latest material. -/
theorem encrypt_cases (owner name : PyStr) (hgcm : GcmCorrect) (h : Stores dek w.db K) (hmem : ∀ k ∈ w.dek, k = dek)
    (plaintextB64 : PyStr) (nonce : Nonce) :
    (∃ e w', (encrypt owner name plaintextB64 nonce).run w = (.error e, w') ∧ w'.keyPart = w.keyPart ∧
        w'.sealed = w.sealed) ∨
      ∃ r s, (encrypt owner name plaintextB64 nonce).run w = (.ok r, { w with sealed := w.sealed ++ [s] }) ∧
        keyNamePattern name ∧ Bindable owner ∧ w.dek ≠ none ∧ Encrypted K owner name plaintextB64 r s := by
  rcases hrun : (encrypt owner name plaintextB64 nonce).run w with ⟨e | r, w'⟩
  · refine .inl ⟨e, w', rfl, ?_, encrypt_error_sealed h hrun⟩
    have hkeep := (encrypt_keeps (f := World.keyPart) owner name plaintextB64 nonce (fun _ => rfl) fun _ _ => rfl).run w
    rwa [hrun] at hkeep
  · obtain ⟨hname, howner, k, keyRow, row, material, plaintext, associatedData, encrypted, hk, hrow, husage, hplain, hlatest,
      hselect, hopen, hlen, haad, henc, hkeyName, hformat, rfl⟩ := run_encrypt_eq_ok hrun
    obtain rfl := hmem k hk
    obtain ⟨⟨kind, materials⟩, hK, hold⟩ := h.holdsKey hrow
    obtain ⟨hversion, -, -, m, row', hlast, hselect', hopen'⟩ := latest_stored h hrow hK hlatest
    obtain rfl : row = row' := Option.some.inj (hselect.symm.trans hselect')
    obtain rfl : material = m := Except.ok.inj (hopen.symm.trans hopen')
    obtain rfl : kind = .aes := KeyKind.usage_inj (Value.str.inj (hold.usage.symm.trans husage))
    exact .inr ⟨r, _, rfl, hname, howner, by simp [hk], ⟨materials, m, hK, hlast, hversion, rfl⟩, hkeyName, haad, hplain,
      hgcm.opens hlen henc, hformat⟩

/-- What a signature that was made is: of the digest, under the latest material of a signing
key. -/
structure Signed (K : Keyring) (owner name messageB64 messageType : PyStr) (r : SignResult) (s : Signing) : Prop where
  /-- The key, and its latest material. -/
  key : ∃ materials material, K owner name = some (.ed25519, materials) ∧ materials.getLast? = some material ∧
    r.keyVersion = materials.length ∧ s.privateKey = material
  /-- The digest. -/
  digest : messageDigest messageB64 messageType = .ok s.digest
  /-- The signature. -/
  signature : s.signature = Platform.ed25519Sign s.privateKey s.digest
  /-- And its text. -/
  signatureB64 : r.signatureB64 = encodeB64 s.signature

theorem sign_failKeeps (owner name messageB64 messageType signingAlgorithm : PyStr) :
    FailKeeps World.signed (sign owner name messageB64 messageType signingAlgorithm) := by
  unfold sign validateAlgorithm
  refine .bind ((ownedKey_keeps _ _).aside fun _ => rfl) fun keyRow => .ite (Keeps.throw _).fail ?_
  refine .bind (Prog.Sat.ite (fun _ => .throw _) fun _ => .pure _) fun _ => .bind .getDek fun _ => .bind (.done _) fun _ =>
    .bind (.done _) fun version => .bind (keyVersion_keeps _ _) fun row => .bind (unwrap_keeps _ _) fun _ =>
      .ite (Keeps.throw _).fail ?_
  -- nothing fails behind the signature
  intro w e w' hrun
  simp [recordSigning, Prog.run_bind] at hrun

/-- **Signing**: the call fails, changes no key and signs nothing, or it signs the digest with
the latest material. -/
theorem sign_cases (owner name : PyStr) (h : Stores dek w.db K) (hmem : ∀ k ∈ w.dek, k = dek)
    (messageB64 messageType signingAlgorithm : PyStr) :
    (∃ e w', (sign owner name messageB64 messageType signingAlgorithm).run w = (.error e, w') ∧ w'.keyPart = w.keyPart ∧
        w'.signed = w.signed) ∨
      ∃ r s, (sign owner name messageB64 messageType signingAlgorithm).run w =
          (.ok r, { w with signed := w.signed ++ [s] }) ∧
        w.dek ≠ none ∧ Signed K owner name messageB64 messageType r s := by
  rcases hrun : (sign owner name messageB64 messageType signingAlgorithm).run w with ⟨e | r, w'⟩
  · refine .inl ⟨e, w', rfl, ?_, sign_failKeeps _ _ _ _ _ w e w' hrun⟩
    have hkeep := (sign_keeps (f := World.keyPart) owner name messageB64 messageType signingAlgorithm (fun _ => rfl)
      fun _ _ => rfl).run w
    rwa [hrun] at hkeep
  · obtain ⟨-, -, k, keyRow, row, privateKey, digest, hk, hrow, husage, -, hdigest, hlatest, -, -, hselect, hopen, -, -, -,
      hsignature, rfl⟩ := run_sign_eq_ok hrun
    obtain rfl := hmem k hk
    obtain ⟨⟨kind, materials⟩, hK, hold⟩ := h.holdsKey hrow
    obtain ⟨hversion, -, -, m, row', hlast, hselect', hopen'⟩ := latest_stored h hrow hK hlatest
    obtain rfl : row = row' := Option.some.inj (hselect.symm.trans hselect')
    obtain rfl : privateKey = m := Except.ok.inj (hopen.symm.trans hopen')
    obtain rfl : kind = .ed25519 := KeyKind.usage_inj (Value.str.inj (hold.usage.symm.trans husage))
    exact .inr ⟨r, _, rfl, by simp [hk], ⟨materials, m, hK, hlast, hversion, rfl⟩, hdigest, rfl, hsignature⟩

end Keys

end TransitService

end MiniVault
