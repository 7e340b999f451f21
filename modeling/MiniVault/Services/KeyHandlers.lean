import MiniVault.Services.Handlers
import MiniVault.Transit.Grammar

/-!
# Errors of the transit service

What the calls of the transit service that use a key ask of their arguments and of the state, so that they return or
raise an exception with a handler.

## What is proved

* `handled_encrypt_iff`, `handled_decrypt_iff`, `handled_sign_iff`, `handled_verify_iff` — the exact condition for
  each call, where the key tables are in order.
-/

namespace MiniVault

open Foundations

variable [Platform]

namespace TransitService

section Calls

variable {β : Type} {owner name : PyStr} {w : World} {keyRow : NamedKey} {versionRow : NamedKeyVersion}

/-! ### Versions -/

omit [Platform] in
/-- **The look for a version** asks that the number fits. -/
theorem handled_keyVersion_bind {f : NamedKeyVersion → Act β} (hs : w.db.KeySound) (hid : Fits keyRow.id) {version : ℤ} :
    Handled (keyVersion keyRow version >>= f) w ↔
      Fits version ∧ ∀ row, w.db.selectKeyVersion keyRow.id version = some row → Handled (f row) w := by
  unfold keyVersion NamedKeyRepository.getVersion
  rw [Prog.bind_assoc, handled_query_bind hs.fetchable_selectKeyVersion]
  have hbind : (∀ v ∈ [Value.int keyRow.id, .int version], bindValue v = .ok ()) ↔ Fits version := by
    simp [bindValue_int_iff, hid]
  rw [hbind]
  refine and_congr_right fun _ => ?_
  rcases w.db.selectKeyVersion keyRow.id version with - | row
  · exact iff_of_true (handled_throw.mpr rfl) fun row hrow => by cases hrow
  · rw [handled_bind_ok (Prog.run_pure row w)]
    exact ⟨fun h row' hrow' => by rwa [← Option.some.inj hrow'], fun h => h row rfl⟩

omit [Platform] in
theorem blobOf_isTampering {e : Exc} (h : blobOf versionRow = .error e) : isTampering e := by
  unfold blobOf at h
  obtain h | ⟨nonce, -, h⟩ := bind_eq_error h
  · exact decodeB64_isTampering h
  obtain h | ⟨ciphertext, -, h⟩ := bind_eq_error h
  · exact decodeB64_isTampering h
  obtain h | ⟨tag, -, h⟩ := bind_eq_error h
  · exact decodeB64_isTampering h
  · cases h

/-- Of a row whose number is an integer, every error is taken for tampering. -/
theorem openVersion_isTampering (hrejects : GcmRejects) {dek : Key} {n : ℤ} (hnumber : versionRow.version = .int n) {e : Exc}
    (h : openVersion dek keyRow versionRow = .error e) : isTampering e := by
  unfold openVersion at h
  obtain h | ⟨blob, -, h⟩ := bind_eq_error h
  · exact blobOf_isTampering h
  rw [hnumber, pyInt_int, ok_bind] at h
  obtain h | ⟨associatedData, -, h⟩ := bind_eq_error h
  · unfold keyAad at h
    split at h
    · cases h
    · rw [← Except.error.inj h]
      rfl
  · exact hrejects.isTampering h

/-- **Unwrapping** asks something of what follows only. -/
theorem handled_unwrap_bind {f : Bytes → Act β} (hrejects : GcmRejects) {n : ℤ} (hnumber : versionRow.version = .int n) :
    Handled (unwrap keyRow versionRow >>= f) w ↔ ∀ dek material, w.dek = some dek →
      openVersion dek keyRow versionRow = .ok material → Handled (f material) w := by
  have hopen : ∀ e, ((getDek >>= fun dek => Prog.done (openVersion dek keyRow versionRow) : Act Bytes).run w).1 = .error e →
      isTampering e ∨ e.isHandled := by
    intro e he
    rcases hdek : w.dek with - | dek
    · rw [Prog.run_bind_error ((run_getDek w).trans (by rw [hdek]))] at he
      rw [← Except.error.inj he]
      exact .inr rfl
    · rw [Prog.run_bind_ok ((run_getDek w).trans (by rw [hdek]))] at he
      exact .inl (openVersion_isTampering hrejects hnumber he)
  unfold unwrap
  rw [handled_mapExc_bind rfl hopen]
  constructor
  · intro h dek material hdek hmaterial
    exact h material w (Prog.run_bind_eq_ok.mpr ⟨dek, w, run_getDek_eq_ok.mpr ⟨hdek, rfl⟩,
      Prog.run_done_eq_ok.mpr ⟨hmaterial, rfl⟩⟩)
  · intro h material w' hrun
    obtain ⟨dek, _, hget, hdone⟩ := Prog.run_bind_eq_ok.mp hrun
    obtain ⟨hdek, rfl⟩ := run_getDek_eq_ok.mp hget
    obtain ⟨hmaterial, rfl⟩ := Prog.run_done_eq_ok.mp hdone
    exact h dek material hdek hmaterial

omit [Platform] in
/-- A version of a key that is found has an integer for its number. -/
theorem selectKeyVersion_number (h : KeysFit w.db) (hrow : w.db.keyAt owner name = some keyRow) {version : ℤ}
    (hselect : w.db.selectKeyVersion keyRow.id version = some versionRow) : versionRow.version = .int version := by
  obtain ⟨i, rfl, hi⟩ := (Database.selectKeyVersion_eq_some h.sound hrow).mp hselect
  exact Database.keyVersionsAt_number h.sound hi

/-- **The latest version** is found and unwrapped, which asks something of what follows only. -/
theorem handled_latest_bind (hrejects : GcmRejects) (h : KeysFit w.db) (hrow : w.db.keyAt owner name = some keyRow)
    {f : ℤ → Bytes → Act β} :
    Handled (do
      let version ← Prog.done (pyInt keyRow.latestVersion)
      let versionRow ← keyVersion keyRow version
      let material ← unwrap keyRow versionRow
      f version material) w ↔
    ∀ dek versionRow material, w.dek = some dek →
      w.db.selectKeyVersion keyRow.id (w.db.keyVersionsAt owner name).length = some versionRow →
        openVersion dek keyRow versionRow = .ok material → Handled (f (w.db.keyVersionsAt owner name).length material) w := by
  rw [(Database.keyAt_latest h.sound hrow).1, pyInt_int]
  apply (handled_keyVersion_bind h.sound (h.ids keyRow (Database.keyAt_mem hrow).1)).trans
  rw [and_iff_right (h.numbers owner name)]
  constructor
  · intro hall dek versionRow material hdek hselect hopen
    exact (handled_unwrap_bind hrejects (selectKeyVersion_number h hrow hselect)).mp (hall versionRow hselect) dek material
      hdek hopen
  · intro hall versionRow hselect
    exact (handled_unwrap_bind hrejects (selectKeyVersion_number h hrow hselect)).mpr fun dek material hdek hopen =>
      hall dek versionRow material hdek hselect hopen

/-! ### Payloads -/

omit [Platform] in
theorem decodePayload_isHandled {value : PyStr} {e : Exc} (h : decodePayload value = .error e) : e.isHandled := by
  unfold decodePayload at h
  split at h
  · cases h
  · rw [← Except.error.inj h]
    rfl

theorem messageDigest_isHandled {messageB64 messageType : PyStr} {e : Exc}
    (h : messageDigest messageB64 messageType = .error e) : e.isHandled := by
  unfold messageDigest at h
  obtain h | ⟨message, -, h⟩ := bind_eq_error h
  · exact decodePayload_isHandled h
  · dsimp only at h
    split_ifs at h <;> rw [← Except.error.inj h] <;> rfl

omit [Platform] in
/-- The associated data of owner and name that have bytes. -/
theorem exists_dataAad (howner : Encodable owner) (hname : keyNamePattern name) (version : ℤ) :
    ∃ associatedData, dataAad owner name version = .ok associatedData := by
  have hencodable : Encodable (dataAadText owner name version) := by
    unfold dataAadText
    simp [howner, encodable_keyName hname]
  obtain ⟨b, hb⟩ := Option.isSome_iff_exists.mp ((utf8Encode_isSome_iff _).mpr hencodable)
  exact ⟨b, by unfold dataAad; rw [hb]⟩

/-! ### The calls -/

/-- The latest version of a key opens to a material of 32 bytes under the key in memory. -/
def OpensLatest (w : World) (owner name : PyStr) (keyRow : NamedKey) : Prop :=
  ∃ dek row material, w.dek = some dek ∧
    w.db.selectKeyVersion keyRow.id (w.db.keyVersionsAt owner name).length = some row ∧
      openVersion dek keyRow row = .ok material ∧ material.length = 32

/-- Neither the plaintext nor its associated data is too long to be encrypted. -/
structure FitsGcm (w : World) (owner name plaintextB64 : PyStr) : Prop where
  /-- The plaintext. -/
  plaintext : ∀ plaintext, decodePayload plaintextB64 = .ok plaintext → plaintext.length < 2 ^ 31
  /-- The associated data, where there is a plaintext. -/
  aad : (decodePayload plaintextB64).isOk → ∀ associatedData,
    dataAad owner name (w.db.keyVersionsAt owner name).length = .ok associatedData → associatedData.length < 2 ^ 31

/-- An encryption asks that what is encrypted is not too long. -/
theorem handled_encryptAesGcm_bind (hlimits : GcmLimits) {material plaintext associatedData : Bytes} {nonce : Nonce}
    (hlen : material.length = 32) {f : EncryptedBlob → Act β} (hf : ∀ blob w', Handled (f blob) w') :
    Handled (encryptAesGcm material plaintext associatedData nonce >>= f) w ↔
      plaintext.length < 2 ^ 31 ∧ associatedData.length < 2 ^ 31 := by
  rcases hrun : (encryptAesGcm material plaintext associatedData nonce).run w with ⟨e | blob, w'⟩
  · rw [handled_bind_error hrun, Exc.isHandled_of_library ((hlimits.encryptAesGcm_fails _ _ _ _).run hrun)]
    refine ⟨nofun, fun ⟨hplaintext, hassociated⟩ => ?_⟩
    obtain ⟨encrypted, henc, -⟩ := hlimits.ok ⟨material, hlen⟩ nonce plaintext associatedData hplaintext hassociated
    cases hrun.symm.trans (run_encryptAesGcm_eq_ok.mpr ⟨hlen, encrypted, henc, rfl, rfl⟩)
  · rw [handled_bind_ok hrun]
    refine iff_of_true (hf blob w') (by_contra fun hlong => ?_)
    obtain ⟨hlen', encrypted, henc, -, -⟩ := run_encryptAesGcm_eq_ok.mp hrun
    cases henc.symm.trans (hlimits.overflow ⟨material, hlen'⟩ nonce plaintext associatedData hlong)

/-- **An encryption** asks, where its key can be used, that the plaintext and the associated data are not too long. -/
theorem handled_encrypt_iff (hrejects : GcmRejects) (hlimits : GcmLimits) (hkeys : KeysFit w.db) (hlog : LogKept w.db)
    {plaintextB64 : PyStr} {nonce : Nonce} :
    Handled (encrypt owner name plaintextB64 nonce) w ↔ OnKey w owner name fun row =>
      row.keyUsage = .str encryptDecrypt → OpensLatest w owner name row → FitsGcm w owner name plaintextB64 := by
  unfold encrypt
  rw [handled_ownedKey_bind hkeys.sound hlog]
  apply onKey_congr
  intro row hname howner hrow
  refine (handled_guard rfl).trans (imp_congr not_not ?_)
  obtain ⟨-, hpos⟩ := Database.keyAt_latest hkeys.sound hrow
  obtain ⟨associatedData, haad⟩ := exists_dataAad howner.1 hname (w.db.keyVersionsAt owner name).length
  -- the rest, once the latest version was found and opened
  have hrest : ∀ (plaintext material : Bytes), material.length = 32 →
      (Handled (do
        let associatedData ← Prog.done (dataAad owner name (w.db.keyVersionsAt owner name).length)
        let blob ← encryptAesGcm material plaintext associatedData nonce
        let ciphertext ← Prog.done (formatCiphertext name (w.db.keyVersionsAt owner name).length blob)
        return ⟨name, (w.db.keyVersionsAt owner name).length, ciphertext⟩ : Act EncryptResult) w ↔
          plaintext.length < 2 ^ 31 ∧ associatedData.length < 2 ^ 31) := by
    intro plaintext material hlen
    rw [haad]
    apply handled_encryptAesGcm_bind hlimits hlen
    intro blob w'
    have hpositive : ¬ ((w.db.keyVersionsAt owner name).length : ℤ) < 1 := by omega
    obtain ⟨t, ht⟩ : ∃ t, formatCiphertext name (w.db.keyVersionsAt owner name).length blob = .ok t := by
      simp only [formatCiphertext, hname, Bool.not_true, Bool.false_eq_true, ↓reduceIte, hpositive,
        intRepr_of_fits (hkeys.numbers owner name)]
      split_ifs <;> exact ⟨_, rfl⟩
    rw [ht]
    exact handled_pure _
  constructor
  · rintro h ⟨dek, versionRow, material, hdek, hselect, hopen, hlen⟩
    have hshort : ∀ plaintext, decodePayload plaintextB64 = .ok plaintext →
        plaintext.length < 2 ^ 31 ∧ associatedData.length < 2 ^ 31 := by
      intro plaintext hplaintext
      have hunlocked := handled_getDek_bind.mp h dek hdek
      have hdecoded := (handled_done_bind.mp hunlocked).2 plaintext hplaintext
      have hopened := (handled_latest_bind hrejects hkeys hrow).mp hdecoded dek versionRow material hdek hselect hopen
      exact (hrest plaintext material hlen).mp ((handled_guard rfl).mp hopened (not_not.mpr hlen))
    refine ⟨fun plaintext hplaintext => (hshort plaintext hplaintext).1, fun hok associatedData' haad' => ?_⟩
    obtain rfl := Except.ok.inj (haad.symm.trans haad')
    rcases hdecode : decodePayload plaintextB64 with e | plaintext
    · rw [hdecode] at hok
      cases hok
    · exact (hshort plaintext hdecode).2
  · intro h
    refine handled_getDek_bind.mpr fun dek hdek => handled_done_bind.mpr ⟨fun e he => decodePayload_isHandled he,
      fun plaintext hplaintext => (handled_latest_bind hrejects hkeys hrow).mpr
        fun dek' versionRow material hdek' hselect hopen => (handled_guard rfl).mpr fun hlen => ?_⟩
    rw [not_not] at hlen
    have hfits := h ⟨dek', versionRow, material, hdek', hselect, hopen, hlen⟩
    exact (hrest plaintext material hlen).mpr
      ⟨hfits.plaintext plaintext hplaintext, hfits.aad (by rw [hplaintext]; rfl) associatedData haad⟩

/-- **A decryption** asks that its key can be looked up. -/
theorem handled_decrypt_iff (hrejects : GcmRejects) (hkeys : KeysFit w.db) (hlog : LogKept w.db) {ciphertext : PyStr} :
    Handled (decrypt owner ciphertext) w ↔
      ∀ parsed, parseCiphertext ciphertext = .ok parsed → OnKey w owner parsed.keyName fun _ => True := by
  unfold decrypt
  rw [handled_done_bind, and_iff_right fun e he => by rw [parseCiphertext_eq_error he]; rfl]
  refine forall_congr' fun parsed => forall_congr' fun hparsed => ?_
  rw [handled_ownedKey_bind hkeys.sound hlog]
  refine onKey_congr fun row hname howner hrow => iff_of_true ?_ trivial
  refine (handled_guard rfl).mpr fun _ => handled_getDek_bind.mpr fun _ _ =>
    (handled_keyVersion_bind hkeys.sound (hkeys.ids row (Database.keyAt_mem hrow).1)).mpr ⟨parseCiphertext_fits hparsed, ?_⟩
  intro versionRow hselect
  refine (handled_unwrap_bind hrejects (selectKeyVersion_number hkeys hrow hselect)).mpr fun dek material _ _ => ?_
  refine (handled_mapExc_bind rfl fun e he => .inl ?_).mpr fun _ _ _ => handled_pure _
  -- what a ciphertext fails with is taken for tampering
  obtain h | ⟨associatedData, -, h⟩ := bind_eq_error he
  · unfold dataAad at h
    split at h
    · cases h
    · rw [← Except.error.inj h]
      rfl
  · exact hrejects.isTampering h

/-- The look at the algorithm raises what has a handler. -/
theorem handled_validateAlgorithm_bind {f : Unit → Act β} {signingAlgorithm : PyStr} :
    Handled (validateAlgorithm keyRow signingAlgorithm >>= f) w ↔
      (keyRow.signingAlgorithm = .str (Platform.upper signingAlgorithm) → Handled (f ()) w) := by
  by_cases h : keyRow.signingAlgorithm = .str (Platform.upper signingAlgorithm)
  · have hvalid : (validateAlgorithm keyRow signingAlgorithm).run w = (.ok (), w) :=
      run_validateAlgorithm_eq_ok.mpr ⟨h, rfl⟩
    rw [handled_bind_ok hvalid]
    exact ⟨fun hrest _ => hrest, fun hrest => hrest h⟩
  · have hinvalid : (validateAlgorithm keyRow signingAlgorithm).run w = (.error .invalidSigningAlgorithmError, w) := by
      unfold validateAlgorithm
      rw [if_pos (Ne.symm h)]
      rfl
    rw [handled_bind_error hinvalid]
    exact iff_of_true rfl fun h' => absurd h' h

/-- **A signature** asks that its key can be looked up. -/
theorem handled_sign_iff (hrejects : GcmRejects) (hkeys : KeysFit w.db) (hlog : LogKept w.db)
    {messageB64 messageType signingAlgorithm : PyStr} :
    Handled (sign owner name messageB64 messageType signingAlgorithm) w ↔ OnKey w owner name fun _ => True := by
  unfold sign
  rw [handled_ownedKey_bind hkeys.sound hlog]
  refine onKey_congr fun row hname howner hrow => iff_of_true ?_ trivial
  refine (handled_guard rfl).mpr fun _ => handled_validateAlgorithm_bind.mpr fun _ => handled_getDek_bind.mpr fun _ _ =>
    handled_done_bind.mpr ⟨fun e he => messageDigest_isHandled he, fun digest _ =>
      (handled_latest_bind hrejects hkeys hrow).mpr fun _ _ privateKey _ _ _ => (handled_guard rfl).mpr fun _ => ?_⟩
  have hrecord : (recordSigning ⟨privateKey, digest, Platform.ed25519Sign privateKey digest⟩).run w =
      (.ok (), { w with signed := w.signed ++ [⟨privateKey, digest, Platform.ed25519Sign privateKey digest⟩] }) := rfl
  exact (handled_bind_ok hrecord).mpr (handled_pure _)

/-- **A verification** asks, once it comes to the rows of its key, that the number of the version fits. -/
theorem handled_verify_iff (hkeys : KeysFit w.db) (hlog : LogKept w.db)
    {messageB64 messageType signatureB64 signingAlgorithm : PyStr} {version : Option ℤ} :
    Handled (verify owner name messageB64 messageType signatureB64 signingAlgorithm version) w ↔
      OnKey w owner name fun row => row.keyUsage = .str signVerify →
        row.signingAlgorithm = .str (Platform.upper signingAlgorithm) → w.dek ≠ none →
          (∃ digest, messageDigest messageB64 messageType = .ok digest) → ∀ v ∈ version, Fits v := by
  unfold verify
  rw [handled_ownedKey_bind hkeys.sound hlog]
  apply onKey_congr
  intro row hname howner hrow
  refine (handled_guard rfl).trans (imp_congr not_not (handled_validateAlgorithm_bind.trans (imp_congr Iff.rfl ?_)))
  have hid := hkeys.ids row (Database.keyAt_mem hrow).1
  -- the loop over rows whose numbers are integers
  have hrest : ∀ digest, Handled (do
      let rows ← candidates row version
      let matched ← Prog.done (matchedVersion rows signatureB64 digest)
      return ⟨name, matched, row.signingAlgorithm, matched.isSome⟩ : Act VerifyResult) w ↔ ∀ v ∈ version, Fits v := by
    intro digest
    rcases version with - | n
    · obtain ⟨matched, hmatched, -⟩ := matchedVersion_rows (fun _ _ hi => Database.keyVersionsAt_number hkeys.sound hi)
        signatureB64 digest
      rw [handled_bind_ok (run_candidates_none hkeys hrow), hmatched]
      exact iff_of_true (handled_pure _) (by simp)
    · unfold candidates
      rw [Prog.bind_assoc, handled_keyVersion_bind hkeys.sound hid]
      refine (and_iff_left fun versionRow hselect => ?_).trans (by simp)
      obtain ⟨matched, hmatched, -⟩ := matchedVersion_singleton (selectKeyVersion_number hkeys hrow hselect) signatureB64 digest
      rw [handled_bind_ok (Prog.run_pure [versionRow] w), hmatched]
      exact handled_pure _
  rw [← forall_unlocked_iff]
  refine handled_getDek_bind.trans (forall_congr' fun dek => forall_congr' fun hdek => ?_)
  constructor
  · rintro h ⟨digest, hdigest⟩
    exact (hrest digest).mp ((handled_done_bind.mp h).2 digest hdigest)
  · intro h
    exact handled_done_bind.mpr ⟨fun e he => messageDigest_isHandled he, fun digest hdigest =>
      (hrest digest).mpr (h ⟨digest, hdigest⟩)⟩

end Calls

end TransitService

end MiniVault
