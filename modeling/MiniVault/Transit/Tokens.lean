import MiniVault.Transit.Runs

/-!
# Tokens over a run

What becomes of the tokens `encrypt` returns while keys are rotated, revoked and made again.

## What is proved

* `token_survives` — a token decrypts to what was encrypted until its key is revoked, and
  the version it was made with is the one that was allocated last.
* `token_issued` — what decrypts was issued: to the same user, on the same key and version,
  and the key has not been revoked since. The cipher is ideal, and no two materials drawn
  in the run are the same.
-/

namespace MiniVault

open Foundations

section Tokens

variable [Platform]

/-! ### What survives -/

/-- The version a call says it allocated. -/
def recordVersion (latest : PyStr → PyStr → Option ℤ) : TransitEvent → PyStr → PyStr → Option ℤ
  | (.createKey o n _, .ok (.metadata m)) => fun u k => if u = o ∧ k = n then some m.latestVersion else latest u k
  | (.createSigningKey o n _ _, .ok (.metadata m)) => fun u k =>
    if u = o ∧ k = n then some m.latestVersion else latest u k
  | (.rotateKey o n _, .ok (.metadata m)) => fun u k => if u = o ∧ k = n then some m.latestVersion else latest u k
  | (.deleteKey o n, .ok _) => fun u k => if u = o ∧ k = n then none else latest u k
  | _ => latest

/-- The version that was allocated last, by the answers of the calls. -/
def allocated (t : TransitTrace) : PyStr → PyStr → Option ℤ := t.foldl recordVersion fun _ _ => none

omit [Platform] in
theorem allocated_append (t : TransitTrace) (e : TransitEvent) : allocated (t ++ [e]) = recordVersion (allocated t) e := by
  simp [allocated]

/-- The version that was allocated last is the number of materials. -/
theorem allocated_eq {t : TransitTrace} (h : Explained (fun before e => KeyGenuine (keyring before) e) t) (u k : PyStr) :
    allocated t u k = (keyring t u k).map fun key => (key.2.length : ℤ) := by
  induction t using List.reverseRecOn generalizing u k with
  | nil => rfl
  | append_singleton t e ih =>
    obtain ⟨hold, hgenuine⟩ := explained_append.mp h
    have ih := ih hold
    rw [allocated_append, keyring_append]
    rcases e with ⟨op, e | a⟩
    · cases op <;> exact ih u k
    · cases op with
      | createKey o n coins =>
        obtain ⟨-, -, m, rfl, hversion⟩ := hgenuine
        simp only [recordVersion, recordKey, Keyring.set]
        split_ifs
        · simp [hversion]
        · exact ih u k
      | createSigningKey o n algorithm coins =>
        obtain ⟨-, -, m, rfl, hversion⟩ := hgenuine
        simp only [recordVersion, recordKey, Keyring.set]
        split_ifs
        · simp [hversion]
        · exact ih u k
      | rotateKey o n coins =>
        obtain ⟨key, m, hK, rfl, hversion⟩ := hgenuine
        simp only [recordVersion, recordKey, Keyring.rotated, Keyring.set]
        split_ifs
        · simp [hK, hversion]
        · exact ih u k
      | deleteKey o n =>
        simp only [recordVersion, recordKey, Keyring.set]
        split_ifs
        · rfl
        · exact ih u k
      | listKeys | encrypt | decrypt | sign | verify | lock | unlock | restart | tick => exact ih u k

/-- A token decrypts while its material is among those of its key. -/
theorem KeysRefine.decrypts {passphrase : PyStr} {dek : Key} {t : TransitTrace} {w : World}
    (h : KeysRefine passphrase dek t w) (hunlocked : w.dek ≠ none) {K : Keyring} {owner name plaintextB64 : PyStr}
    (howner : Bindable owner) {r : EncryptResult} {s : Sealing} (hs : TransitService.Encrypted K owner name plaintextB64 r s)
    {materials more : List Key} (hK : K owner name = some (.aes, materials))
    (hnow : keyring t owner name = some (.aes, materials ++ more)) (hmax : r.keyVersion ≤ 999999999) :
    (TransitService.decrypt owner r.ciphertext).run w = (.ok ⟨name, r.keyVersion, encodeB64 s.plaintext⟩, w) := by
  obtain ⟨k, hk⟩ := Option.ne_none_iff_exists'.mp hunlocked
  obtain rfl := h.memory k hk
  obtain ⟨materials', material, hK', hlast, hversion, hkey⟩ := hs.key
  obtain rfl : materials = materials' := by
    rw [hK] at hK'
    exact (Prod.mk.inj (Option.some.inj hK')).2
  obtain ⟨-, hnonce, htag⟩ := hs.opens.lengths
  have hparsed := parse_format hs.ciphertext hmax hnonce htag
  have hname : keyNamePattern name := (tokenParts_format hs.ciphertext hmax).1
  -- the row of the key, and of the version
  obtain ⟨row, hrow⟩ : ∃ row, w.db.keyAt owner name = some row := by
    rw [← Option.ne_none_iff_exists', ne_eq, h.stores.keyAt_eq_none, hnow]
    simp
  obtain ⟨key, hkeyring, hold⟩ := h.stores.holdsKey hrow
  obtain rfl : (KeyKind.aes, materials ++ more) = key := Option.some.inj (hnow.symm.trans hkeyring)
  rw [List.getLast?_eq_getElem?] at hlast
  have hlt := (List.getElem?_eq_some_iff.mp hlast).1
  have hnumber : r.keyVersion = ((materials.length - 1 : ℕ) : ℤ) + 1 := by omega
  have hfits : Fits r.keyVersion := by
    have hall := h.stores.numbers owner name
    rw [h.stores.length_eq hrow hnow, List.length_append] at hall
    unfold Fits at hall ⊢
    omega
  rcases h.stores.selectKeyVersion hrow hnow (materials.length - 1) with ⟨v, m, hv, hm, -, hopen, -⟩ | ⟨-, hnone⟩
  · rw [List.getElem?_append_left hlt, hlast] at hm
    obtain rfl := Option.some.inj hm
    rw [← hnumber] at hv
    have hopens := hs.opens
    rw [hkey] at hopens
    exact TransitService.run_decrypt_eq_ok.mpr ⟨rfl, _, k, row, v, material, s.aad, s.plaintext, hparsed, hname, howner, hk,
      hrow, h.stores.sound.fetchable_keyAt _ hrow, hold.usage, h.stores.fits row (Database.keyAt_mem hrow).1, hfits, hv,
      h.stores.sound.versionCells v (List.mem_of_find?_eq_some hv), hopen, hs.aad, hopens, rfl⟩
  · rw [List.getElem?_eq_none_iff, List.length_append] at hnone
    omega

/-- **A token survives every rotation.** In a run that begins with an empty database and a
vault that has just been initialized, `encrypt` uses the version that was allocated last; and
until the key is revoked, in every state in which the vault is unlocked, the token it
returned decrypts to what was encrypted. -/
theorem token_survives (hgcm : GcmCorrect) (environ : PyStr → Option PyStr) (passphrase : PyStr)
    (coins : VaultService.InitCoins) (ops : List TransitOp) (owner name plaintextB64 : PyStr) (nonce : Nonce)
    (r : EncryptResult) (before after : TransitTrace) :
    let start := (VaultService.initializeVault passphrase coins).run (.fresh environ)
    let run := transitSession passphrase start.2 ops
    start.1.isOk → run.1 = before ++ (.encrypt owner name plaintextB64 nonce, .ok (.encrypted r)) :: after →
      allocated before owner name = some r.keyVersion ∧
        (r.keyVersion ≤ 999999999 → (∀ e ∈ after, ¬ Revokes owner name e) → run.2.dek ≠ none →
          ∃ plaintext, decodeB64 (.str plaintextB64) = .ok plaintext ∧
            (TransitService.decrypt owner r.ciphertext).run run.2 =
              (.ok ⟨name, r.keyVersion, encodeB64 plaintext⟩, run.2)) := by
  intro start run hinit hrun
  obtain ⟨hstart, hnothing⟩ := KeysRefine.start hgcm hinit
  obtain ⟨hrefines, hrecorded⟩ := hstart.session hgcm hnothing ops
  change KeysRefine passphrase coins.dek run.1 run.2 at hrefines
  have hexplained : Explained (fun before e => KeyGenuine (keyring before) e) run.1 := hrecorded.genuine
  obtain ⟨r', s, hr', hs⟩ := hexplained _ _ _ hrun
  obtain rfl : r = r' := TransitAnswer.encrypted.inj hr'
  obtain ⟨materials, material, hK, -, hversion, -⟩ := hs.key
  rw [hrun] at hexplained
  refine ⟨?_, fun hmax hkeep hunlocked => ⟨s.plaintext, hs.plaintext, ?_⟩⟩
  · rw [allocated_eq hexplained.left, hK, hversion]
    rfl
  · obtain ⟨more, hmore⟩ := keyring_extends _ (_ :: after) hexplained hK (by
      intro e he
      rcases List.mem_cons.mp he with rfl | he
      · rintro ⟨a, ha⟩
        cases ha
      · exact hkeep e he)
    have hnameable := keyring_nameable hexplained (by rw [hmore]; simp)
    rw [← hrun] at hmore
    exact hrefines.decrypts hunlocked hnameable.2 hs hK hmore hmax

/-! ### What is accepted -/

/-- **What decrypts was issued.** In a run that begins with an empty database and a vault that
has just been initialized, with an ideal cipher and materials that are all different, a token
decrypts for a user only if its blob came out of an encryption of the plaintext by the user,
on the key and version it names, and the key was not revoked since. -/
theorem token_issued (hgcm : GcmCorrect) (environ : PyStr → Option PyStr) (passphrase : PyStr)
    (coins : VaultService.InitCoins) (ops : List TransitOp) (owner token : PyStr) (r : DecryptResult) :
    let start := (VaultService.initializeVault passphrase coins).run (.fresh environ)
    let run := transitSession passphrase start.2 ops
    start.1.isOk → Fresh ops →
      (∀ parsed, parseCiphertext token = .ok parsed → ∀ material ∈ ops.filterMap TransitOp.drawn, ∀ associatedData,
        OpensOnly run.2 material associatedData parsed.blob) →
      ((TransitService.decrypt owner token).run run.2).1 = .ok r →
        ∃ parsed plaintext before plaintextB64 nonce issued after, parseCiphertext token = .ok parsed ∧
          r = ⟨parsed.keyName, parsed.keyVersion, encodeB64 plaintext⟩ ∧
            run.1 = before ++ (.encrypt owner r.keyName plaintextB64 nonce, .ok (.encrypted issued)) :: after ∧
              issued.keyVersion = r.keyVersion ∧
                formatCiphertext r.keyName r.keyVersion parsed.blob = .ok issued.ciphertext ∧
                  decodeB64 (.str plaintextB64) = .ok plaintext ∧ ∀ e ∈ after, ¬ Revokes owner r.keyName e := by
  intro start run hinit hfresh hideal hdecrypt
  obtain ⟨hstart, hnothing⟩ := KeysRefine.start hgcm hinit
  obtain ⟨hrefines, hrecorded⟩ := hstart.session hgcm hnothing ops
  change KeysRefine passphrase coins.dek run.1 run.2 at hrefines
  change Recorded run.1 run.2 at hrecorded
  have hops : run.1.map Prod.fst = ops := Prog.session_map_fst _ _ _
  obtain ⟨-, parsed, dek, keyRow, row, material, associatedData, plaintext, hparsed, hname, howner, hdek, hrow, -, husage,
    hid, hfits, hselect, -, hopen, haad, hopens, rfl⟩ := TransitService.run_decrypt_eq_ok.mp (Prod.ext hdecrypt rfl)
  obtain rfl := hrefines.memory dek hdek
  -- the material is one of the key's, so it was drawn in the run
  obtain ⟨⟨kind, materials⟩, hK, hold⟩ := hrefines.stores.holdsKey hrow
  obtain ⟨i, m, hversion, hm, -, hopen', -⟩ := hrefines.stores.opened hrow hK hselect
  obtain rfl : material = m := Except.ok.inj (hopen.symm.trans hopen')
  have hdrawn : m ∈ ops.filterMap TransitOp.drawn := by
    have hall := keyring_drawn [] hK (.inl rfl)
    rw [← hops]
    exact (drawnFor_sublist _ _ _).subset (hall.subset (List.mem_of_getElem? hm))
  -- what opens under it came from a call of `encrypt`, for the same owner, name and version
  have hsealed := hideal parsed hparsed m hdrawn associatedData plaintext hopens
  rcases hrecorded.sealed _ hsealed with (hwrap | ⟨_, _, _, _, _, hwrap⟩) | ⟨before, e, after, hrun, hby⟩
  · exact absurd hwrap (TransitService.dataAad_ne_dekWrapAad haad)
  · exact absurd rfl (TransitService.dataAad_ne_keyAad haad hwrap)
  · rcases e with ⟨op, e | a⟩
    · cases op <;> cases hby
    cases op with
    | encrypt u k p nonce =>
      cases a with
      | encrypted issued =>
        obtain ⟨⟨materials', material, hK', hlast, hversion', hkey⟩, -, haad', hplain, -, hformat⟩ := hby
        have hk : keyNamePattern k := keyName_of_format hformat
        obtain ⟨rfl, rfl, hv⟩ := TransitService.dataAad_inj hk hname haad' haad
        obtain rfl : m = material := Subtype.ext hkey
        have hexplained := hrecorded.genuine
        rw [hrun] at hK hops hexplained
        rw [← hops] at hfresh
        obtain ⟨-, -, -, -, hkeep⟩ := hfresh.latest hexplained hK' hlast hK hm
        exact ⟨parsed, plaintext, before, p, nonce, issued, after, hparsed, rfl, hrun, hv, hv ▸ hformat, hplain,
          fun e he => hkeep e (List.mem_cons_of_mem _ he)⟩
      | _ => cases hby
    | _ => cases hby

end Tokens

/-! ### A run on the sample platform -/

section Sample

attribute [local instance] samplePlatform

/-- A name of a key that looks like a version. -/
def sampleKeyName : PyStr := py "v2"

/-- What a version of a sample key draws. -/
def sampleKeyCoins (b : UInt8) : KeyCoins := ⟨sampleKey b, sampleNonce b⟩

/-- A sample payload. -/
def samplePayload : PyStr := encodeB64 [104, 105]

/-- What comes before the encryption in the sample run. -/
def sampleBefore : List TransitOp := [.unlock, .createKey sampleOwner sampleKeyName (sampleKeyCoins 11)]

/-- The encryption. -/
def sampleEncryption : TransitOp := .encrypt sampleOwner sampleKeyName samplePayload (sampleNonce 12)

/-- What comes after it: a rotation and a restart. -/
def sampleAfter : List TransitOp := [.rotateKey sampleOwner sampleKeyName (sampleKeyCoins 13), .restart, .unlock]

/-- The sample run. -/
def sampleTransit : TransitTrace × World :=
  transitSession samplePassphrase sampleStart.2 (sampleBefore ++ sampleEncryption :: sampleAfter)

/-- The part before the encryption. -/
def sampleTransitBefore : TransitTrace × World := transitSession samplePassphrase sampleStart.2 sampleBefore

/-- What the encryption returns. -/
def sampleIssued : EncryptResult :=
  match ((sampleEncryption.exec samplePassphrase).run sampleTransitBefore.2).1 with
  | .ok (.encrypted r) => r
  | _ => ⟨[], 0, []⟩

attribute [local irreducible] Prog.session

/-- The sample run is cut at the encryption. -/
theorem sampleTransit_eq : ∃ after, after.map Prod.fst = sampleAfter ∧
    sampleTransit.1 = sampleTransitBefore.1 ++ (sampleEncryption, .ok (.encrypted sampleIssued)) :: after := by
  obtain ⟨after, hafter, hcut⟩ := Prog.session_cut (TransitOp.exec samplePassphrase) sampleStart.2 sampleBefore
    sampleEncryption sampleAfter
  have hissued : ((sampleEncryption.exec samplePassphrase).run
      (Prog.session (TransitOp.exec samplePassphrase) sampleStart.2 sampleBefore).2).1 =
        .ok (.encrypted sampleIssued) := by decide +kernel
  rw [hissued] at hcut
  exact ⟨after, hafter, hcut⟩

/-- No key is revoked after the encryption. -/
theorem sampleAfter_keeps {after : TransitTrace} (h : after.map Prod.fst = sampleAfter) (u k : PyStr) :
    ∀ e ∈ after, ¬ Revokes u k e := by
  rintro e he ⟨a, rfl⟩
  have hop : TransitOp.deleteKey u k ∈ sampleAfter := by
    rw [← h]
    exact List.mem_map_of_mem (f := Prod.fst) he
  simp [sampleAfter] at hop

/-- The token is decrypted after the rotation on the sample platform. -/
theorem token_survives_sample : ∃ plaintext, decodeB64 (.str samplePayload) = .ok plaintext ∧
    (TransitService.decrypt sampleOwner sampleIssued.ciphertext).run sampleTransit.2 =
      (.ok ⟨sampleKeyName, sampleIssued.keyVersion, encodeB64 plaintext⟩, sampleTransit.2) := by
  obtain ⟨after, hafter, hrun⟩ := sampleTransit_eq
  exact (token_survives samplePlatform_gcmCorrect (fun _ => none) samplePassphrase sampleCoins
    (sampleBefore ++ sampleEncryption :: sampleAfter) sampleOwner sampleKeyName samplePayload (sampleNonce 12) sampleIssued
    sampleTransitBefore.1 after (by decide +kernel) hrun).2 (by decide +kernel) (sampleAfter_keeps hafter _ _)
    (by decide +kernel)

/-- What the token is parsed to. -/
def sampleParsed : TransitCiphertext :=
  ⟨sampleKeyName, 1, .split (sampleNonce 12) (sampleEncrypt (sampleKey 11) (sampleNonce 12) [104, 105]
    ((TransitService.dataAad sampleOwner sampleKeyName 1).toOption.getD []))⟩

/-- What is decrypted after the rotation was issued, on the sample platform. -/
theorem token_issued_sample : ∃ parsed plaintext before plaintextB64 nonce issued after,
    parseCiphertext sampleIssued.ciphertext = .ok parsed ∧
      (⟨sampleKeyName, 1, encodeB64 [104, 105]⟩ : DecryptResult) =
        ⟨parsed.keyName, parsed.keyVersion, encodeB64 plaintext⟩ ∧
      sampleTransit.1 = before ++ (.encrypt sampleOwner sampleKeyName plaintextB64 nonce, .ok (.encrypted issued)) :: after ∧
        issued.keyVersion = 1 ∧ formatCiphertext sampleKeyName 1 parsed.blob = .ok issued.ciphertext ∧
          decodeB64 (.str plaintextB64) = .ok plaintext ∧ ∀ e ∈ after, ¬ Revokes sampleOwner sampleKeyName e := by
  refine token_issued samplePlatform_gcmCorrect (fun _ => none) samplePassphrase sampleCoins
    (sampleBefore ++ sampleEncryption :: sampleAfter) sampleOwner sampleIssued.ciphertext
    ⟨sampleKeyName, 1, encodeB64 [104, 105]⟩ (by decide +kernel) (by decide +kernel) ?_ (by decide +kernel)
  intro parsed hparsed material _ associatedData
  have hsample : parseCiphertext sampleIssued.ciphertext = .ok sampleParsed := by decide +kernel
  obtain rfl : sampleParsed = parsed := Except.ok.inj (hsample.symm.trans hparsed)
  refine samplePlatform_opensOnly (sampleKey 11) [104, 105]
    ((TransitService.dataAad sampleOwner sampleKeyName 1).toOption.getD []) ?_ material associatedData
  have hsealed : ⟨(sampleKey 11).1, (TransitService.dataAad sampleOwner sampleKeyName 1).toOption.getD [], [104, 105],
      sampleParsed.blob⟩ ∈ sampleTransit.2.sealed := by decide +kernel
  exact hsealed

end Sample

end MiniVault
