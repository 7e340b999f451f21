import MiniVault.Transit.Signatures

/-!
# Edited key tables

What `verify` still means where somebody writes to `named_keys` and `named_key_versions`
without the key of the vault. `sign` unwraps the private key it uses, so it uses no other
than one made for the owner and the name; `verify` takes the public key from the row as it
stands.

## The model

Between the operations of a run any tables may be put in the place of the two (`edit`). The
cipher and the signatures are ideal (`IdealStep`) where an operation opens or verifies.

## What is proved

* `exec_seals` — whatever the tables are, an operation encrypts payloads, and materials for
  the owner and the name it is called with.
* `verify_authentic` — in a run in which every `verify` finds, among the public keys of its
  key, only such as were made for the key, and every `sign` finds an algorithm without a
  colon, `verify` reports as valid only signatures that calls of `sign` on the key returned,
  on the digest.
* `verify_forged_sample` — where a public key is overwritten, it reports another's.
-/

namespace MiniVault

open Foundations

section Tampering

variable [Platform]

/-! ### Runs with edits -/

/-- A step of a run: an operation, or an edit of the key tables. -/
inductive KeyStep where
  /-- An operation. -/
  | op (o : TransitOp)
  /-- Other tables are put in the place of `named_keys` and `named_key_versions`. -/
  | edit (keys : Table NamedKey) (versions : Table NamedKeyVersion)

/-- Edit the key tables. -/
def Database.withKeys (db : Database) (keys : Table NamedKey) (versions : Table NamedKeyVersion) : Database :=
  { db with namedKeys := keys, namedKeyVersions := versions }

/-- The program of a step. -/
def KeyStep.exec (passphrase : PyStr) : KeyStep → Act TransitAnswer
  | .op o => o.exec passphrase
  | .edit keys versions => do
    Prog.change .statement fun w => { w with db := w.db.withKeys keys versions }
    return .nothing

/-- The steps of a run with their answers. -/
abbrev KeyStepTrace := List (KeyStep × Except Exc TransitAnswer)

/-- A run. -/
def keyStepSession (passphrase : PyStr) : World → List KeyStep → KeyStepTrace × World :=
  Prog.session (KeyStep.exec passphrase)

/-- The material a step draws for a key. -/
def KeyStep.drawnFor (owner name : PyStr) : KeyStep → Option Key
  | .op o => o.drawnFor owner name
  | .edit _ _ => none

/-- The operation of a step. -/
def KeyStep.op? : KeyStep → Option TransitOp
  | .op o => some o
  | .edit _ _ => none

/-! ### What is encrypted and signed -/

/-- What an operation encrypts: a payload, or the material it draws for a key. -/
def SealedByOp (op : TransitOp) (s : Sealing) : Prop :=
  (∃ u k v, TransitService.dataAad u k v = .ok s.aad) ∨
    ∃ u k kind m, op.drawnFor u k = some m ∧ keyNamePattern k ∧ TransitService.Wrapping u k kind m s

theorem TransitService.encrypt_seals (owner name plaintextB64 : PyStr) (nonce : Nonce) :
    Seals (fun s => ∃ u k v, dataAad u k v = .ok s.aad) (encrypt owner name plaintextB64 nonce) := by
  unfold encrypt
  exact .bind ((ownedKey_keeps _ _).aside fun _ => rfl).seals fun keyRow => .ite (fun _ => .throw _) fun _ =>
    .bind Keeps.getDek.seals fun _ => .bind (.done _) fun plaintext => .bind (.done _) fun version =>
      .bind (keyVersion_keeps _ _).seals fun row =>
        .bind (unwrap_keeps (f := World.sealed) _ _).seals fun material => .ite (fun _ => .throw _) fun _ =>
          .bind_done fun associatedData haad => .bind (encryptAesGcm_seals fun _ _ _ => ⟨_, _, _, haad⟩) fun _ =>
            .bind (.done _) fun _ => .pure _

/-- **What an operation encrypts**, whatever the tables are. -/
theorem TransitOp.exec_seals (passphrase : PyStr) (op : TransitOp) : Seals (SealedByOp op) (op.exec passphrase) := by
  have hanswer : ∀ {α : Type} {P : Sealing → Prop} {p : Act α} (f : α → TransitAnswer), Seals P p →
      Seals P (p >>= fun a => pure (f a)) := fun f hp => .bind hp fun _ => .pure _
  cases op with
  | createKey owner name coins =>
    apply hanswer _
    by_cases hname : keyNamePattern name
    · exact (TransitService.createKey_seals owner name coins).mono fun s hs =>
        .inr ⟨owner, name, _, _, if_pos ⟨rfl, rfl⟩, hname, hs⟩
    · rw [(TransitService.refused_of_not_keyName hname []).1]
      exact .throw _
  | createSigningKey owner name algorithm coins =>
    apply hanswer _
    by_cases hname : keyNamePattern name
    · exact (TransitService.createSigningKey_seals owner name algorithm coins).mono fun s hs =>
        .inr ⟨owner, name, _, _, if_pos ⟨rfl, rfl⟩, hname, hs⟩
    · rw [(TransitService.refused_of_not_keyName hname algorithm).2.1]
      exact .throw _
  | rotateKey owner name coins =>
    apply hanswer _
    by_cases hname : keyNamePattern name
    · exact (TransitService.rotateKey_seals owner name coins).mono fun s ⟨kind, hs⟩ =>
        .inr ⟨owner, name, kind, _, if_pos ⟨rfl, rfl⟩, hname, hs⟩
    · rw [(TransitService.refused_of_not_keyName hname []).2.2]
      exact .throw _
  | deleteKey owner name => exact hanswer _ (TransitService.deleteKey_keepsSealed owner name).seals
  | listKeys owner => exact hanswer _ (TransitService.listKeys_keeps owner).seals
  | encrypt owner name plaintext nonce =>
    exact hanswer _ ((TransitService.encrypt_seals owner name plaintext nonce).mono fun s hs => .inl hs)
  | decrypt owner ciphertext => exact hanswer _ ((TransitService.decrypt_keeps owner ciphertext).aside fun _ => rfl).seals
  | sign owner name message type algorithm =>
    exact hanswer _ (TransitService.sign_keeps (f := World.sealed) owner name message type algorithm (fun _ => rfl)
      fun _ _ => rfl).seals
  | verify owner name message type signature algorithm version =>
    exact hanswer _ ((TransitService.verify_keeps owner name message type signature algorithm version).aside
      fun _ => rfl).seals
  | lock => exact hanswer _ (Keeps.seals (.bind (.change fun _ => rfl) fun _ => VaultService.status_keeps))
  | unlock => exact hanswer _ (VaultService.unlock_keeps fun _ _ => rfl).seals
  | restart => exact .bind (Keeps.seals (.change fun _ => rfl)) fun _ => .pure _
  | tick time => exact .bind (Keeps.seals (.change fun _ => rfl)) fun _ => .pure _

/-- The operation is one of the vault's. -/
def TransitOp.isVault : TransitOp → Bool
  | .lock | .unlock | .restart => true
  | _ => false

/-- The operation is a signature. -/
def TransitOp.isSign : TransitOp → Bool
  | .sign _ _ _ _ _ => true
  | _ => false

/-- **What an operation leaves alone**: all but the database, the clock, the record of what
was encrypted, and, where it is a signature or one of the vault's, the record of what was
signed and what is in memory. -/
theorem TransitOp.exec_keeps {γ : Type} {f : World → γ} (passphrase : PyStr) (op : TransitOp)
    (hstores : ∀ (w : World) db sealed, f { w with db := db, sealed := sealed } = f w)
    (hclock : ∀ (w : World) time, f { w with clock := time } = f w)
    (hsigned : op.isSign → ∀ (w : World) signed, f { w with signed := signed } = f w)
    (hmemory : op.isVault → ∀ (w : World) dek dummyHash, f { w with dek := dek, dummyHash := dummyHash } = f w) :
    Keeps f (op.exec passphrase) := by
  have hanswer : ∀ {α : Type} {p : Act α} (g : α → TransitAnswer), Keeps f p → Keeps f (p >>= fun a => pure (g a)) :=
    fun g hp => .bind hp fun _ => .pure _
  have hlog : ∀ w : World, f w = f w.besideLog := fun w => (hstores w _ w.sealed).symm
  have hbeside : ∀ {w w' : World}, w'.besideStores = w.besideStores → f w' = f w := by
    intro w w' h
    rw [← hstores w .fresh [], ← hstores w' .fresh []]
    exact congrArg f h
  cases op with
  | createKey owner name coins => exact hanswer _ ((TransitService.createKey_keeps owner name coins).weaken hbeside)
  | createSigningKey owner name algorithm coins =>
    exact hanswer _ ((TransitService.createSigningKey_keeps owner name algorithm coins).weaken hbeside)
  | rotateKey owner name coins => exact hanswer _ ((TransitService.rotateKey_keeps owner name coins).weaken hbeside)
  | deleteKey owner name => exact hanswer _ ((TransitService.deleteKey_keeps owner name).weaken hbeside)
  | listKeys owner => exact hanswer _ (TransitService.listKeys_keeps owner)
  | encrypt owner name plaintext nonce =>
    exact hanswer _ (TransitService.encrypt_keeps owner name plaintext nonce hlog fun w sealed => hstores w w.db sealed)
  | decrypt owner ciphertext => exact hanswer _ ((TransitService.decrypt_keeps owner ciphertext).aside hlog)
  | sign owner name message type algorithm =>
    exact hanswer _ (TransitService.sign_keeps owner name message type algorithm hlog (hsigned rfl))
  | verify owner name message type signature algorithm version =>
    exact hanswer _ ((TransitService.verify_keeps owner name message type signature algorithm version).aside hlog)
  | lock => exact hanswer _ (.bind (.change fun w => hmemory rfl w none w.dummyHash) fun _ => VaultService.status_keeps)
  | unlock => exact hanswer _ (VaultService.unlock_keeps fun w dek => hmemory rfl w dek w.dummyHash)
  | restart => exact .bind (.change fun w => hmemory rfl w none none) fun _ => .pure _
  | tick time => exact .bind (.change fun w => hclock w time) fun _ => .pure _

/-- An operation leaves the configuration, and no other key in memory. -/
theorem TransitOp.exec_vault {passphrase : PyStr} {dek : Key} {w : World} (hconfig : Unlocks passphrase dek w.config)
    (hmem : ∀ k ∈ w.dek, k = dek) (op : TransitOp) :
    Unlocks passphrase dek ((op.exec passphrase).run w).2.config ∧ ∀ k ∈ ((op.exec passphrase).run w).2.dek, k = dek := by
  by_cases hvault : op.isVault
  · cases op with
    | lock =>
      simp only [TransitOp.exec, run_answer, VaultService.run_lock]
      exact ⟨hconfig, by simp⟩
    | unlock =>
      obtain ⟨salt, parameters, wrappingKey, wrapped, hconf, hderive, hopens⟩ := hconfig
      simp only [TransitOp.exec, run_answer, VaultService.run_unlock_configOf hconf hderive hopens]
      exact ⟨⟨salt, parameters, wrappingKey, wrapped, hconf, hderive, hopens⟩, by simp⟩
    | restart =>
      simp only [TransitOp.exec, VaultService.run_restart, Prog.run_bind, Prog.run_pure]
      exact ⟨hconfig, by simp⟩
    | _ => cases hvault
  · have hpart := (TransitOp.exec_keeps (f := World.vaultPart) passphrase op (fun _ _ _ => rfl) (fun _ _ => rfl)
      (fun _ _ _ => rfl) fun h => absurd h hvault).run w
    obtain ⟨hdek, hconf⟩ := Prod.mk.inj hpart
    rw [hdek, hconf]
    exact ⟨hconfig, hmem⟩

/-! ### What is assumed, and when the code is right -/

/-- The material was drawn for the key, by a step of the run. -/
def DrawnFor (t : KeyStepTrace) (owner name : PyStr) (m : Key) : Prop := ∃ e ∈ t, e.1.drawnFor owner name = some m

/-- The ideal cipher and the ideal signatures, where a step depends on them: a version row that
`sign` unwraps opens only to what was encrypted, and a signature given to `verify` verifies
under the public half of a material drawn in the run only if it was made with it. -/
def IdealStep (t : KeyStepTrace) (w : World) : KeyStep → Prop
  | .op (.sign _ _ _ _ _) => ∀ row ∈ w.db.namedKeyVersions.rows, ∀ blob, TransitService.blobOf row = .ok blob →
    ∀ k ∈ w.dek, ∀ associatedData, OpensOnly w k.1 associatedData blob
  | .op (.verify _ _ messageB64 messageType signatureB64 _ _) => ∀ digest signature,
    TransitService.messageDigest messageB64 messageType = .ok digest → decodeB64 (.str signatureB64) = .ok signature →
      ∀ owner name m, DrawnFor t owner name m →
        Platform.ed25519Verify (Platform.ed25519Public m) signature digest → ⟨m, digest, signature⟩ ∈ w.signed
  | _ => True

/-- The tables a step finds: `sign` an algorithm without a colon, and `verify` no public key in
the rows of its key but of materials drawn for it. -/
def SoundStep (t : KeyStepTrace) (w : World) : KeyStep → Prop
  | .op (.sign owner name _ _ _) => ∀ r ∈ w.db.keyAt owner name,
    PyChar.scalar ':' ∉ TransitService.algorithmText r.signingAlgorithm
  | .op (.verify owner name _ _ _ _ _) => ∀ r ∈ w.db.keyAt owner name, ∀ row ∈ w.db.namedKeyVersions.rows,
    row.keyId.sqlEq (.int r.id) → ∀ publicKey, decodeB64 row.publicKeyB64 = .ok publicKey → publicKey.length = 32 →
      ∃ m, DrawnFor t owner name m ∧ publicKey = Platform.ed25519Public m
  | _ => True

/-- The signature was made by a call of `sign` on the key, on the digest of the message. -/
def SignedOn (t : KeyStepTrace) (owner name messageB64 messageType signatureB64 : PyStr) : Prop :=
  ∃ messageB64' messageType' algorithm r digest signature,
    (KeyStep.op (.sign owner name messageB64' messageType' algorithm), Except.ok (TransitAnswer.signed r)) ∈ t ∧
      TransitService.messageDigest messageB64 messageType = .ok digest ∧
        TransitService.messageDigest messageB64' messageType' = .ok digest ∧
          decodeB64 (.str signatureB64) = .ok signature ∧ decodeB64 (.str r.signatureB64) = .ok signature

/-- A signature that is reported as valid was made by a call of `sign`. -/
def VerifiedAuthentic (t : KeyStepTrace) : KeyStep × Except Exc TransitAnswer → Prop
  | (.op (.verify owner name messageB64 messageType signatureB64 _ _), .ok (.verified r)) =>
    r.signatureValid = true → SignedOn t owner name messageB64 messageType signatureB64
  | _ => True

/-- A signature on record was made by a call of `sign`, with a material drawn for its key. -/
def SignedFor (t : KeyStepTrace) (s : Signing) : Prop :=
  ∃ owner name messageB64 messageType algorithm r m,
    (KeyStep.op (.sign owner name messageB64 messageType algorithm), Except.ok (TransitAnswer.signed r)) ∈ t ∧
      TransitService.messageDigest messageB64 messageType = .ok s.digest ∧
        decodeB64 (.str r.signatureB64) = .ok s.signature ∧ DrawnFor t owner name m ∧ s.privateKey = m

/-- **What holds in every state**, whatever the tables are. -/
structure Authentic (passphrase : PyStr) (dek : Key) (t : KeyStepTrace) (w : World) : Prop where
  /-- The configuration wraps the key under the passphrase. -/
  config : Unlocks passphrase dek w.config
  /-- There is no other key in memory. -/
  memory : ∀ k ∈ w.dek, k = dek
  /-- What was encrypted, was encrypted by an operation. -/
  sealed : ∀ s ∈ w.sealed, s.aad = VaultService.dekWrapAad ∨ ∃ op r, (KeyStep.op op, r) ∈ t ∧ SealedByOp op s
  /-- What was signed, was signed by a call. -/
  signed : ∀ s ∈ w.signed, SignedFor t s
  /-- What was reported as valid, was signed by a call. -/
  verified : Explained VerifiedAuthentic t

section Steps

variable {passphrase : PyStr} {dek : Key} {t : KeyStepTrace} {w : World}

/-- What was signed, was signed earlier in a longer run. -/
theorem SignedFor.append {s : Signing} (h : SignedFor t s) (e : KeyStep × Except Exc TransitAnswer) :
    SignedFor (t ++ [e]) s := by
  obtain ⟨owner, name, message, type, algorithm, r, m, hmem, hdigest, hsignature, ⟨e', he', hdrawn⟩, hkey⟩ := h
  exact ⟨owner, name, message, type, algorithm, r, m, List.mem_append_left _ hmem, hdigest, hsignature,
    ⟨e', List.mem_append_left _ he', hdrawn⟩, hkey⟩

/-- An operation that signs nothing keeps the state, if what it reports as valid is. -/
theorem Authentic.keep (h : Authentic passphrase dek t w) (op : TransitOp) (hsign : op.isSign = false)
    (hverified : VerifiedAuthentic t (.op op, ((op.exec passphrase).run w).1)) :
    Authentic passphrase dek (t ++ [(.op op, ((op.exec passphrase).run w).1)]) ((op.exec passphrase).run w).2 := by
  obtain ⟨hconfig, hmem⟩ := op.exec_vault h.config h.memory
  have hsigned := (op.exec_keeps (f := World.signed) passphrase (fun _ _ _ => rfl) (fun _ _ => rfl)
    (fun hop => absurd hop (by simp [hsign])) fun _ _ _ _ => rfl).run w
  refine ⟨hconfig, hmem, fun s hs => ?_, fun s hs => (h.signed s (hsigned ▸ hs)).append _,
    explained_append.mpr ⟨h.verified, hverified⟩⟩
  rcases (op.exec_seals passphrase).mem hs with hs | hs
  · exact (h.sealed s hs).imp id fun ⟨op', r, hmem', hby⟩ => ⟨op', r, List.mem_append_left _ hmem', hby⟩
  · exact .inr ⟨op, _, List.mem_append_right _ (List.mem_singleton_self _), hs⟩

/-- **The private key `sign` uses was made for its owner and name**: where the algorithm has no
colon, an ideal cipher opens no other row under what the key says of it. -/
theorem Authentic.drawnFor (h : Authentic passphrase dek t w) {owner name : PyStr} {r : NamedKey} {row : NamedKeyVersion}
    {privateKey : Bytes} (hname : keyNamePattern name) (hr : w.db.keyAt owner name = some r)
    (husage : r.keyUsage = .str signVerify) (halg : PyChar.scalar ':' ∉ TransitService.algorithmText r.signingAlgorithm)
    (hideal : ∀ blob, TransitService.blobOf row = .ok blob → ∀ associatedData, OpensOnly w dek.1 associatedData blob)
    (hopen : TransitService.openVersion dek r row = .ok privateKey) : ∃ m, DrawnFor t owner name m ∧ privateKey = m := by
  obtain ⟨blob, version, associatedData, hblob, -, haad, hopens⟩ := TransitService.openVersion_eq_ok.mp hopen
  obtain ⟨-, howner, hkeyName⟩ := Database.keyAt_mem hr
  rw [howner, hkeyName, husage] at haad
  rcases h.sealed _ (hideal blob hblob associatedData privateKey hopens) with hdek | ⟨op, result, hmem, hby⟩
  · exact absurd hdek (TransitService.keyAad_ne_dekWrapAad haad)
  · rcases hby with ⟨u, k, v, hdata⟩ | ⟨u, k, kind, m, hdrawn, hk, hplain, v, hwrap⟩
    · exact absurd rfl (TransitService.dataAad_ne_keyAad hdata haad)
    · obtain ⟨hkindUsage, hkindAlg⟩ := TransitService.colon_notMem_kind kind
      obtain ⟨rfl, rfl, -⟩ := TransitService.keyAad_inj hname hk (by decide) hkindUsage halg hkindAlg haad hwrap
      exact ⟨m, ⟨_, hmem, hdrawn⟩, hplain⟩

/-- `sign` keeps the state. -/
theorem Authentic.sign (h : Authentic passphrase dek t w) {owner name messageB64 messageType algorithm : PyStr}
    (hideal : IdealStep t w (.op (.sign owner name messageB64 messageType algorithm)))
    (hsound : SoundStep t w (.op (.sign owner name messageB64 messageType algorithm))) :
    let run := ((TransitOp.sign owner name messageB64 messageType algorithm).exec passphrase).run w
    Authentic passphrase dek (t ++ [(.op (.sign owner name messageB64 messageType algorithm), run.1)]) run.2 := by
  intro run
  obtain ⟨hconfig, hmem⟩ := (TransitOp.sign owner name messageB64 messageType algorithm).exec_vault h.config h.memory
  refine ⟨hconfig, hmem, fun s hs => ?_, fun s hs => ?_, explained_append.mpr ⟨h.verified, trivial⟩⟩
  · rcases ((TransitOp.sign owner name messageB64 messageType algorithm).exec_seals passphrase).mem hs with hs | hs
    · exact (h.sealed s hs).imp id fun ⟨op', r, hmem', hby⟩ => ⟨op', r, List.mem_append_left _ hmem', hby⟩
    · exact .inr ⟨_, _, List.mem_append_right _ (List.mem_singleton_self _), hs⟩
  · rcases hrun : (TransitService.sign owner name messageB64 messageType algorithm).run w with ⟨e | r, w'⟩
    · have hfail := TransitService.sign_failKeeps _ _ _ _ _ w e w' hrun
      have hrun' : run = (.error e, w') := by simp only [run, TransitOp.exec, run_answer, hrun]
      rw [hrun'] at hs ⊢
      exact (h.signed s (hfail ▸ hs)).append _
    · obtain ⟨hname, -, k, keyRow, row, privateKey, digest, hk, hrow, husage, -, hdigest, -, -, -, hselect, hopen, -, -, -,
        hsignature, rfl⟩ := TransitService.run_sign_eq_ok hrun
      have hrun' : run = (.ok (.signed r),
          { w with signed := w.signed ++ [⟨privateKey, digest, Platform.ed25519Sign privateKey digest⟩] }) := by
        simp only [run, TransitOp.exec, run_answer, hrun]
      rw [hrun'] at hs ⊢
      rcases List.mem_append.mp hs with hs | hs
      · exact (h.signed s hs).append _
      · obtain rfl := List.mem_singleton.mp hs
        obtain rfl := h.memory k hk
        obtain ⟨m, ⟨e, he, hdrawn⟩, rfl⟩ := h.drawnFor hname hrow husage (hsound keyRow hrow)
          (fun blob hblob => hideal row (List.mem_of_find?_eq_some hselect) blob hblob k hk) hopen
        exact ⟨owner, name, messageB64, messageType, algorithm, r, m, by simp, hdigest,
          by rw [hsignature, decodeB64_encodeB64], ⟨e, List.mem_append_left _ he, hdrawn⟩, rfl⟩

/-- `verify` keeps the state: what it reports as valid was signed by a call. -/
theorem Authentic.verify (h : Authentic passphrase dek t w)
    (hfresh : ∀ owner name owner' name' m, DrawnFor t owner name m → DrawnFor t owner' name' m → owner = owner' ∧ name = name')
    {owner name messageB64 messageType signatureB64 algorithm : PyStr} {version : Option ℤ}
    (hideal : IdealStep t w (.op (.verify owner name messageB64 messageType signatureB64 algorithm version)))
    (hsound : SoundStep t w (.op (.verify owner name messageB64 messageType signatureB64 algorithm version))) :
    VerifiedAuthentic t (.op (.verify owner name messageB64 messageType signatureB64 algorithm version),
      (((TransitOp.verify owner name messageB64 messageType signatureB64 algorithm version).exec passphrase).run w).1) := by
  simp only [TransitOp.exec, run_answer]
  rcases hrun : (TransitService.verify owner name messageB64 messageType signatureB64 algorithm version).run w with
    ⟨e | result, w'⟩
  · trivial
  intro hvalid
  obtain ⟨-, -, k, r, digest, rows, matched, -, hrow, -, -, -, hdigest, hrows, hmatched, rfl⟩ :=
    TransitService.run_verify_eq_ok.mp hrun
  obtain ⟨v, rfl⟩ := Option.isSome_iff_exists.mp hvalid
  obtain ⟨signature, row, hsignature, hmem, haccepts⟩ := TransitService.matchedVersion_eq_some hmatched
  obtain ⟨publicKey, hpublic, hlen, hverify⟩ := TransitService.accepts_eq_true haccepts
  obtain ⟨htable, hof⟩ := TransitService.candidates_mem hrows row hmem
  -- the public key is of a material drawn for the key, and the signature was made with it
  obtain ⟨m, hdrawn, rfl⟩ := hsound r hrow row htable hof publicKey hpublic hlen
  have hsigned := hideal digest signature hdigest hsignature owner name m hdrawn hverify
  obtain ⟨owner', name', message', type', algorithm', result', m', hevent, hdigest', hsignature', hdrawn', hkey⟩ :=
    h.signed _ hsigned
  obtain rfl : m = m' := Subtype.ext hkey
  obtain ⟨rfl, rfl⟩ := hfresh owner name owner' name' m hdrawn hdrawn'
  exact ⟨message', type', algorithm', result', digest, signature, hevent, hdigest, hdigest', hsignature, hsignature'⟩

end Steps

/-- No two materials drawn in the run are the same. -/
def FreshSteps (steps : List KeyStep) : Prop := Fresh (steps.filterMap KeyStep.op?)

instance (steps : List KeyStep) : Decidable (FreshSteps steps) := inferInstanceAs (Decidable (Fresh _))

omit [Platform] in
/-- Then a material is drawn for one key only. -/
theorem FreshSteps.same_key {t : KeyStepTrace} (h : FreshSteps (t.map Prod.fst)) {owner name owner' name' : PyStr} {m : Key}
    (hm : DrawnFor t owner name m) (hm' : DrawnFor t owner' name' m) : owner = owner' ∧ name = name' := by
  -- the steps that are operations, as a run of those
  let ops : TransitTrace := (t.map Prod.fst).filterMap KeyStep.op? |>.map fun op => (op, .ok .nothing)
  have hops : ops.map Prod.fst = (t.map Prod.fst).filterMap KeyStep.op? := by
    rw [List.map_map]
    exact List.map_id _
  have hmem : ∀ {u k}, DrawnFor t u k m → m ∈ ops.filterMap fun e => e.1.drawnFor u k := by
    rintro u k ⟨⟨step, r⟩, he, hdrawn⟩
    cases step with
    | op o =>
      refine List.mem_filterMap.mpr ⟨(o, .ok .nothing), List.mem_map.mpr ⟨o, ?_, rfl⟩, hdrawn⟩
      exact List.mem_filterMap.mpr ⟨.op o, List.mem_map.mpr ⟨_, he, rfl⟩, rfl⟩
    | edit keys versions => cases hdrawn
  unfold FreshSteps at h
  rw [← hops] at h
  exact h.same_key (hmem hm) (hmem hm')

/-- **`verify` reports only what was signed**, in every run all of whose steps find sound
tables: with an ideal cipher, ideal signatures and materials that are all different, whatever
was done to the key tables in between, a call of `verify` that reports a signature as valid
reports one that a call of `sign` on the same key returned for the same digest. -/
theorem verify_authentic (hgcm : GcmCorrect) (environ : PyStr → Option PyStr) (passphrase : PyStr)
    (coins : VaultService.InitCoins) (steps : List KeyStep) :
    let start := (VaultService.initializeVault passphrase coins).run (.fresh environ)
    let run := keyStepSession passphrase start.2
    start.1.isOk → FreshSteps steps →
      Explained (fun before step => IdealStep (run before).1 (run before).2 step) steps →
        Explained (fun before step => SoundStep (run before).1 (run before).2 step) steps →
          Explained VerifiedAuthentic (run steps).1 := by
  intro start run hinit hfresh hideal hsound
  have hstart : Authentic passphrase coins.dek [] start.2 := by
    obtain ⟨hrefines, hrecorded⟩ := KeysRefine.start hgcm hinit
    refine ⟨hrefines.config, hrefines.memory, fun s hs => ?_, fun s hs => ?_, .nil⟩
    · exact .inl (VaultService.initializeVault_sealed hinit s hs)
    · obtain ⟨before, e, after, hrun, -⟩ := hrecorded.signed s hs
      simp at hrun
  have hstep : Explained (fun before step => FreshSteps ((run before).1.map Prod.fst) ∧
      IdealStep (run before).1 (run before).2 step ∧ SoundStep (run before).1 (run before).2 step) steps := by
    rintro before step after rfl
    refine ⟨?_, hideal before step after rfl, hsound before step after rfl⟩
    rw [show (run before).1.map Prod.fst = before from Prog.session_map_fst _ _ _]
    unfold FreshSteps Fresh at hfresh ⊢
    rw [List.filterMap_append, List.filterMap_append] at hfresh
    exact (List.nodup_append.mp hfresh).1
  refine (Prog.session_invariant_of (I := Authentic passphrase coins.dek)
    (C := fun t w step => FreshSteps (t.map Prod.fst) ∧ IdealStep t w step ∧ SoundStep t w step) hstart ?_ hstep).verified
  rintro t w step h ⟨hfresh, hideal, hsound⟩
  cases step with
  | edit keys versions =>
    exact ⟨h.config, h.memory, fun s hs => (h.sealed s hs).imp id fun ⟨op, r, hmem, hby⟩ =>
      ⟨op, r, List.mem_append_left _ hmem, hby⟩, fun s hs => (h.signed s hs).append _,
        explained_append.mpr ⟨h.verified, trivial⟩⟩
  | op o =>
    cases o with
    | sign owner name message type algorithm => exact h.sign hideal hsound
    | verify owner name message type signature algorithm version =>
      exact h.keep _ rfl (h.verify (fun _ _ _ _ _ => hfresh.same_key) hideal hsound)
    | createKey | createSigningKey | rotateKey | deleteKey | listKeys | encrypt | decrypt | lock | unlock | restart
    | tick => exact h.keep _ rfl trivial

end Tampering

/-! ### A forged signature on the sample platform -/

section Sample

attribute [local instance] samplePlatform

/-- A signing key is made. -/
def sampleKeySteps : List KeyStep :=
  [.op .unlock, .op (.createSigningKey sampleOwner sampleKeyName (py "ed25519") (sampleKeyCoins 21))]

/-- The world in which there is the key. -/
def sampleKeyWorld : World := (keyStepSession samplePassphrase sampleStart.2 sampleKeySteps).2

/-- The public key in every row is overwritten by one of a key of the writer's own. -/
def sampleForgery : KeyStep :=
  .edit sampleKeyWorld.db.namedKeys ⟨sampleKeyWorld.db.namedKeyVersions.rows.map fun row =>
    { row with publicKeyB64 := TransitService.publicKeyOf .ed25519 (sampleKey 66) },
    sampleKeyWorld.db.namedKeyVersions.seq⟩

/-- A signature the writer made. -/
def sampleForged : PyStr := encodeB64 (samplePlatform.ed25519Sign (sampleKey 66) sampleDigest)

/-- A call of `verify` with the signature. -/
def sampleForgedVerification : KeyStep :=
  .op (.verify sampleOwner sampleKeyName samplePayload (py "raw") sampleForged (py "ed25519") none)

/-- The run with the forgery. -/
def sampleForgedSteps : List KeyStep := sampleKeySteps ++ [sampleForgery, sampleForgedVerification]

/-- What the forged verification reports. -/
def sampleForgedResult : VerifyResult := ⟨sampleKeyName, some 1, .str ed25519, true⟩

/-- A signature of the owner's. -/
def sampleSignatureStep : KeyStep := .op sampleSigning

/-- A call of `verify` with it. -/
def sampleVerification : KeyStep :=
  .op (.verify sampleOwner sampleKeyName samplePayload (py "raw") (encodeB64 sampleSignature) (py "ed25519") none)

/-- The wrapped material in every row is overwritten. -/
def sampleErasure : KeyStep :=
  .edit sampleKeyWorld.db.namedKeys ⟨sampleKeyWorld.db.namedKeyVersions.rows.map fun row =>
    { row with encryptedKeyMaterialB64 := .str [] }, sampleKeyWorld.db.namedKeyVersions.seq⟩

/-- The run with the signature, which is verified in spite of that. -/
def sampleSignedSteps : List KeyStep := sampleKeySteps ++ [sampleSignatureStep, sampleErasure, sampleVerification]

/-- The wrapped private key of the sample runs. -/
def sampleWrapped : EncryptedBlob :=
  .split (sampleNonce 21) (sampleEncrypt (sampleKey 1) (sampleNonce 21) (sampleKey 21)
    ((TransitService.keyAad (.str sampleOwner) (.str sampleKeyName) (.str signVerify) (.str (py "ED25519")) 1).toOption.getD []))

attribute [local irreducible] Prog.session

/-- The one material the sample runs draw. -/
theorem sampleKeySteps_drawn {w : World} (steps : List KeyStep) {owner name : PyStr} {m : Key}
    (h : DrawnFor (keyStepSession samplePassphrase w steps).1 owner name m)
    (hsteps : ∀ step ∈ steps, step ∈ sampleKeySteps ∨ ∀ u k, step.drawnFor u k = none) : m = sampleKey 21 := by
  obtain ⟨e, he, hdrawn⟩ := h
  have hmem := List.mem_map_of_mem (f := Prod.fst) he
  rw [keyStepSession, Prog.session_map_fst] at hmem
  rcases hsteps e.1 hmem with hstep | hnone
  · simp only [sampleKeySteps, List.mem_cons, List.not_mem_nil, or_false] at hstep
    rcases hstep with hstep | hstep <;> rw [hstep] at hdrawn
    · cases hdrawn
    · simp only [KeyStep.drawnFor, TransitOp.drawnFor] at hdrawn
      split_ifs at hdrawn
      exact (Option.some.inj hdrawn).symm
  · rw [hnone] at hdrawn
    cases hdrawn

/-- Where a public key is overwritten, `verify` reports a signature as valid that no call of
`sign` made. -/
theorem verify_forged_sample :
    (sampleStart.1.isOk ∧ FreshSteps sampleForgedSteps) ∧
      Explained (fun before step => IdealStep (keyStepSession samplePassphrase sampleStart.2 before).1
        (keyStepSession samplePassphrase sampleStart.2 before).2 step) sampleForgedSteps ∧
      ¬ Explained VerifiedAuthentic (keyStepSession samplePassphrase sampleStart.2 sampleForgedSteps).1 := by
  refine ⟨⟨by decide +kernel, by decide +kernel⟩, ?_, fun hexplained => ?_⟩
  · refine explained_cons.mpr ⟨trivial, explained_cons.mpr ⟨trivial, explained_cons.mpr ⟨trivial,
      explained_cons.mpr ⟨?_, .nil⟩⟩⟩⟩
    intro digest signature hdigest hsignature owner name m hdrawn hverify
    have hmessage : TransitService.messageDigest samplePayload (py "raw") = .ok sampleDigest := by decide +kernel
    obtain rfl := Except.ok.inj (hmessage.symm.trans hdigest)
    rw [sampleForged, decodeB64_encodeB64] at hsignature
    obtain rfl := Except.ok.inj hsignature
    -- the signature does not verify under the one material that was drawn
    obtain rfl : m = sampleKey 21 := sampleKeySteps_drawn _ hdrawn (by simp [sampleKeySteps, sampleForgery, KeyStep.drawnFor])
    exact absurd hverify (by decide +kernel)
  · obtain ⟨rest, -, hcut⟩ := Prog.session_cut (KeyStep.exec samplePassphrase) sampleStart.2
      (sampleKeySteps ++ [sampleForgery]) sampleForgedVerification []
    have hresult : ((sampleForgedVerification.exec samplePassphrase).run (Prog.session (KeyStep.exec samplePassphrase)
        sampleStart.2 (sampleKeySteps ++ [sampleForgery])).2).1 = .ok (.verified sampleForgedResult) := by decide +kernel
    rw [hresult] at hcut
    obtain ⟨message, type, algorithm, r, digest, signature, hsign, -⟩ := hexplained _ _ _ hcut rfl
    have hmem := List.mem_map_of_mem (f := Prod.fst) hsign
    rw [Prog.session_map_fst] at hmem
    simp [sampleKeySteps, sampleForgery] at hmem

/-- A step of a run that draws a material for a key. -/
theorem drawnFor_of_mem {w : World} (steps : List KeyStep) (step : KeyStep) {owner name : PyStr} {m : Key}
    (h : step ∈ steps) (hdrawn : step.drawnFor owner name = some m) :
    DrawnFor (keyStepSession samplePassphrase w steps).1 owner name m := by
  have hmap : (keyStepSession samplePassphrase w steps).1.map Prod.fst = steps := Prog.session_map_fst _ _ _
  rw [← hmap] at h
  obtain ⟨e, he, rfl⟩ := List.mem_map.mp h
  exact ⟨e, he, hdrawn⟩

/-- The cipher and the signatures are ideal for the sample run. -/
theorem sampleSignedSteps_ideal : Explained (fun before step =>
    IdealStep (keyStepSession samplePassphrase sampleStart.2 before).1
      (keyStepSession samplePassphrase sampleStart.2 before).2 step) sampleSignedSteps := by
  refine explained_cons.mpr ⟨trivial, explained_cons.mpr ⟨trivial, explained_cons.mpr ⟨?_,
    explained_cons.mpr ⟨trivial, explained_cons.mpr ⟨?_, .nil⟩⟩⟩⟩⟩
  · intro row hrow blob hblob k _ associatedData
    have hblobs : (keyStepSession samplePassphrase sampleStart.2 sampleKeySteps).2.db.namedKeyVersions.rows.map
        TransitService.blobOf = [.ok sampleWrapped] := by decide +kernel
    have hmem := List.mem_map_of_mem (f := TransitService.blobOf) hrow
    rw [hblob] at hmem
    obtain rfl := Except.ok.inj (List.mem_singleton.mp (hblobs ▸ hmem))
    refine samplePlatform_opensOnly (sampleKey 1) (sampleKey 21) _ ?_ k associatedData
    have hsealed : ⟨sampleKey 1, (TransitService.keyAad (.str sampleOwner) (.str sampleKeyName) (.str signVerify)
        (.str (py "ED25519")) 1).toOption.getD [], sampleKey 21, sampleWrapped⟩ ∈
          (keyStepSession samplePassphrase sampleStart.2 sampleKeySteps).2.sealed := by decide +kernel
    exact hsealed
  · intro digest signature hdigest hsignature owner name m hdrawn hverify
    have hmessage : TransitService.messageDigest samplePayload (py "raw") = .ok sampleDigest := by decide +kernel
    obtain rfl := Except.ok.inj (hmessage.symm.trans hdigest)
    rw [decodeB64_encodeB64] at hsignature
    obtain rfl := Except.ok.inj hsignature
    obtain rfl : m = sampleKey 21 := sampleKeySteps_drawn (sampleKeySteps ++ [sampleSignatureStep, sampleErasure]) hdrawn
      (by simp [sampleKeySteps, sampleSignatureStep, sampleSigning, sampleErasure, KeyStep.drawnFor, TransitOp.drawnFor])
    have hsigned : ⟨sampleKey 21, sampleDigest, sampleSignature⟩ ∈
        (keyStepSession samplePassphrase sampleStart.2 (sampleKeySteps ++ [sampleSignatureStep, sampleErasure])).2.signed := by
      decide +kernel
    exact hsigned

/-- The tables of the sample run are sound. -/
theorem sampleSignedSteps_sound : Explained (fun before step =>
    SoundStep (keyStepSession samplePassphrase sampleStart.2 before).1
      (keyStepSession samplePassphrase sampleStart.2 before).2 step) sampleSignedSteps := by
  refine explained_cons.mpr ⟨trivial, explained_cons.mpr ⟨trivial, explained_cons.mpr ⟨?_,
    explained_cons.mpr ⟨trivial, explained_cons.mpr ⟨?_, .nil⟩⟩⟩⟩⟩
  · intro r hr
    have halg : ((keyStepSession samplePassphrase sampleStart.2 sampleKeySteps).2.db.keyAt sampleOwner sampleKeyName).map
        (fun r => TransitService.algorithmText r.signingAlgorithm) = some (py "ED25519") := by decide +kernel
    obtain ⟨r', hr', halg'⟩ := Option.map_eq_some_iff.mp halg
    obtain rfl : r' = r := Option.some.inj (hr'.symm.trans hr)
    rw [halg']
    decide
  · intro r _ row hrow _ publicKey hpublic _
    have hkeys : (keyStepSession samplePassphrase sampleStart.2 (sampleKeySteps ++
        [sampleSignatureStep, sampleErasure])).2.db.namedKeyVersions.rows.map (fun row => decodeB64 row.publicKeyB64) =
          [.ok (samplePlatform.ed25519Public (sampleKey 21))] := by decide +kernel
    have hmem := List.mem_map_of_mem (f := fun row : NamedKeyVersion => decodeB64 row.publicKeyB64) hrow
    simp only [hpublic] at hmem
    obtain rfl := Except.ok.inj (List.mem_singleton.mp (hkeys ▸ hmem))
    exact ⟨sampleKey 21, drawnFor_of_mem (sampleKeySteps ++ [sampleSignatureStep, sampleErasure])
      (.op (.createSigningKey sampleOwner sampleKeyName (py "ed25519") (sampleKeyCoins 21)))
        (by simp [sampleKeySteps]) (by decide), rfl⟩

/-- What `verify` reports in the sample run was signed, although the rows were edited. -/
theorem verify_authentic_sample :
    Explained VerifiedAuthentic (keyStepSession samplePassphrase sampleStart.2 sampleSignedSteps).1 :=
  verify_authentic samplePlatform_gcmCorrect (fun _ => none) samplePassphrase sampleCoins sampleSignedSteps
    (by decide +kernel) (by decide +kernel) sampleSignedSteps_ideal sampleSignedSteps_sound

end Sample

end MiniVault
