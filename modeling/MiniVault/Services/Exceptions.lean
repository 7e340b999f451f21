import MiniVault.Services.KeyHandlers
import MiniVault.Storage.Startup

/-!
# The exceptions of the services

Which calls of the services return or raise an exception that `register_error_handlers` maps, in every state that
the application reaches.

## The model

A run of the application is any sequence of its operations (`AppOp`): of the vault, with any passphrases, of the
key-value store, of the named keys, of the accounts and of the log. `InOrder` is what holds of the tables after it.
`ServiceCall.Bounded` is the condition on the arguments of a call, and on the state.

## What is proved

* `inOrder_session` — the tables are in order in every state that is reached.
* `errors_handled` — in every such state, a call is answered or raises an exception with a handler exactly where its
  arguments are bounded.
-/

namespace MiniVault

open Foundations

section Exceptions

variable [Platform]

/-! ### What a run leaves in order -/

/-- The tables of the named keys. -/
def Database.keyTables (db : Database) : Table NamedKey × Table NamedKeyVersion := (db.namedKeys, db.namedKeyVersions)

/-- The tables of all services are in order. -/
structure InOrder (db : Database) : Prop where
  /-- Those of the key-value store. -/
  records : db.KvSound
  /-- Those of the named keys. -/
  keys : KeysFit db
  /-- The audit log. -/
  log : LogKept db

namespace InOrder

variable {db db' : Database}

theorem fresh : InOrder .fresh := ⟨.fresh, .fresh, logKept_fresh⟩

/-- The accounts are beside it. -/
theorem of_besideAccounts (h : InOrder db) (hbeside : db'.besideAccounts = db.besideAccounts) : InOrder db' := by
  simp only [Database.besideAccounts, Database.mk.injEq] at hbeside
  have hrecords : db'.recordPart = db.recordPart := by simp only [Database.recordPart, hbeside]
  have hlog : db'.logPart = db.logPart := by simp only [Database.logPart, hbeside]
  exact ⟨h.records.of_recordPart hrecords, h.keys.of_tables (by simp only [hbeside]) (by simp only [hbeside]),
    (h.log.of_logPart hlog).1⟩

end InOrder

/-! #### The named keys -/

/-- The steps of the program leave the tables of the named keys in order. -/
def KeepsFit {α : Type} (p : Act α) : Prop := p.Sat (fun _ => True) fun _ w w' => KeysFit w.db → KeysFit w'.db

section KeepsFit

variable {α β : Type}

omit [Platform] in
theorem KeepsFit.bind {p : Act α} {f : α → Act β} (hp : KeepsFit p) (hf : ∀ a, KeepsFit (f a)) : KeepsFit (p >>= f) :=
  Prog.Sat.bind hp hf

omit [Platform] in
/-- What keeps the tables keeps them in order. -/
theorem Keeps.keepsFit {p : Act α} (h : Keeps (fun w => w.db.keyTables) p) : KeepsFit p := by
  refine Prog.Sat.mono h (fun _ => id) fun _ w w' hkeys hfit => ?_
  simp only [Database.keyTables, Prod.mk.injEq] at hkeys
  exact hfit.of_tables hkeys.1 hkeys.2

omit [Platform] in
/-- A transaction leaves them in order where it does when it commits. -/
theorem KeepsFit.connection {label : Label} {body : Act α}
    (h : ∀ w a w', KeysFit w.db → body.run w = (.ok a, w') → KeysFit w'.db) : KeepsFit (MiniVault.connection label body) := by
  refine Prog.Sat.atomic fun w _ hfit => ?_
  show KeysFit ((MiniVault.connection label body).run w).2.db
  rw [run_connection]
  rcases hrun : body.run w with ⟨e | a, w'⟩
  · exact hfit
  · exact h w a w' hfit hrun

end KeepsFit

namespace TransitService

theorem create_keepsFit (owner name : PyStr) (kind : KeyKind) (coins : KeyCoins) :
    KeepsFit (NamedKeyRepository.create owner name kind.usage kind.algorithm (wrapFor kind owner name coins)) := by
  refine .bind Keeps.now.keepsFit fun now => .bind (Prog.Sat.handle (KeepsFit.connection fun w u w' hfit hrun => ?_)
    fun e => Prog.Sat.ite (fun _ => .throw _) fun _ => .throw _) fun _ => .bind (Keeps.keepsFit reads_keep) fun row => ?_
  · obtain ⟨-, -, halgorithm, hnone, id, versionId, wrapped, w₀, w₁, hpublic, hid, hlt, -, -, rfl⟩ :=
      NamedKeyRepository.run_createBody_eq_ok (fun v => wrapFor_keeps (fun _ _ => rfl) v) hrun
    exact hfit.create halgorithm hpublic hnone hlt hid
  · cases row with
    | none => exact Prog.Sat.throw _
    | some row => exact Prog.Sat.pure _

theorem rotate_keepsFit (owner name : PyStr) (kind : KeyKind) (coins : KeyCoins) :
    KeepsFit (NamedKeyRepository.rotate owner name (wrapFor kind owner name coins)) := by
  refine .bind Keeps.now.keepsFit fun now => .bind (.connection fun w b w' hfit hrun => ?_)
    fun rotated => Prog.Sat.ite (fun _ => Keeps.keepsFit reads_keep) fun _ => .pure _
  obtain ⟨-, -, ⟨-, -, rfl⟩ | ⟨-, r, latest, versionId, wrapped, w₁, hpublic, hr, hlatest, -, hnumber, -, rfl⟩⟩ :=
    NamedKeyRepository.run_rotateBody_eq_ok (fun v => wrapFor_keeps (fun _ _ => rfl) v) hrun
  · exact hfit
  · exact hfit.rotate hpublic hr (hfit.latest hr hlatest) hnumber

omit [Platform] in
theorem deleteOwned_keepsFit (owner name : PyStr) : KeepsFit (NamedKeyRepository.deleteOwned owner name) := by
  refine .connection fun w b w' hfit hrun => ?_
  obtain ⟨_, _, hexecute, h⟩ := Prog.run_bind_eq_ok.mp hrun
  obtain ⟨-, db, hdb, rfl⟩ := run_execute_eq_ok.mp hexecute
  obtain ⟨-, rfl⟩ := Prod.mk.inj (Except.ok.inj hdb)
  obtain ⟨-, rfl⟩ := Prod.mk.inj h
  exact hfit.delete owner name

end TransitService

/-- **The operations on named keys leave their tables in order**. -/
theorem TransitOp.exec_keepsFit (passphrase : PyStr) (op : TransitOp) : KeepsFit (op.exec passphrase) := by
  have hvalid : ∀ name, KeepsFit (TransitService.validateKeyName name) :=
    fun _ => Prog.Sat.ite (fun _ => .pure _) fun _ => .throw _
  have hmetadata : ∀ row, KeepsFit (TransitService.metadata row) := fun row => (TransitService.metadata_keeps row).keepsFit
  have howned : ∀ owner name, KeepsFit (TransitService.ownedKey owner name) :=
    fun owner name => Keeps.keepsFit ((TransitService.ownedKey_keeps owner name).aside fun _ => rfl)
  cases op with
  | createKey owner name coins =>
    exact .bind (.bind (hvalid _) fun _ => .bind Keeps.getDek.keepsFit fun _ =>
      .bind (TransitService.create_keepsFit owner name .aes coins) hmetadata) fun _ => .pure _
  | createSigningKey owner name algorithm coins =>
    exact .bind (.bind (hvalid _) fun _ => Prog.Sat.ite (fun _ => .throw _) fun _ => KeepsFit.bind Keeps.getDek.keepsFit
      fun _ => .bind (TransitService.create_keepsFit owner name .ed25519 coins) hmetadata) fun _ => .pure _
  | rotateKey owner name coins =>
    refine .bind (.bind (howned _ _) fun keyRow => .bind Keeps.getDek.keepsFit fun _ => .bind ?_ fun rotated => ?_)
      fun _ => .pure _
    · obtain ⟨kind, hwrapper⟩ := TransitService.wrapperOf_eq keyRow owner name coins
      rw [hwrapper]
      exact TransitService.rotate_keepsFit owner name kind coins
    · cases rotated with
      | none => exact Prog.Sat.throw _
      | some row => exact hmetadata row
  | deleteKey owner name =>
    exact .bind (.bind (howned _ _) fun _ => .bind Keeps.getDek.keepsFit fun _ =>
      .bind (TransitService.deleteOwned_keepsFit owner name) fun _ => Prog.Sat.ite (fun _ => .pure _) fun _ => .throw _)
        fun _ => .pure _
  | listKeys owner => exact .bind (TransitService.listKeys_keeps owner).keepsFit fun _ => .pure _
  | encrypt owner name plaintext nonce =>
    exact .bind (Keeps.keepsFit (TransitService.encrypt_keeps owner name plaintext nonce (fun _ => rfl) fun _ _ => rfl))
      fun _ => .pure _
  | decrypt owner ciphertext =>
    exact .bind (Keeps.keepsFit ((TransitService.decrypt_keeps owner ciphertext).aside fun _ => rfl)) fun _ => .pure _
  | sign owner name message type algorithm =>
    exact .bind (Keeps.keepsFit (TransitService.sign_keeps owner name message type algorithm (fun _ => rfl) fun _ _ => rfl))
      fun _ => .pure _
  | verify owner name message type signature algorithm version =>
    exact .bind (Keeps.keepsFit ((TransitService.verify_keeps owner name message type signature algorithm version).aside
      fun _ => rfl)) fun _ => .pure _
  | lock => exact Keeps.keepsFit (.bind (.bind (.change fun _ => rfl) fun _ => VaultService.status_keeps) fun _ => .pure _)
  | unlock => exact Keeps.keepsFit (.bind (VaultService.unlock_keeps fun _ _ => rfl) fun _ => .pure _)
  | restart => exact Keeps.keepsFit (.bind (.change fun _ => rfl) fun _ => .pure _)
  | tick time => exact Keeps.keepsFit (.bind (.change fun _ => rfl) fun _ => .pure _)

/-- The other operations leave them. -/
theorem KvOp.exec_keepsKeys (passphrase : PyStr) (op : KvOp) : Keeps (fun w => w.db.keyTables) (op.exec passphrase) := by
  have hbeside : ∀ {db db' : Database}, db'.besideRecords = db.besideRecords → db'.keyTables = db.keyTables := by
    intro db db' h
    simp only [Database.besideRecords, Database.mk.injEq] at h
    simp only [Database.keyTables, h]
  cases htarget : op.target with
  | none => exact (op.exec_keepsDb passphrase htarget).besideDb
  | some target =>
    obtain ⟨owner, path⟩ := target
    obtain ⟨k, hexec, hk⟩ := op.afterAuthorize passphrase htarget
    rw [hexec]
    exact .bind ((KvService.authorize_keeps owner path).aside fun _ => rfl) fun u => (hk u).ofTables hbeside

omit [Platform] in
/-- A program that leaves the named keys in order, run. -/
theorem KeepsFit.run {α : Type} {p : Act α} (h : KeepsFit p) {w : World} (hfit : KeysFit w.db) :
    KeysFit (p.run w).2.db := by
  let R (w w' : World) : Prop := KeysFit w.db → KeysFit w'.db
  have htrans : ∀ w₁ w₂ w₃, R w₁ w₂ → R w₂ w₃ → R w₁ w₃ := fun _ _ _ h₁ h₂ hs => h₂ (h₁ hs)
  have hrun := Prog.run_sat (s := w) (fun _ hs => hs) htrans h (fun _ _ _ _ _ => trivial) (fun _ _ _ _ hstep => hstep) trivial
  exact hrun.1 hfit

/-- **An operation of the services leaves the tables in order**. -/
theorem ServiceOp.exec_inOrder (passphrase : PyStr) (op : ServiceOp) {w : World} (h : InOrder w.db) :
    InOrder ((op.exec passphrase).run w).2.db := by
  have hlog := (((op.exec_denies passphrase).step op.isRefusal_refusal h.log).1).1
  cases op with
  | kv op =>
    have hkeys : KeepsFit (ServiceOp.exec passphrase (.kv op)) :=
      .bind (op.exec_keepsKeys passphrase).keepsFit fun _ => Prog.Sat.pure _
    refine ⟨?_, hkeys.run h.keys, hlog⟩
    simp only [ServiceOp.exec, run_answer]
    have hsound := op.exec_kvSound passphrase h.records
    rcases hrun : (op.exec passphrase).run w with ⟨e | a, w'⟩ <;> rw [hrun] at hsound <;> exact hsound
  | transit op =>
    have hkeys : KeepsFit (ServiceOp.exec passphrase (.transit op)) :=
      .bind (op.exec_keepsFit passphrase) fun _ => Prog.Sat.pure _
    have hrecords := (Keeps.bind (op.exec_keepsRecords passphrase) fun a => .pure (ServiceAnswer.transit a)).run w
    exact ⟨h.records.of_recordPart hrecords, hkeys.run h.keys, hlog⟩

/-- A program that leaves the database leaves it in order. -/
theorem InOrder.of_keepsDb {α : Type} {p : Act α} (hp : Keeps World.db p) {w : World} (h : InOrder w.db) :
    InOrder (p.run w).2.db :=
  Eq.subst (motive := InOrder) (hp.run w).symm h

/-- **So does every operation of the application**. -/
theorem AppOp.exec_inOrder (op : AppOp) {w : World} (h : InOrder w.db) : InOrder (op.exec.run w).2.db := by
  cases op with
  | vault op => exact h.of_keepsDb (.bind op.exec_keepsDb fun _ => .pure _)
  | service passphrase op =>
    have hop := op.exec_inOrder passphrase h
    simp only [AppOp.exec, Prog.run_bind]
    rcases hrun : (op.exec passphrase).run w with ⟨e | a, w'⟩ <;> rw [hrun] at hop <;> exact hop
  | auth op => exact h.of_besideAccounts ((Keeps.bind op.exec_besideAccounts fun _ => .pure _).run w)
  | currentUser credentials => exact h.of_keepsDb (.bind (getCurrentUser_keeps credentials) fun _ => .pure _)
  | listAudit requesterEmail limit =>
    exact h.of_keepsDb (.bind (.connection (.query _ _) fun _ _ _ => rfl) fun _ => .pure _)
  | verifyAudit =>
    exact h.of_keepsDb (.bind (.bind (.connection (.query _ _) fun _ _ _ => rfl) fun rows => .bind
      (.bind (.connection (.query _ _) fun _ _ _ => rfl) fun row => .pure _) fun stored => .done _) fun _ => .pure _)

/-- **The tables are in order in every state that a run reaches**. -/
theorem inOrder_session {w : World} (h : InOrder w.db) (ops : List AppOp) : InOrder (Prog.session AppOp.exec w ops).2.db :=
  Prog.session_invariant (I := fun _ (w : World) => InOrder w.db) h (fun _ _ op h => op.exec_inOrder h) ops

/-! ### The calls -/

/-- A call of a service. -/
inductive ServiceCall where
  /-- `KvService.write`. -/
  | write (owner path : PyStr) (data : List (PyStr × Json)) (nonce : Nonce)
  /-- `KvService.read`. -/
  | read (owner path : PyStr) (version : Option ℤ)
  /-- `KvService.versions`. -/
  | versions (owner path : PyStr)
  /-- `KvService.delete`. -/
  | delete (owner path : PyStr)
  /-- `TransitService.encrypt`. -/
  | encrypt (owner name plaintextB64 : PyStr) (nonce : Nonce)
  /-- `TransitService.decrypt`. -/
  | decrypt (owner ciphertext : PyStr)
  /-- `TransitService.sign`. -/
  | sign (owner name messageB64 messageType signingAlgorithm : PyStr)
  /-- `TransitService.verify`. -/
  | verify (owner name messageB64 messageType signatureB64 signingAlgorithm : PyStr) (version : Option ℤ)

/-- The call returns or raises an exception with a handler. -/
def ServiceCall.Answered (w : World) : ServiceCall → Prop
  | .write owner path data nonce => Handled (KvService.write owner path data nonce) w
  | .read owner path version => Handled (KvService.read owner path version) w
  | .versions owner path => Handled (KvService.versions owner path) w
  | .delete owner path => Handled (KvService.delete owner path) w
  | .encrypt owner name plaintextB64 nonce => Handled (TransitService.encrypt owner name plaintextB64 nonce) w
  | .decrypt owner ciphertext => Handled (TransitService.decrypt owner ciphertext) w
  | .sign owner name messageB64 messageType signingAlgorithm =>
    Handled (TransitService.sign owner name messageB64 messageType signingAlgorithm) w
  | .verify owner name messageB64 messageType signatureB64 signingAlgorithm version =>
    Handled (TransitService.verify owner name messageB64 messageType signatureB64 signingAlgorithm version) w

/-- What a call asks of its arguments and of the state: texts without lone surrogates, not too long, and numbers of 64
bits, where they are bound to a parameter, data that can be written, nothing too long to be encrypted or stored, tables
that have room, and no stored data that is nested too deeply to be read. -/
def ServiceCall.Bounded (w : World) : ServiceCall → Prop
  | .write owner path data _ => OnPath w owner path (w.dek ≠ none → Encodable owner ∧ Encodable path ∧
      w.db.Room owner path (isoformat w.clock) ∧ KvService.FitsGcm w owner path data)
  | .read owner path version => OnPath w owner path ((∀ v ∈ version, 1 ≤ v) → w.dek ≠ none →
      Bindable owner ∧ Bindable path ∧ (∀ v ∈ version, Fits v) ∧ KvService.ReadsShallow w owner path version)
  | .versions owner path => OnPath w owner path (w.dek ≠ none → Bindable owner ∧ Bindable path)
  | .delete owner path => OnPath w owner path (w.dek ≠ none → Bindable owner ∧ Bindable path)
  | .encrypt owner name plaintextB64 _ => OnKey w owner name fun row => row.keyUsage = .str encryptDecrypt →
      TransitService.OpensLatest w owner name row → TransitService.FitsGcm w owner name plaintextB64
  | .decrypt owner ciphertext => ∀ parsed, parseCiphertext ciphertext = .ok parsed → OnKey w owner parsed.keyName fun _ => True
  | .sign owner name _ _ _ => OnKey w owner name fun _ => True
  | .verify owner name messageB64 messageType _ signingAlgorithm version => OnKey w owner name fun row =>
      row.keyUsage = .str signVerify → row.signingAlgorithm = .str (Platform.upper signingAlgorithm) → w.dek ≠ none →
        (∃ digest, TransitService.messageDigest messageB64 messageType = .ok digest) → ∀ v ∈ version, Fits v

/-- **Which calls are answered**: in every state that a run of the application reaches, a call returns or raises an
exception with a handler exactly where it is bounded. -/
theorem errors_handled (hrejects : GcmRejects) (hlimits : GcmLimits) {start : World} (hstart : start.db = .fresh)
    (ops : List AppOp) (call : ServiceCall) :
    let w := (Prog.session AppOp.exec start ops).2
    call.Answered w ↔ call.Bounded w := by
  intro w
  have hfresh : InOrder start.db := hstart ▸ .fresh
  have h : InOrder w.db := inOrder_session hfresh ops
  cases call with
  | write owner path data nonce => exact KvService.handled_write_iff hlimits h.records h.log
  | read owner path version => exact KvService.handled_read_iff hrejects h.records h.log
  | versions owner path => exact KvService.handled_versions_iff h.records h.log
  | delete owner path => exact KvService.handled_delete_iff h.log
  | encrypt owner name plaintextB64 nonce => exact TransitService.handled_encrypt_iff hrejects hlimits h.keys h.log
  | decrypt owner ciphertext => exact TransitService.handled_decrypt_iff hrejects h.keys h.log
  | sign owner name messageB64 messageType signingAlgorithm => exact TransitService.handled_sign_iff hrejects h.keys h.log
  | verify owner name messageB64 messageType signatureB64 signingAlgorithm version =>
    exact TransitService.handled_verify_iff h.keys h.log

end Exceptions

/-! ### A sample -/

section Sample

/-- The sample platform, with the bounds of the cipher and the size of what it writes: the plaintext and a tag. -/
@[reducible] def limitedPlatform : Platform :=
  { samplePlatform with
    aesGcmEncrypt := fun _ _ plaintext aad =>
      if plaintext.length < 2 ^ 31 ∧ aad.length < 2 ^ 31 then .ok (plaintext ++ sampleTag) else .error .overflowError
    aesGcmDecrypt := fun _ _ data _ =>
      if data.drop (data.length - 16) = sampleTag then .ok (data.take (data.length - 16)) else .error .invalidTag }

attribute [local instance] limitedPlatform

theorem limitedPlatform_gcmLimits : GcmLimits where
  ok _ _ _ _ hplaintext haad := ⟨_, if_pos ⟨hplaintext, haad⟩, by simp [sampleTag, gcmTagLength]⟩
  overflow _ _ _ _ hlong := if_neg hlong

theorem limitedPlatform_gcmRejects : GcmRejects := by
  intro key nonce data aad e _ _ h
  change (if _ then _ else _) = _ at h
  split_ifs at h
  exact (Except.error.inj h).symm

/-- A run: the vault is initialized and unlocked, and a user makes a key to sign with. -/
def sampleSystem : World :=
  (Prog.session AppOp.exec (.fresh fun _ => none) [.vault (.initializeVault samplePassphrase sampleCoins),
    .vault (.unlock samplePassphrase), .service samplePassphrase (.transit
      (.createSigningKey sampleOwner sampleKeyName (py "ed25519") (sampleKeyCoins 21)))]).2

attribute [local irreducible] Prog.session

/-- The largest version that fits is answered. -/
theorem errors_handled_sample : (ServiceCall.read sampleOwner samplePath (some (2 ^ 63 - 1))).Answered sampleSystem := by
  have hown : extractOwnerEmailFromPath samplePath = .ok sampleOwner := by decide +kernel
  have hbindable : Bindable sampleOwner ∧ Bindable samplePath := by decide +kernel
  apply (errors_handled limitedPlatform_gcmRejects limitedPlatform_gcmLimits rfl _ _).mpr
  show OnPath _ _ _ _
  unfold OnPath
  rw [if_pos hown]
  refine fun _ _ => ⟨hbindable.1, hbindable.2, by simp [Fits], fun row record dek hfound _ => ?_⟩
  have hnone : KvService.selected sampleSystem.db sampleOwner samplePath (some (2 ^ 63 - 1)) = none := by decide +kernel
  exact absurd (hfound.symm.trans hnone) (Option.some_ne_none _)

/-- Lists in each other. -/
def sampleNested : ℕ → Json
  | 0 => .null
  | n + 1 => .arr [sampleNested n]

/-- A version that does not, of a record and of a key, and data with a lone surrogate or nested too deeply. -/
theorem errors_unhandled_sample :
    ¬ (ServiceCall.read sampleOwner samplePath (some (2 ^ 63))).Answered sampleSystem ∧
      ¬ (ServiceCall.verify sampleOwner sampleKeyName samplePayload (py "raw") samplePayload (py "ed25519")
        (some (2 ^ 63))).Answered sampleSystem ∧
      ¬ (ServiceCall.write sampleOwner samplePath [(py "k", .str [.surrogate 0])] (sampleNonce 3)).Answered sampleSystem ∧
      ¬ (ServiceCall.write sampleOwner samplePath [(py "k", sampleNested 900)] (sampleNonce 3)).Answered sampleSystem := by
  refine ⟨fun h => ?_, fun h => ?_, fun h => ?_, fun h => ?_⟩
  · exact absurd (h .overflowError (by decide +kernel)) (by decide)
  · exact absurd (h .overflowError (by decide +kernel)) (by decide)
  · exact absurd (h .unicodeEncodeError (by decide +kernel)) (by decide)
  · exact absurd (h .recursionError (by decide +kernel)) (by decide)

end Sample

end MiniVault
