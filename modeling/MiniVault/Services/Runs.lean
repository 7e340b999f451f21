import MiniVault.Kv.History
import MiniVault.Transit.Tampering

/-!
# Runs of both services

A run of the services is any sequence of key-value and transit operations, by any users,
mixed with `lock`, `unlock` and restarts of the process.

An operation of either service begins with the question whether the requester may: the
owner of the path, or of the key. What follows works on the tables of its service only.

## What is proved

* `KvService.afterAuthorize`, `TransitService.afterOwnedKey` — every operation is that
  question with something behind it that leaves the other tables alone.
* `kvSound_session` — after every run the key-value tables are in order.
-/

namespace MiniVault

open Foundations

/-! ### The tables of the other service -/

/-- The tables without those of the key-value store. -/
def Database.besideRecords (db : Database) : Database := { db with kvRecords := .empty, kvVersions := .empty }

/-- The tables without those of the named keys. -/
def Database.besideKeys (db : Database) : Database := { db with namedKeys := .empty, namedKeyVersions := .empty }

/-- The log and the stored head. -/
def Database.logPart (db : Database) : Table AuditLog × List SchemaMetadata := (db.auditLogs, db.schemaMetadata)

/-- The key-value tables. -/
def Database.recordPart (db : Database) : Table KvRecord × Table KvVersion := (db.kvRecords, db.kvVersions)

/-- The part of the database that a change of tables does not touch. -/
theorem Keeps.ofTables {α γ δ : Type} {f : Database → γ} {g : Database → δ} {p : Act α}
    (h : Keeps (fun w => f w.db) p) (hg : ∀ {db db' : Database}, f db' = f db → g db' = g db) :
    Keeps (fun w => g w.db) p :=
  h.weaken fun heq => hg heq

section Tables

variable {db db' : Database}

theorem Database.logPart_of_besideRecords (h : db'.besideRecords = db.besideRecords) : db'.logPart = db.logPart := by
  simp only [besideRecords, Database.mk.injEq] at h
  simp only [logPart, h]

theorem Database.logPart_of_besideKeys (h : db'.besideKeys = db.besideKeys) : db'.logPart = db.logPart := by
  simp only [besideKeys, Database.mk.injEq] at h
  simp only [logPart, h]

theorem Database.recordPart_of_besideKeys (h : db'.besideKeys = db.besideKeys) : db'.recordPart = db.recordPart := by
  simp only [besideKeys, Database.mk.injEq] at h
  simp only [recordPart, h]

end Tables

/-- A connection whose statements keep a part of the database keeps it. -/
theorem Keeps.connectionDb {α γ : Type} {f : Database → γ} {label : Label} {body : Act α}
    (hb : Keeps (fun w => f w.db) body) : Keeps (fun w => f w.db) (MiniVault.connection label body) :=
  .connection hb fun _ _ _ => rfl

/-- A step that leaves the database keeps every part of it. -/
theorem Keeps.besideDb {α γ : Type} {f : Database → γ} {p : Act α} (h : Keeps World.db p) :
    Keeps (fun w => f w.db) p :=
  h.weaken fun heq => congrArg f heq

variable [Platform]

/-! ### The key-value store -/

namespace KvService

omit [Platform] in
theorem insertRecord_besideRecords {db db' : Database} {owner path now : PyStr} {version id : ℤ}
    (h : db.insertRecord owner path version now = .ok (id, db')) : db'.besideRecords = db.besideRecords := by
  obtain ⟨-, -, rfl⟩ := Database.insertRecord_eq_ok h
  rfl

omit [Platform] in
theorem insertKvVersion_besideRecords {db db' : Database} {id version : ℤ} {nonce ciphertext tag now : PyStr}
    (h : db.insertKvVersion id version nonce ciphertext tag now = .ok db') : db'.besideRecords = db.besideRecords := by
  obtain ⟨_, rfl⟩ := Database.insertKvVersion_eq_ok h
  rfl

theorem appendVersion_besideRecords (owner path : PyStr) {encrypt : ℤ → Act (PyStr × PyStr × PyStr)}
    (hencrypt : ∀ v, Keeps World.db (encrypt v)) :
    Keeps (fun w => w.db.besideRecords) (KvRepository.appendVersion owner path encrypt) := by
  rw [appendVersion_eq]
  refine .bind .now fun now => .connectionDb (.bind (.bind (.query _ _) fun record => ?_) fun ⟨id, version, createdAt⟩ =>
    .bind (hencrypt version).besideDb fun ⟨n, c, t⟩ => .bind (.execute fun w u db h => ?_) fun _ => .pure _)
  · cases record with
    | none => exact .bind (.execute fun w id db h => insertRecord_besideRecords (limitRow_eq_ok.mp h).2) fun _ => .pure _
    | some r =>
      refine .bind (.done _) fun latest => .bind (.execute fun w u db h => ?_) fun _ => .pure _
      obtain ⟨-, rfl⟩ := Prod.mk.inj (Except.ok.inj (limitRow_eq_ok.mp h).2)
      rfl
  · have h := (limitRow_eq_ok.mp h).2
    cases hins : w.db.insertKvVersion id version n c t now with
    | error e => simp [hins, Except.map] at h
    | ok db' =>
      simp only [hins, Except.map, Except.ok.injEq, Prod.mk.injEq, true_and] at h
      rw [← h]
      exact insertKvVersion_besideRecords hins

end KvService

/-- The owner and the path an operation names. -/
def KvOp.target : KvOp → Option (PyStr × PyStr)
  | .write owner path _ _ => some (owner, path)
  | .read owner path _ => some (owner, path)
  | .versions owner path => some (owner, path)
  | .delete owner path => some (owner, path)
  | _ => none

omit [Platform] in
/-- A deletion leaves the other tables. -/
theorem KvService.deleteBody_besideRecords (owner path : PyStr) :
    Keeps (fun w => w.db.besideRecords) (KvRepository.delete owner path) :=
  .connectionDb (.bind (.execute fun w _ db h => by
    obtain ⟨-, rfl⟩ := Prod.mk.inj (Except.ok.inj h)
    rfl) fun _ => .pure _)

/-- **An operation on a path is authorized first**; what follows works on the key-value
tables alone. -/
theorem KvOp.afterAuthorize (passphrase : PyStr) {op : KvOp} {owner path : PyStr} (h : op.target = some (owner, path)) :
    ∃ k : Unit → Act KvAnswer, op.exec passphrase = KvService.authorize owner path >>= k ∧
      ∀ u, Keeps (fun w => w.db.besideRecords) (k u) := by
  cases op with
  | write o p data nonce =>
    obtain ⟨rfl, rfl⟩ := Prod.mk.inj (Option.some.inj h)
    refine ⟨_, Prog.bind_assoc _ _ _, fun _ => .bind (.bind .getDek fun _ => .bind (.done _) fun plaintext =>
      .bind .getDek fun dek => KvService.appendVersion_besideRecords _ _ fun v => ?_) fun _ => .pure _⟩
    exact KvService.encryptFor_keeps (fun _ _ => rfl) dek plaintext _ _ nonce v
  | read o p version =>
    obtain ⟨rfl, rfl⟩ := Prod.mk.inj (Option.some.inj h)
    refine ⟨_, Prog.bind_assoc _ _ _, fun _ => .bind (.bind (.done _) fun requested => .bind .getDek fun _ =>
      .bind (.connectionDb ?_) fun record => ?_) fun _ => .pure _⟩
    · cases requested <;> exact .query _ _
    · rcases record with - | ⟨row, record⟩
      · exact .throw _
      · refine .bind (.mapExc (.bind .getDek fun _ => .done _)) fun decoded => ?_
        cases decoded with
        | obj => exact .bind (.done _) fun _ => .bind (.done _) fun _ => .pure _
        | _ => exact .throw _
  | versions o p =>
    obtain ⟨rfl, rfl⟩ := Prod.mk.inj (Option.some.inj h)
    refine ⟨_, Prog.bind_assoc _ _ _, fun _ => .bind (.bind .getDek fun _ => .bind (.connectionDb (.query _ _))
      fun rows => ?_) fun _ => .pure _⟩
    rcases rows.getLast? with - | ⟨row, record⟩
    · exact .throw _
    · exact .bind (.done _) fun _ => .bind (.done _) fun _ => .pure _
  | delete o p =>
    obtain ⟨rfl, rfl⟩ := Prod.mk.inj (Option.some.inj h)
    exact ⟨_, Prog.bind_assoc _ _ _, fun _ => .bind (.bind .getDek fun _ =>
      .bind (KvService.deleteBody_besideRecords _ _) fun _ => Prog.Sat.ite (fun _ => .throw _) fun _ => .pure _)
        fun _ => .pure _⟩
  | lock | unlock | restart | tick => cases h

/-- The other operations leave the database. -/
theorem KvOp.exec_keepsDb (passphrase : PyStr) {op : KvOp} (h : op.target = none) :
    Keeps World.db (op.exec passphrase) := by
  cases op with
  | write | read | versions | delete => cases h
  | lock => exact .bind (.bind (.change fun _ => rfl) fun _ => VaultService.status_keeps) fun _ => .pure _
  | unlock => exact .bind (VaultService.unlock_keeps fun _ _ => rfl) fun _ => .pure _
  | restart => exact .bind (.change fun _ => rfl) fun _ => .pure _
  | tick time => exact .bind (.change fun _ => rfl) fun _ => .pure _

/-! ### The named keys -/

/-- The owner and the name of the key an operation uses. A token names its key. -/
def TransitOp.target : TransitOp → Option (PyStr × PyStr)
  | .rotateKey owner name _ => some (owner, name)
  | .deleteKey owner name => some (owner, name)
  | .encrypt owner name _ _ => some (owner, name)
  | .decrypt owner ciphertext => (parseCiphertext ciphertext).toOption.map fun parsed => (owner, parsed.keyName)
  | .sign owner name _ _ _ => some (owner, name)
  | .verify owner name _ _ _ _ _ => some (owner, name)
  | _ => none

namespace TransitService

omit [Platform] in
theorem insertVersion_besideKeys {keyId version : ℤ} {wrap : WrapForVersion} {now : PyStr}
    (hwrap : ∀ v, Keeps World.db (wrap.wrap v)) :
    Keeps (fun w => w.db.besideKeys) (NamedKeyRepository.insertVersion keyId version wrap now) := by
  refine .bind (hwrap version).besideDb fun wrapped => .execute fun w u db h => ?_
  cases hins : w.db.insertKeyVersion keyId version wrapped.nonceB64 wrapped.materialB64 wrapped.tagB64
      wrapped.publicKeyB64 now with
  | error e => simp [hins, Except.map] at h
  | ok db' =>
    simp only [hins, Except.map, Except.ok.injEq, Prod.mk.injEq, true_and] at h
    obtain ⟨_, rfl⟩ := Database.insertKeyVersion_eq_ok hins
    rw [← h]
    rfl

omit [Platform] in
theorem create_besideKeys (owner name usage : PyStr) (algorithm : Value) {wrap : WrapForVersion}
    (hwrap : ∀ v, Keeps World.db (wrap.wrap v)) :
    Keeps (fun w => w.db.besideKeys) (NamedKeyRepository.create owner name usage algorithm wrap) := by
  refine .bind .now fun now => .bind (.mapExc (.connectionDb (.bind (.execute fun w id db h => ?_) fun _ =>
    insertVersion_besideKeys hwrap))) fun _ => .bind reads_keep fun row => ?_
  · obtain ⟨-, -, rfl⟩ := Database.insertKey_eq_ok h
    rfl
  · cases row with
    | none => exact .throw _
    | some r => exact .pure _

theorem rotate_besideKeys (owner name : PyStr) {wrap : WrapForVersion} (hwrap : ∀ v, Keeps World.db (wrap.wrap v)) :
    Keeps (fun w => w.db.besideKeys) (NamedKeyRepository.rotate owner name wrap) := by
  refine .bind .now fun now => .bind (.connectionDb (.bind (.query _ _) fun row => ?_)) fun b =>
    Prog.Sat.ite (fun _ => reads_keep) fun _ => .pure _
  cases row with
  | none => exact .pure _
  | some r =>
    refine .bind (.done _) fun _ => .bind (insertVersion_besideKeys hwrap) fun _ => .bind (.execute fun w _ db h => ?_)
      fun _ => .pure _
    obtain ⟨-, rfl⟩ := Prod.mk.inj (Except.ok.inj h)
    rfl

omit [Platform] in
theorem deleteOwned_besideKeys (owner name : PyStr) :
    Keeps (fun w => w.db.besideKeys) (NamedKeyRepository.deleteOwned owner name) :=
  .connectionDb (.bind (.execute fun w _ db h => by
    obtain ⟨-, rfl⟩ := Prod.mk.inj (Except.ok.inj h)
    rfl) fun _ => .pure _)

end TransitService

/-- **An operation on a key finds it first**; what follows works on the tables of the named
keys alone. -/
theorem TransitOp.afterOwnedKey (passphrase : PyStr) {op : TransitOp} {owner name : PyStr}
    (h : op.target = some (owner, name)) :
    ∃ k : NamedKey → Act TransitAnswer, op.exec passphrase = TransitService.ownedKey owner name >>= k ∧
      ∀ r, Keeps (fun w => w.db.besideKeys) (k r) := by
  have husage : ∀ {α : Type} {c : Prop} [Decidable c] {p : Act α} {e : Exc}, Keeps (fun w => w.db.besideKeys) p →
      Keeps (fun w => w.db.besideKeys) (if c then throw e else p) :=
    fun hp => Prog.Sat.ite (fun _ => .throw _) fun _ => hp
  cases op with
  | rotateKey o n coins =>
    obtain ⟨rfl, rfl⟩ := Prod.mk.inj (Option.some.inj h)
    refine ⟨_, Prog.bind_assoc _ _ _, fun keyRow => .bind (.bind .getDek fun _ => .bind
      (TransitService.rotate_besideKeys _ _ fun v => ?_) fun rotated => ?_) fun _ => .pure _⟩
    · obtain ⟨kind, hwrapper⟩ := TransitService.wrapperOf_eq keyRow o n coins
      rw [hwrapper]
      exact TransitService.wrapFor_keeps (fun _ _ => rfl) v
    · cases rotated with
      | none => exact .throw _
      | some row => exact TransitService.metadata_keeps row
  | deleteKey o n =>
    obtain ⟨rfl, rfl⟩ := Prod.mk.inj (Option.some.inj h)
    exact ⟨_, Prog.bind_assoc _ _ _, fun _ => .bind (.bind .getDek fun _ =>
      .bind (TransitService.deleteOwned_besideKeys _ _) fun _ => Prog.Sat.ite (fun _ => .pure _) fun _ => .throw _)
        fun _ => .pure _⟩
  | encrypt o n plaintext nonce =>
    obtain ⟨rfl, rfl⟩ := Prod.mk.inj (Option.some.inj h)
    refine ⟨_, Prog.bind_assoc _ _ _, fun _ => .bind (husage (.bind .getDek fun _ => .bind (.done _) fun _ =>
      .bind (.done _) fun _ => .bind (TransitService.keyVersion_keeps _ _) fun _ =>
        .bind (TransitService.unwrap_keeps _ _) fun _ => husage (.bind (.done _) fun _ =>
          .bind (encryptAesGcm_keeps fun _ _ => rfl) fun _ => .bind (.done _) fun _ => .pure _))) fun _ => .pure _⟩
  | decrypt o ciphertext =>
    cases hparsed : parseCiphertext ciphertext with
    | error e => simp [TransitOp.target, hparsed, Except.toOption] at h
    | ok parsed =>
      simp only [TransitOp.target, hparsed, Except.toOption, Option.map_some, Option.some.injEq, Prod.mk.injEq] at h
      obtain ⟨rfl, rfl⟩ := h
      simp only [TransitOp.exec, TransitService.decrypt, hparsed]
      refine ⟨_, Prog.bind_assoc (TransitService.ownedKey o parsed.keyName) _ _, fun _ => .bind (husage (.bind .getDek
        fun _ => .bind (TransitService.keyVersion_keeps _ _) fun _ => .bind (TransitService.unwrap_keeps _ _) fun _ =>
          .bind (.mapExc (.done _)) fun _ => .pure _)) fun _ => .pure _⟩
  | sign o n message type algorithm =>
    obtain ⟨rfl, rfl⟩ := Prod.mk.inj (Option.some.inj h)
    refine ⟨_, Prog.bind_assoc _ _ _, fun _ => .bind (husage (.bind (husage (.pure _)) fun _ => .bind .getDek fun _ =>
      .bind (.done _) fun _ => .bind (.done _) fun _ => .bind (TransitService.keyVersion_keeps _ _) fun _ =>
        .bind (TransitService.unwrap_keeps _ _) fun _ => husage (.bind (.change fun _ => rfl) fun _ => .pure _)))
          fun _ => .pure _⟩
  | verify o n message type signature algorithm version =>
    obtain ⟨rfl, rfl⟩ := Prod.mk.inj (Option.some.inj h)
    exact ⟨_, Prog.bind_assoc _ _ _, fun _ => .bind (husage (.bind (husage (.pure _)) fun _ => .bind .getDek fun _ =>
      .bind (.done _) fun _ => .bind (TransitService.candidates_keeps _ _) fun _ => .bind (.done _) fun _ => .pure _))
        fun _ => .pure _⟩
  | createKey | createSigningKey | listKeys | lock | unlock | restart | tick => cases h

/-- The other operations work on those tables too. -/
theorem TransitOp.exec_besideKeys (passphrase : PyStr) {op : TransitOp} (h : op.target = none) :
    Keeps (fun w => w.db.besideKeys) (op.exec passphrase) := by
  have hvalid : ∀ name, Keeps (fun w => w.db.besideKeys) (TransitService.validateKeyName name) :=
    fun _ => Prog.Sat.ite (fun _ => .pure _) fun _ => .throw _
  cases op with
  | createKey owner name coins =>
    exact .bind (.bind (hvalid _) fun _ => .bind .getDek fun _ =>
      .bind (TransitService.create_besideKeys _ _ _ _ fun v => TransitService.wrapFor_keeps (fun _ _ => rfl) v)
        fun _ => TransitService.metadata_keeps _) fun _ => .pure _
  | createSigningKey owner name algorithm coins =>
    refine .bind (.bind (hvalid _) fun _ => Prog.Sat.ite (fun _ => .throw _)
      fun _ => Keeps.bind .getDek fun _ => .bind (TransitService.create_besideKeys _ _ _ _ fun v =>
        TransitService.wrapFor_keeps (fun _ _ => rfl) v) fun _ => TransitService.metadata_keeps _) fun _ => .pure _
  | listKeys owner => exact .bind (TransitService.listKeys_keeps _) fun _ => .pure _
  | decrypt owner ciphertext =>
    cases hparsed : parseCiphertext ciphertext with
    | error e =>
      simp only [TransitOp.exec, TransitService.decrypt, hparsed]
      exact .done _
    | ok parsed => simp [TransitOp.target, hparsed, Except.toOption] at h
  | rotateKey | deleteKey | encrypt | sign | verify => cases h
  | lock => exact .bind (.bind (.change fun _ => rfl) fun _ => VaultService.status_keeps) fun _ => .pure _
  | unlock => exact .bind (VaultService.unlock_keeps fun _ _ => rfl) fun _ => .pure _
  | restart => exact .bind (.change fun _ => rfl) fun _ => .pure _
  | tick time => exact .bind (.change fun _ => rfl) fun _ => .pure _

/-! ### Runs -/

/-- An operation of a run. -/
inductive ServiceOp where
  /-- Of the key-value store. -/
  | kv (op : KvOp)
  /-- Of the named keys. -/
  | transit (op : TransitOp)

/-- What an operation answers. -/
inductive ServiceAnswer where
  /-- Of the key-value store. -/
  | kv (a : KvAnswer)
  /-- Of the named keys. -/
  | transit (a : TransitAnswer)

/-- The program of an operation. -/
def ServiceOp.exec (passphrase : PyStr) : ServiceOp → Act ServiceAnswer
  | .kv op => do return .kv (← op.exec passphrase)
  | .transit op => do return .transit (← op.exec passphrase)

/-- A run. -/
def serviceSession (passphrase : PyStr) : World → List ServiceOp → List (ServiceOp × Except Exc ServiceAnswer) × World :=
  Prog.session (ServiceOp.exec passphrase)

/-- The world the services start in: nothing was written yet, and the vault was initialized,
where that succeeds. -/
def serviceStart (environ : PyStr → Option PyStr) (passphrase : PyStr) (coins : VaultService.InitCoins) : World :=
  ((VaultService.initializeVault passphrase coins).run (.fresh environ)).2

/-- Initializing the vault does not touch the database. -/
theorem VaultService.initializeVault_keepsDb (passphrase : PyStr) (coins : InitCoins) :
    Keeps World.db (initializeVault passphrase coins) := by
  refine .bind (.look _ _) fun found => Prog.Sat.ite (fun _ => .throw _) fun _ => ?_
  cases evaluate passphrase with
  | some issue => exact .done _
  | none =>
    exact Keeps.bind (.look _ _) fun parameters => .bind (.done _) fun wrappingKey =>
      .bind (encryptAesGcm_keeps fun _ _ => rfl) fun wrapped => .bind (saveAtomic_keeps _ fun _ _ _ => rfl) fun _ =>
        .bind (.change fun _ => rfl) fun _ => status_keeps

theorem serviceStart_db (environ : PyStr → Option PyStr) (passphrase : PyStr) (coins : VaultService.InitCoins) :
    (serviceStart environ passphrase coins).db = .fresh :=
  (VaultService.initializeVault_keepsDb passphrase coins).run (.fresh environ)

omit [Platform] in
theorem Database.KvSound.of_recordPart {db db' : Database} (h : db.KvSound) (hpart : db'.recordPart = db.recordPart) :
    db'.KvSound := by
  simp only [recordPart, Prod.mk.injEq] at hpart
  exact ⟨by rw [hpart.1, hpart.2]; exact h.toSound, by rw [hpart.1]; exact h.recordCells,
    by rw [hpart.2]; exact h.versionCells⟩

omit [Platform] in
theorem Database.recordPart_of_kvPart {w w' : World} (h : w'.kvPart = w.kvPart) : w'.db.recordPart = w.db.recordPart := by
  simp only [World.kvPart, KvPart.mk.injEq] at h
  simp only [recordPart, h]

/-- An operation of the key-value store leaves its tables in order. -/
theorem KvOp.exec_kvSound (passphrase : PyStr) (op : KvOp) {w : World} (h : w.db.KvSound) :
    ((op.exec passphrase).run w).2.db.KvSound := by
  cases op with
  | write owner path data nonce =>
    simp only [KvOp.exec, run_answer]
    rcases hrun : (KvService.write owner path data nonce).run w with ⟨e | a, w'⟩
    · exact h.of_recordPart (Database.recordPart_of_kvPart (KvService.write_failKeeps owner path data nonce w e w' hrun))
    · obtain ⟨-, -, -, _, _, _, _, -, -, -, -, _, _, _, _, halloc, hins, rfl⟩ := KvService.run_write_eq_ok hrun
      exact (halloc.append h hins).1
  | delete owner path =>
    simp only [KvOp.exec, Prog.run_bind]
    rcases hrun : (KvService.delete owner path).run w with ⟨e | u, w'⟩
    · exact h.of_recordPart (Database.recordPart_of_kvPart (KvService.delete_failKeeps owner path w e w' hrun))
    · obtain ⟨-, -, -, -, -, rfl⟩ := KvService.run_delete_eq_ok hrun
      exact (Database.deleteRecord_spec h owner path).1
  | read owner path version =>
    have hkeep := (Keeps.bind ((KvService.read_keeps owner path version).aside (g := fun w => w.db.recordPart) fun _ => rfl)
      fun r => .pure (KvAnswer.record r)).run w
    exact h.of_recordPart hkeep
  | versions owner path =>
    have hkeep := (Keeps.bind ((KvService.versions_keeps owner path).aside (g := fun w => w.db.recordPart) fun _ => rfl)
      fun r => .pure (KvAnswer.listing r)).run w
    exact h.of_recordPart hkeep
  | lock => exact ((KvOp.lock.exec_keepsDb passphrase rfl).run w).symm ▸ h
  | unlock => exact ((KvOp.unlock.exec_keepsDb passphrase rfl).run w).symm ▸ h
  | restart => exact ((KvOp.restart.exec_keepsDb passphrase rfl).run w).symm ▸ h
  | tick time => exact (((KvOp.tick time).exec_keepsDb passphrase rfl).run w).symm ▸ h

/-- An operation on the named keys leaves the key-value tables. -/
theorem TransitOp.exec_keepsRecords (passphrase : PyStr) (op : TransitOp) :
    Keeps (fun w => w.db.recordPart) (op.exec passphrase) := by
  cases htarget : op.target with
  | none => exact (op.exec_besideKeys passphrase htarget).ofTables Database.recordPart_of_besideKeys
  | some target =>
    obtain ⟨owner, name⟩ := target
    obtain ⟨k, hexec, hk⟩ := op.afterOwnedKey passphrase htarget
    rw [hexec]
    exact .bind ((TransitService.ownedKey_keeps _ _).aside fun _ => rfl) fun r =>
      (hk r).ofTables Database.recordPart_of_besideKeys

/-- **After every run the key-value tables are in order.** -/
theorem kvSound_session (environ : PyStr → Option PyStr) (passphrase : PyStr) (coins : VaultService.InitCoins)
    (ops : List ServiceOp) :
    (serviceSession passphrase (serviceStart environ passphrase coins) ops).2.db.KvSound := by
  refine Prog.session_invariant (I := fun _ (w : World) => w.db.KvSound) ?_ (fun _ w op h => ?_) ops
  · rw [serviceStart_db]
    exact .fresh
  · cases op with
    | kv op =>
      simp only [ServiceOp.exec, run_answer]
      have hsound := op.exec_kvSound passphrase h
      rcases hrun : (op.exec passphrase).run w with ⟨e | a, w'⟩ <;> rw [hrun] at hsound <;> exact hsound
    | transit op =>
      exact h.of_recordPart ((Keeps.bind (op.exec_keepsRecords passphrase) fun a => .pure (ServiceAnswer.transit a)).run w)

end MiniVault
