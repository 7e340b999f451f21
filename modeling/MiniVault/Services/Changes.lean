import MiniVault.Services.Interleavings

/-!
# What a step changes

Every step of every operation leaves the records, the keys and the log, or is the one
transaction of its kind: a write, a deletion, a creation, a rotation, a revocation, an entry of
the log. What a transaction does is said here once, in terms of its statements; what holds of
the tables after any interleaving follows by a case for each transaction.

## What is proved

* `AppOp.exec_changes` — the steps of an operation, with the user they are made for.
* `Ordered.change` — a transaction leaves the tables in order, and takes up room for one row in
  each table at the most.
-/

namespace MiniVault

open Foundations

section Changes

variable [Platform]

/-! ### The transactions -/

/-- A transaction that commits: the database before and after it, and the user it is made for. -/
inductive Change (owner : PyStr) (db : Database) : Database → Prop where
  /-- A write to a path without a record. -/
  | created {path now nonce ciphertext tag : PyStr} {id : ℤ} {db₁ db₂ : Database} :
      extractOwnerEmailFromPath path = .ok owner → db.insertRecord owner path 1 now = .ok (id, db₁) →
        db₁.insertKvVersion id 1 nonce ciphertext tag now = .ok db₂ → Change owner db db₂
  /-- A write to a path with one. -/
  | appended {path now nonce ciphertext tag : PyStr} {r : KvRecord} {latest : ℤ} {db₂ : Database} :
      db.recordAt owner path = some r → pyInt r.latestVersion = .ok latest → Fits (latest + 1) →
        (db.updateRecord (latest + 1) now r.id).insertKvVersion r.id (latest + 1) nonce ciphertext tag now = .ok db₂ →
          Change owner db db₂
  /-- A deletion under a path. -/
  | deleted (path : PyStr) : Change owner db (db.deleteRecord owner path).2
  /-- A key that is made. -/
  | keyCreated {name now nonce material tag : PyStr} {kind : KeyKind} {publicKey : Value} {id : ℤ} {db₁ db₂ : Database} :
      keyNamePattern name → publicKey.decodes → db.insertKey owner name kind.usage kind.algorithm now = .ok (id, db₁) →
        db₁.insertKeyVersion id 1 nonce material tag publicKey now = .ok db₂ → Change owner db db₂
  /-- A key that is rotated. -/
  | keyRotated {name now nonce material tag : PyStr} {publicKey : Value} {r : NamedKey} {latest : ℤ} {db₁ : Database} :
      publicKey.decodes → db.keyAt owner name = some r → pyInt r.latestVersion = .ok latest → Fits (latest + 1) →
        db.insertKeyVersion r.id (latest + 1) nonce material tag publicKey now = .ok db₁ →
          Change owner db (db₁.updateKey (latest + 1) now r.id)
  /-- A key that is revoked. -/
  | keyDeleted (name : PyStr) : Change owner db (db.deleteKey owner name).2
  /-- An entry of the log. -/
  | logged {o : AuditRepository.Occurrence} {now : PyStr} {head : Option AuditLog} {sequence : ℤ} {entryHash : PyStr}
      {db₁ : Database} : o.requesterEmail = some owner → db.selectHead = head →
        AuditRepository.nextSequence head = .ok sequence →
        computeEntryHash (AuditRepository.previousHash head) (o.entry sequence now) = .ok entryHash →
        db.insertLog (o.entry sequence now) (AuditRepository.previousHash head) (.str entryHash) = .ok db₁ →
          Change owner db (db₁.replaceMetadata AuditRepository.headKey (.str entryHash))

/-- A step leaves the tables of the services and the log, or is a transaction of the user's. -/
def Changes {α : Type} (owner : PyStr) (p : Act α) : Prop :=
  p.Sat (fun _ => True) fun _ w w' => w'.db.besideAccounts = w.db.besideAccounts ∨ Change owner w.db w'.db

section Rules

variable {α β : Type} {owner : PyStr}

theorem Changes.bind {p : Act α} {f : α → Act β} (hp : Changes owner p) (hf : ∀ a, Changes owner (f a)) :
    Changes owner (p >>= f) :=
  Prog.Sat.bind hp hf

/-- What leaves the tables changes nothing. -/
theorem Keeps.changes {p : Act α} (h : Keeps (fun w => w.db.besideAccounts) p) : Changes owner p :=
  Prog.Sat.mono h (fun _ => id) fun _ _ _ heq => .inl heq

/-- A transaction changes what it does when it commits. -/
theorem Changes.connection {label : Label} {body : Act α}
    (h : ∀ w a w', body.run w = (.ok a, w') →
      w'.db.besideAccounts = w.db.besideAccounts ∨ Change owner w.db w'.db) :
    Changes owner (MiniVault.connection label body) := by
  refine Prog.Sat.atomic fun w _ => ?_
  show ((MiniVault.connection label body).run w).2.db.besideAccounts = _ ∨
    Change owner w.db ((MiniVault.connection label body).run w).2.db
  rw [run_connection]
  rcases hrun : body.run w with ⟨e | a, w'⟩
  · exact .inl rfl
  · exact h w a w' hrun

end Rules

/-! ### The log -/

omit [Platform] in
/-- A statement that returns nothing stored what it stored. -/
theorem map_eq_ok {x : Except Exc Database} {u : Unit} {db : Database} (h : x.map (fun db => ((), db)) = .ok (u, db)) :
    x = .ok db := by
  rcases x with e | db'
  · cases h
  · exact congrArg Except.ok (Prod.mk.inj (Except.ok.inj h)).2

/-- What a transaction of `log` does. -/
theorem AuditRepository.run_append_change {o : Occurrence} {owner now : PyStr} (h : o.requesterEmail = some owner) {u : Unit}
    {w w' : World} (hrun : (append o now).run w = (.ok u, w')) : Change owner w.db w'.db := by
  obtain ⟨head, _, hq, hrun⟩ := Prog.run_bind_eq_ok.mp hrun
  obtain ⟨-, -, hhead, rfl⟩ := run_query_eq_ok.mp hq
  obtain ⟨sequence, _, hdone, hrun⟩ := Prog.run_bind_eq_ok.mp hrun
  obtain ⟨hsequence, rfl⟩ := Prog.run_done_eq_ok.mp hdone
  obtain ⟨entryHash, _, hdone, hrun⟩ := Prog.run_bind_eq_ok.mp hrun
  obtain ⟨hhash, rfl⟩ := Prog.run_done_eq_ok.mp hdone
  obtain ⟨_, _, hins, hrun⟩ := Prog.run_bind_eq_ok.mp hrun
  obtain ⟨-, db, hdb, rfl⟩ := run_execute_eq_ok.mp hins
  obtain ⟨-, db', hdb', rfl⟩ := run_execute_eq_ok.mp hrun
  obtain ⟨-, rfl⟩ := Prod.mk.inj (Except.ok.inj hdb')
  exact .logged h hhead hsequence hhash (map_eq_ok (limitRow_eq_ok.mp hdb).2)

theorem AuditRepository.log_changes {o : Occurrence} {owner : PyStr} (h : o.requesterEmail = some owner) :
    Changes owner (log o) :=
  .bind Keeps.now.changes fun _ => .connection fun _ _ _ hrun => .inr (run_append_change h hrun)

theorem KvService.authorize_changes (owner path : PyStr) : Changes owner (authorize owner path) :=
  Prog.Sat.ite (fun _ => Changes.bind (AuditRepository.log_changes rfl) fun _ => .throw _) fun _ => .pure _

theorem TransitService.ownedKey_changes (owner name : PyStr) : Changes owner (ownedKey owner name) := by
  refine .bind (Prog.Sat.ite (fun _ => .pure _) fun _ => .throw _) fun _ => .bind (Keeps.changes reads_keep) fun row => ?_
  cases row with
  | none => exact .bind (AuditRepository.log_changes rfl) fun _ => .throw _
  | some r => exact .pure _

/-! ### The key-value store -/

/-- What a transaction of a write does. -/
theorem KvService.run_appendBody_change {owner path now : PyStr} {encrypt : ℤ → Act (PyStr × PyStr × PyStr)}
    (hencrypt : ∀ v, Keeps World.db (encrypt v)) (hown : extractOwnerEmailFromPath path = .ok owner) {a : Appended}
    {w w' : World} (h : (appendBody owner path now encrypt).run w = (.ok a, w')) : Change owner w.db w'.db := by
  obtain ⟨⟨id, version, createdAt⟩, w₁, halloc, h⟩ := Prog.run_bind_eq_ok.mp h
  obtain ⟨⟨n, c, t⟩, w₂, hwrap, h⟩ := Prog.run_bind_eq_ok.mp h
  obtain ⟨_, _, hins, h⟩ := Prog.run_bind_eq_ok.mp h
  obtain ⟨-, db, hdb, rfl⟩ := run_execute_eq_ok.mp hins
  obtain ⟨-, rfl⟩ := Prod.mk.inj h
  have hsame : w₂.db = w₁.db := (congrArg (fun r => r.2.db) hwrap).symm.trans ((hencrypt version).run w₁)
  have hinsert := map_eq_ok (limitRow_eq_ok.mp hdb).2
  rw [hsame] at hinsert
  unfold KvRepository.allocate at halloc
  obtain ⟨record, _, hq, halloc⟩ := Prog.run_bind_eq_ok.mp halloc
  obtain ⟨-, -, hrecord, rfl⟩ := run_query_eq_ok.mp hq
  cases record with
  | none =>
    obtain ⟨id', _, hexec, halloc⟩ := Prog.run_bind_eq_ok.mp halloc
    obtain ⟨-, db₁, hdb₁, rfl⟩ := run_execute_eq_ok.mp hexec
    simp only [Prog.run_pure, Prod.mk.injEq, Except.ok.injEq] at halloc
    obtain ⟨⟨rfl, rfl, rfl⟩, rfl⟩ := halloc
    exact .created hown (limitRow_eq_ok.mp hdb₁).2 hinsert
  | some r =>
    obtain ⟨latest, _, hint, halloc⟩ := Prog.run_bind_eq_ok.mp halloc
    obtain ⟨hlatest, rfl⟩ := Prog.run_done_eq_ok.mp hint
    obtain ⟨_, _, hexec, halloc⟩ := Prog.run_bind_eq_ok.mp halloc
    obtain ⟨hbound, db₁, hdb₁, rfl⟩ := run_execute_eq_ok.mp hexec
    simp only [Prog.run_pure, Prod.mk.injEq, Except.ok.injEq] at halloc
    obtain ⟨⟨rfl, rfl, rfl⟩, rfl⟩ := halloc
    obtain ⟨-, rfl⟩ := Prod.mk.inj (Except.ok.inj (limitRow_eq_ok.mp hdb₁).2)
    exact .appended ((Database.selectRecord_eq _ _ _).symm.trans hrecord) hlatest
      ((bindValue_int_iff _).mp (bindAll_eq_ok hbound _ List.mem_cons_self)) hinsert

/-- What a transaction that deletes does. -/
theorem KvService.run_deleteBody_change {owner path : PyStr} {b : Bool} {w w' : World}
    (h : (execute [.str owner, .str path] (fun db => .ok (db.deleteRecord owner path)) >>= fun rowcount =>
      pure (decide (rowcount > 0)) : Act Bool).run w = (.ok b, w')) : Change owner w.db w'.db := by
  obtain ⟨_, _, hexecute, h⟩ := Prog.run_bind_eq_ok.mp h
  obtain ⟨-, db, hdb, rfl⟩ := run_execute_eq_ok.mp hexecute
  obtain ⟨-, rfl⟩ := Prod.mk.inj (Except.ok.inj hdb)
  obtain ⟨-, rfl⟩ := Prod.mk.inj h
  exact .deleted path

namespace KvService

theorem write_changes (owner path : PyStr) (data : List (PyStr × Json)) (nonce : Nonce) :
    Changes owner (write owner path data nonce) := by
  by_cases hown : extractOwnerEmailFromPath path = .ok owner
  · refine .bind (authorize_changes _ _) fun _ => .bind Keeps.getDek.changes fun _ => .bind (Keeps.done _).changes
      fun plaintext => .bind Keeps.getDek.changes fun dek => ?_
    rw [appendVersion_eq]
    refine .bind Keeps.now.changes fun now => .connection fun w a w' hrun => .inr ?_
    exact run_appendBody_change (fun v => encryptFor_keeps (fun _ _ => rfl) dek plaintext owner path nonce v) hown hrun
  · have hauth : authorize owner path = AuditRepository.logDeniedAccess owner (py "kv_path") path >>= fun _ =>
        throw .permissionDeniedError := by
      have hother : (extractOwnerEmailFromPath path).toOption ≠ some owner := by
        rcases hx : extractOwnerEmailFromPath path with e | o
        · simp [Except.toOption]
        · rw [hx] at hown
          simpa [Except.toOption] using hown
      simp only [authorize, hother, ne_eq, not_false_eq_true, ↓reduceIte]
    unfold write
    rw [hauth, Prog.bind_assoc]
    exact .bind (AuditRepository.log_changes rfl) fun _ => .throw _

theorem delete_changes (owner path : PyStr) : Changes owner (delete owner path) := by
  refine .bind (authorize_changes _ _) fun _ => .bind Keeps.getDek.changes fun _ =>
    .bind (.connection fun w b w' hrun => .inr (run_deleteBody_change hrun)) fun deleted =>
      Prog.Sat.ite (fun _ => .throw _) fun _ => .pure _

theorem read_changes (owner path : PyStr) (version : Option ℤ) : Changes owner (read owner path version) := by
  refine .bind (authorize_changes _ _) fun _ => Keeps.changes (.bind (.done _) fun requested => .bind .getDek fun _ =>
    .bind (.connectionDb ?_) fun record => ?_)
  · cases requested <;> exact .query _ _
  · rcases record with - | ⟨row, record⟩
    · exact .throw _
    · refine .bind (.mapExc (.bind .getDek fun _ => .done _)) fun decoded => ?_
      cases decoded with
      | obj => exact .bind (.done _) fun _ => .bind (.done _) fun _ => .pure _
      | _ => exact .throw _

theorem versions_changes (owner path : PyStr) : Changes owner (versions owner path) := by
  refine .bind (authorize_changes _ _) fun _ => Keeps.changes (.bind .getDek fun _ => .bind (.connectionDb (.query _ _))
    fun rows => ?_)
  rcases rows.getLast? with - | ⟨row, record⟩
  · exact .throw _
  · exact .bind (.done _) fun _ => .bind (.done _) fun _ => .pure _

end KvService

/-- The user that an operation on a path is made for. -/
def KvOp.requester (op : KvOp) : Option PyStr := op.target.map Prod.fst

/-- **The steps of an operation on a path** leave the tables, or change what is its user's. -/
theorem KvOp.exec_changes (passphrase : PyStr) {op : KvOp} {owner : PyStr} (h : op.requester = some owner) :
    Changes owner (op.exec passphrase) := by
  cases op with
  | write o path data nonce =>
    obtain rfl := Option.some.inj h
    exact .bind (KvService.write_changes _ _ _ _) fun _ => .pure _
  | read o path version =>
    obtain rfl := Option.some.inj h
    exact .bind (KvService.read_changes _ _ _) fun _ => .pure _
  | versions o path =>
    obtain rfl := Option.some.inj h
    exact .bind (KvService.versions_changes _ _) fun _ => .pure _
  | delete o path =>
    obtain rfl := Option.some.inj h
    exact .bind (KvService.delete_changes _ _) fun _ => .pure _
  | _ => cases h

/-! ### The named keys -/

namespace TransitService

variable {owner name : PyStr} {kind : KeyKind} {coins : KeyCoins}

/-- What a transaction that makes a key does. -/
theorem run_createBody_change {now : PyStr} {wrap : WrapForVersion} (hwrap : ∀ v, Keeps World.db (wrap.wrap v))
    (hname : keyNamePattern name) {u : Unit} {w w' : World}
    (h : (NamedKeyRepository.createBody owner name kind.usage kind.algorithm wrap now).run w = (.ok u, w')) :
    Change owner w.db w'.db := by
  unfold NamedKeyRepository.createBody at h
  obtain ⟨id, _, hins, h⟩ := Prog.run_bind_eq_ok.mp h
  obtain ⟨-, db₁, hdb₁, rfl⟩ := run_execute_eq_ok.mp hins
  unfold NamedKeyRepository.insertVersion at h
  obtain ⟨wrapped, w₂, hwrapped, h⟩ := Prog.run_bind_eq_ok.mp h
  obtain ⟨hbind, db₂, hdb₂, rfl⟩ := run_execute_eq_ok.mp h
  have hpublic := decodes_of_bindValue (bindAll_eq_ok hbind wrapped.publicKeyB64 (by simp))
  have hsame : w₂.db = db₁ := (congrArg (fun r => r.2.db) hwrapped).symm.trans ((hwrap 1).run _)
  rw [hsame] at hdb₂
  exact .keyCreated hname hpublic hdb₁ (map_eq_ok hdb₂)

/-- What a transaction that rotates a key does. -/
theorem run_rotateBody_change {now : PyStr} {wrap : WrapForVersion} (hwrap : ∀ v, Keeps World.db (wrap.wrap v)) {b : Bool}
    {w w' : World} (h : (NamedKeyRepository.rotateBody owner name wrap now).run w = (.ok b, w')) :
    (b = false ∧ w' = w) ∨ Change owner w.db w'.db := by
  unfold NamedKeyRepository.rotateBody at h
  obtain ⟨row, _, hq, h⟩ := Prog.run_bind_eq_ok.mp h
  obtain ⟨-, -, hrow, rfl⟩ := run_query_eq_ok.mp hq
  cases row with
  | none =>
    simp only [Prog.run_pure, Prod.mk.injEq, Except.ok.injEq] at h
    exact .inl ⟨h.1.symm, h.2.symm⟩
  | some r =>
    obtain ⟨latest, _, hint, h⟩ := Prog.run_bind_eq_ok.mp h
    obtain ⟨hlatest, rfl⟩ := Prog.run_done_eq_ok.mp hint
    obtain ⟨_, _, hins, h⟩ := Prog.run_bind_eq_ok.mp h
    unfold NamedKeyRepository.insertVersion at hins
    obtain ⟨wrapped, w₂, hwrapped, hins⟩ := Prog.run_bind_eq_ok.mp hins
    obtain ⟨hbind, db₂, hdb₂, rfl⟩ := run_execute_eq_ok.mp hins
    have hpublic := decodes_of_bindValue (bindAll_eq_ok hbind wrapped.publicKeyB64 (by simp))
    have hsame : w₂.db = w.db := (congrArg (fun r => r.2.db) hwrapped).symm.trans ((hwrap (latest + 1)).run w)
    rw [hsame] at hdb₂
    obtain ⟨_, _, hupdate, h⟩ := Prog.run_bind_eq_ok.mp h
    obtain ⟨hbound, db₃, hdb₃, rfl⟩ := run_execute_eq_ok.mp hupdate
    obtain ⟨-, rfl⟩ := Prod.mk.inj (Except.ok.inj hdb₃)
    obtain ⟨-, rfl⟩ := Prod.mk.inj h
    exact .inr (.keyRotated hpublic ((Database.selectKey_eq _ _ _).symm.trans hrow) hlatest
      ((bindValue_int_iff _).mp (bindAll_eq_ok hbound _ List.mem_cons_self)) (map_eq_ok hdb₂))

/-- What a transaction that revokes a key does. -/
theorem run_deleteBody_change {b : Bool} {w w' : World}
    (h : (execute [.str owner, .str name] (fun db => .ok (db.deleteKey owner name)) >>= fun rowcount =>
      pure (decide (rowcount > 0)) : Act Bool).run w = (.ok b, w')) : Change owner w.db w'.db := by
  obtain ⟨_, _, hexecute, h⟩ := Prog.run_bind_eq_ok.mp h
  obtain ⟨-, db, hdb, rfl⟩ := run_execute_eq_ok.mp hexecute
  obtain ⟨-, rfl⟩ := Prod.mk.inj (Except.ok.inj hdb)
  obtain ⟨-, rfl⟩ := Prod.mk.inj h
  exact .keyDeleted name

theorem create_changes (kind : KeyKind) (hname : keyNamePattern name) : Changes owner
    (NamedKeyRepository.create owner name kind.usage kind.algorithm (wrapFor kind owner name coins)) := by
  refine .bind Keeps.now.changes fun now => .bind (Prog.Sat.handle (Changes.connection fun w u w' hrun =>
    .inr (run_createBody_change (fun v => wrapFor_keeps (fun _ _ => rfl) v) hname hrun))
      fun e => Prog.Sat.ite (fun _ => .throw _) fun _ => .throw _) fun _ => .bind (Keeps.changes reads_keep) fun row => ?_
  cases row with
  | none => exact Prog.Sat.throw _
  | some row => exact Prog.Sat.pure _

/-- What follows the check of a name comes to nothing where the name is not valid. -/
theorem Changes.named {α : Type} {k : Unit → Act α} (h : keyNamePattern name → Changes owner (k ())) :
    Changes owner (validateKeyName name >>= k) := by
  unfold validateKeyName
  split_ifs with hname
  · exact h hname
  · exact .throw _

theorem createKey_changes (owner name : PyStr) (coins : KeyCoins) : Changes owner (createKey owner name coins) :=
  Changes.named fun hname => .bind Keeps.getDek.changes fun _ =>
    .bind (create_changes .aes hname) fun row => (metadata_keeps row).changes

theorem createSigningKey_changes (owner name algorithm : PyStr) (coins : KeyCoins) :
    Changes owner (createSigningKey owner name algorithm coins) :=
  Changes.named fun hname => Prog.Sat.ite (fun _ => .throw _) fun _ => Changes.bind Keeps.getDek.changes fun _ =>
    .bind (create_changes .ed25519 hname) fun row => (metadata_keeps row).changes

theorem rotateKey_changes (owner name : PyStr) (coins : KeyCoins) : Changes owner (rotateKey owner name coins) := by
  refine .bind (ownedKey_changes _ _) fun keyRow => .bind Keeps.getDek.changes fun _ => .bind ?_ fun rotated => ?_
  · obtain ⟨kind, hwrapper⟩ := wrapperOf_eq keyRow owner name coins
    rw [hwrapper]
    refine .bind Keeps.now.changes fun now => .bind (.connection fun w b w' hrun => ?_)
      fun rotated => Prog.Sat.ite (fun _ => Keeps.changes reads_keep) fun _ => .pure _
    rcases run_rotateBody_change (fun v => wrapFor_keeps (fun _ _ => rfl) v) hrun with ⟨-, rfl⟩ | hchange
    · exact .inl rfl
    · exact .inr hchange
  · cases rotated with
    | none => exact Prog.Sat.throw _
    | some row => exact (metadata_keeps row).changes

theorem deleteKey_changes (owner name : PyStr) : Changes owner (deleteKey owner name) := by
  refine .bind (ownedKey_changes _ _) fun _ => .bind Keeps.getDek.changes fun _ =>
    .bind (.connection fun w b w' hrun => .inr (run_deleteBody_change hrun)) fun deleted =>
      Prog.Sat.ite (fun _ => .pure _) fun _ => .throw _

theorem encrypt_changes (owner name plaintextB64 : PyStr) (nonce : Nonce) :
    Changes owner (encrypt owner name plaintextB64 nonce) :=
  .bind (ownedKey_changes _ _) fun _ => Prog.Sat.ite (fun _ => .throw _) fun _ =>
    Keeps.changes (.bind .getDek fun _ => .bind (.done _) fun _ => .bind (.done _) fun _ =>
      .bind (keyVersion_keeps _ _) fun _ => .bind (unwrap_keeps _ _) fun _ =>
        Prog.Sat.ite (fun _ => .throw _) fun _ => Keeps.bind (.done _) fun _ =>
          .bind (encryptAesGcm_keeps fun _ _ => rfl) fun _ => .bind (.done _) fun _ => .pure _)

theorem decrypt_changes (owner ciphertext : PyStr) : Changes owner (decrypt owner ciphertext) :=
  .bind (Keeps.done _).changes fun _ => .bind (ownedKey_changes _ _) fun _ => Prog.Sat.ite (fun _ => .throw _)
    fun _ => Keeps.changes (.bind .getDek fun _ => .bind (keyVersion_keeps _ _) fun _ =>
      .bind (unwrap_keeps _ _) fun _ => .bind (.mapExc (.done _)) fun _ => .pure _)

theorem sign_changes (owner name messageB64 messageType algorithm : PyStr) :
    Changes owner (sign owner name messageB64 messageType algorithm) :=
  .bind (ownedKey_changes _ _) fun _ => Prog.Sat.ite (fun _ => .throw _) fun _ =>
    Changes.bind (Prog.Sat.ite (fun _ => .throw _) fun _ => .pure _) fun _ =>
      Keeps.changes (.bind .getDek fun _ => .bind (.done _) fun _ => .bind (.done _) fun _ =>
        .bind (keyVersion_keeps _ _) fun _ => .bind (unwrap_keeps _ _) fun _ =>
          Prog.Sat.ite (fun _ => .throw _) fun _ => Keeps.bind (.change fun _ => rfl) fun _ => .pure _)

theorem verify_changes (owner name messageB64 messageType signatureB64 algorithm : PyStr) (version : Option ℤ) :
    Changes owner (verify owner name messageB64 messageType signatureB64 algorithm version) :=
  .bind (ownedKey_changes _ _) fun _ => Prog.Sat.ite (fun _ => .throw _) fun _ =>
    Changes.bind (Prog.Sat.ite (fun _ => .throw _) fun _ => .pure _) fun _ =>
      Keeps.changes (.bind .getDek fun _ => .bind (.done _) fun _ => .bind (candidates_keeps _ _) fun _ =>
        .bind (.done _) fun _ => .pure _)

end TransitService

/-- The user that an operation on a key is made for. -/
def TransitOp.requester : TransitOp → Option PyStr
  | .createKey owner _ _ => some owner
  | .createSigningKey owner _ _ _ => some owner
  | .rotateKey owner _ _ => some owner
  | .deleteKey owner _ => some owner
  | .listKeys owner => some owner
  | .encrypt owner _ _ _ => some owner
  | .decrypt owner _ => some owner
  | .sign owner _ _ _ _ => some owner
  | .verify owner _ _ _ _ _ _ => some owner
  | _ => none

/-- **The steps of an operation on a key** leave the tables, or change what is its user's. -/
theorem TransitOp.exec_changes (passphrase : PyStr) {op : TransitOp} {owner : PyStr} (h : op.requester = some owner) :
    Changes owner (op.exec passphrase) := by
  cases op with
  | createKey o name coins =>
    obtain rfl := Option.some.inj h
    exact .bind (TransitService.createKey_changes _ _ _) fun _ => .pure _
  | createSigningKey o name algorithm coins =>
    obtain rfl := Option.some.inj h
    exact .bind (TransitService.createSigningKey_changes _ _ _ _) fun _ => .pure _
  | rotateKey o name coins =>
    obtain rfl := Option.some.inj h
    exact .bind (TransitService.rotateKey_changes _ _ _) fun _ => .pure _
  | deleteKey o name =>
    obtain rfl := Option.some.inj h
    exact .bind (TransitService.deleteKey_changes _ _) fun _ => .pure _
  | listKeys o =>
    obtain rfl := Option.some.inj h
    exact .bind (TransitService.listKeys_keeps _).changes fun _ => .pure _
  | encrypt o name plaintext nonce =>
    obtain rfl := Option.some.inj h
    exact .bind (TransitService.encrypt_changes _ _ _ _) fun _ => .pure _
  | decrypt o ciphertext =>
    obtain rfl := Option.some.inj h
    exact .bind (TransitService.decrypt_changes _ _) fun _ => .pure _
  | sign o name message type algorithm =>
    obtain rfl := Option.some.inj h
    exact .bind (TransitService.sign_changes _ _ _ _ _) fun _ => .pure _
  | verify o name message type signature algorithm version =>
    obtain rfl := Option.some.inj h
    exact .bind (TransitService.verify_changes _ _ _ _ _ _ _) fun _ => .pure _
  | _ => cases h

/-! ### All operations -/

/-- The user that an operation is made for, where it is one of the services'. -/
def AppOp.requester : AppOp → Option PyStr
  | .service _ (.kv op) => op.requester
  | .service _ (.transit op) => op.requester
  | _ => none

/-- **The steps of an operation of the services** leave the tables, or change what is its user's. -/
theorem AppOp.exec_changes {op : AppOp} {owner : PyStr} (h : op.requester = some owner) : Changes owner op.exec := by
  cases op with
  | service passphrase op =>
    cases op with
    | kv op => exact .bind (.bind (op.exec_changes passphrase h) fun _ => .pure _) fun _ => .pure _
    | transit op => exact .bind (.bind (op.exec_changes passphrase h) fun _ => .pure _) fun _ => .pure _
  | _ => cases h

/-- The other operations leave them. -/
theorem AppOp.exec_besideAccounts {op : AppOp} (h : op.requester = none) :
    Keeps (fun w => w.db.besideAccounts) op.exec := by
  by_cases hop : ∃ passphrase service, op = .service passphrase service
  · obtain ⟨passphrase, service, rfl⟩ := hop
    have hstep : Keeps (fun w => w.db.besideAccounts) (service.exec passphrase) := by
      cases service with
      | kv op =>
        have htarget : op.target = none := Option.map_eq_none_iff.mp h
        exact .bind (op.exec_keepsDb passphrase htarget).besideDb fun _ => .pure _
      | transit op =>
        refine .bind ?_ fun _ => .pure _
        cases op with
        | lock => exact .bind (.bind (.change fun _ => rfl) fun _ => VaultService.status_keeps) fun _ => .pure _
        | unlock => exact .bind (VaultService.unlock_keeps fun _ _ => rfl) fun _ => .pure _
        | restart => exact .bind (.change fun _ => rfl) fun _ => .pure _
        | tick time => exact .bind (.change fun _ => rfl) fun _ => .pure _
        | _ => cases h
    exact .bind hstep fun _ => .pure _
  · simp only [not_exists] at hop
    exact AppOp.exec_keepsRest (fun _ _ h => h) hop

end Changes

/-! ### Room -/

/-- The identifiers are those that were given out, and there are `n` more. -/
structure Table.Roomy {ρ : Type} (t : Table ρ) (id : ρ → ℤ) (n : ℕ) : Prop where
  /-- They are counted from one. -/
  nonneg : 0 ≤ t.seq
  /-- A row has one of them. -/
  ids : ∀ r ∈ t.rows, 0 < id r ∧ id r ≤ t.seq
  /-- The rest. -/
  room : t.seq + n < 2 ^ 63

namespace Table.Roomy

variable {ρ : Type} {t : Table ρ} {id : ρ → ℤ} {n : ℕ} {r : ρ}

theorem empty (hn : n < 2 ^ 63) : (Table.empty : Table ρ).Roomy id n where
  nonneg := le_refl 0
  ids r hr := absurd hr (List.not_mem_nil)
  room := by
    show (0 : ℤ) + n < 2 ^ 63
    omega

theorem of_succ (h : t.Roomy id (n + 1)) : t.Roomy id n :=
  ⟨h.nonneg, h.ids, by have := h.room; push_cast at this; omega⟩

/-- **The next identifier** follows the last one given out. -/
theorem nextId (h : t.Roomy id (n + 1)) : t.nextId id = .ok (t.seq + 1) := by
  have hmax : ∀ (is : List ℤ) (m : ℤ), (∀ i ∈ is, i ≤ m) → is.foldl max m = m := by
    intro is m his
    induction is with
    | nil => rfl
    | cons i is ih =>
      rw [List.foldl_cons, max_eq_left (his i List.mem_cons_self)]
      exact ih fun j hj => his j (List.mem_cons_of_mem _ hj)
  have hids : (t.rows.map id).foldl max t.seq = t.seq := by
    apply hmax _ _
    intro i hi
    obtain ⟨r, hr, rfl⟩ := List.mem_map.mp hi
    exact (h.ids r hr).2
  have hroom := h.room
  push_cast at hroom
  unfold Table.nextId
  rw [hids]
  exact if_pos (by omega)

/-- A row with the next identifier. -/
theorem push (h : t.Roomy id (n + 1)) (hr : id r = t.seq + 1) : (⟨t.rows ++ [r], t.seq + 1⟩ : Table ρ).Roomy id n where
  nonneg := by
    have := h.nonneg
    show 0 ≤ t.seq + 1
    omega
  ids r' hr' := by
    have hnonneg := h.nonneg
    rcases List.mem_append.mp hr' with hr' | hr'
    · have := h.ids r' hr'
      show 0 < id r' ∧ id r' ≤ t.seq + 1
      omega
    · rw [List.mem_singleton.mp hr', hr]
      show 0 < t.seq + 1 ∧ t.seq + 1 ≤ t.seq + 1
      omega
  room := by
    have := h.room
    push_cast at this
    show t.seq + 1 + (n : ℤ) < 2 ^ 63
    omega

/-- Rows that are changed or dropped, with the identifiers they have. -/
theorem of_ids {rows : List ρ} (h : t.Roomy id n) (hrows : ∀ r ∈ rows, ∃ r' ∈ t.rows, id r = id r') :
    (⟨rows, t.seq⟩ : Table ρ).Roomy id n :=
  ⟨h.nonneg, fun r hr => by
    obtain ⟨r', hr', heq⟩ := hrows r hr
    rw [heq]
    exact h.ids r' hr', h.room⟩

/-- An identifier that was given out fits into a cell. -/
theorem fits (h : t.Roomy id n) (hr : r ∈ t.rows) : Fits (id r) := by
  obtain ⟨hpos, hle⟩ := h.ids r hr
  have := h.room
  unfold Fits
  omega

end Table.Roomy
section Ordered

variable {db db' : Database} {n : ℕ}

/-- A row is stored under the next identifier. -/
theorem Database.insertRecord_nextId {owner path now : PyStr} {version id : ℤ}
    (h : db.insertRecord owner path version now = .ok (id, db')) : db.kvRecords.nextId KvRecord.id = .ok id := by
  unfold insertRecord at h
  split_ifs at h
  · cases h
  · obtain ⟨i, hid, h⟩ := bind_eq_ok.mp h
    obtain ⟨rfl, -⟩ := Prod.mk.inj (Except.ok.inj h)
    exact hid

theorem Database.insertKvVersion_row {recordId version : ℤ} {nonce ciphertext tag now : PyStr}
    (h : db.insertKvVersion recordId version nonce ciphertext tag now = .ok db') :
    ∃ id, db.kvVersions.nextId KvVersion.id = .ok id ∧ db' = { db with
      kvVersions := ⟨db.kvVersions.rows ++
        [⟨id, .int recordId, .int version, .str nonce, .str ciphertext, .str tag, .str now⟩], id⟩ } := by
  unfold insertKvVersion at h
  split_ifs at h
  · cases h
  · cases h
  · cases h
  · obtain ⟨id, hid, h⟩ := bind_eq_ok.mp h
    exact ⟨id, hid, (Except.ok.inj h).symm⟩

theorem Database.insertKey_nextId {owner name usage now : PyStr} {algorithm : Value} {id : ℤ}
    (h : db.insertKey owner name usage algorithm now = .ok (id, db')) : db.namedKeys.nextId NamedKey.id = .ok id := by
  unfold insertKey at h
  split_ifs at h
  · cases h
  · obtain ⟨i, hid, h⟩ := bind_eq_ok.mp h
    obtain ⟨rfl, -⟩ := Prod.mk.inj (Except.ok.inj h)
    exact hid

theorem Database.insertKeyVersion_row {keyId version : ℤ} {nonce material tag now : PyStr} {publicKey : Value}
    (h : db.insertKeyVersion keyId version nonce material tag publicKey now = .ok db') :
    ∃ id, db.namedKeyVersions.nextId NamedKeyVersion.id = .ok id ∧ db' = { db with
      namedKeyVersions := ⟨db.namedKeyVersions.rows ++
        [⟨id, .int keyId, .int version, .str nonce, .str material, .str tag, publicKey, .str now⟩], id⟩ } := by
  unfold insertKeyVersion at h
  split_ifs at h
  · cases h
  · cases h
  · cases h
  · obtain ⟨id, hid, h⟩ := bind_eq_ok.mp h
    exact ⟨id, hid, (Except.ok.inj h).symm⟩

variable [Platform]

/-- The tables are in order, and each has room for `n` more rows. -/
structure Ordered (n : ℕ) (db : Database) : Prop where
  /-- The key-value store. -/
  records : db.KvSound
  /-- The named keys. -/
  keys : KeysFit db
  /-- The log. -/
  log : LogInOrder db
  /-- `kv_records`. -/
  kvRecords : db.kvRecords.Roomy KvRecord.id n
  /-- `kv_versions`. -/
  kvVersions : db.kvVersions.Roomy KvVersion.id n
  /-- `named_keys`. -/
  namedKeys : db.namedKeys.Roomy NamedKey.id n
  /-- `named_key_versions`. -/
  namedKeyVersions : db.namedKeyVersions.Roomy NamedKeyVersion.id n
  /-- `audit_logs`. -/
  auditLogs : db.auditLogs.Roomy AuditLog.id n
  /-- An entry took an identifier. -/
  entries : (db.auditLogs.rows.length : ℤ) ≤ db.auditLogs.seq

namespace Ordered

theorem fresh (hn : n < 2 ^ 63) : Ordered n .fresh :=
  ⟨.fresh, .fresh, .fresh, .empty hn, .empty hn, .empty hn, .empty hn, .empty hn, le_refl 0⟩

theorem of_succ (h : Ordered (n + 1) db) : Ordered n db :=
  ⟨h.records, h.keys, h.log, h.kvRecords.of_succ, h.kvVersions.of_succ, h.namedKeys.of_succ, h.namedKeyVersions.of_succ,
    h.auditLogs.of_succ, h.entries⟩

theorem of_besideAccounts (h : Ordered n db) (heq : db'.besideAccounts = db.besideAccounts) : Ordered n db' := by
  obtain ⟨hrecords, hkeys, hlog⟩ := Database.parts_of_besideAccounts heq
  simp only [Database.recordPart, Database.keyTables, Prod.mk.injEq] at hrecords hkeys
  have hlogs : db'.auditLogs = db.auditLogs := (Prod.mk.inj hlog).1
  exact ⟨h.records.of_recordPart (Prod.ext hrecords.1 hrecords.2), h.keys.of_tables hkeys.1 hkeys.2, h.log.of_logPart hlog,
    hrecords.1 ▸ h.kvRecords, hrecords.2 ▸ h.kvVersions, hkeys.1 ▸ h.namedKeys, hkeys.2 ▸ h.namedKeyVersions,
    hlogs ▸ h.auditLogs, hlogs ▸ h.entries⟩

/-- The table of the log has room for an entry. -/
theorem hasRoom (h : Ordered (n + 1) db) : AuditRepository.HasRoom db := by
  have hroom := h.auditLogs.room
  have hentries := h.entries
  push_cast at hroom
  refine ⟨?_, _, h.auditLogs.nextId⟩
  unfold Fits
  omega

/-- **A transaction leaves the tables in order**, and takes up room for one row in each table at the most. -/
theorem change (h : Ordered (n + 1) db) {owner : PyStr} (hchange : Change owner db db') : Ordered n db' := by
  cases hchange with
  | @created path now nonce ciphertext tag id db₁ db₂ _ hins hversion =>
    have hid := Except.ok.inj ((Database.insertRecord_nextId hins).symm.trans h.kvRecords.nextId)
    obtain ⟨hnone, hlt, rfl⟩ := Database.insertRecord_eq_ok hins
    obtain ⟨hsound, hframe, -⟩ := Database.Allocated.append (.created id hnone hlt) h.records hversion
    obtain ⟨vid, hvid, rfl⟩ := Database.insertKvVersion_row hversion
    obtain rfl := Except.ok.inj (hvid.symm.trans h.kvVersions.nextId)
    subst hid
    exact ⟨hsound, h.keys.of_tables rfl rfl, h.log.of_logPart rfl, h.kvRecords.push rfl, h.kvVersions.push rfl,
      h.namedKeys.of_succ, h.namedKeyVersions.of_succ, h.auditLogs.of_succ, h.entries⟩
  | @appended path now nonce ciphertext tag r latest db₂ hr hlatest hfits hversion =>
    obtain ⟨hsound, hframe, -⟩ := Database.Allocated.append (.bumped r latest hr hlatest hfits) h.records hversion
    obtain ⟨vid, hvid, rfl⟩ := Database.insertKvVersion_row hversion
    obtain rfl := Except.ok.inj (hvid.symm.trans h.kvVersions.nextId)
    refine ⟨hsound, h.keys.of_tables rfl rfl, h.log.of_logPart rfl, h.kvRecords.of_succ.of_ids fun g hg => ?_,
      h.kvVersions.push rfl, h.namedKeys.of_succ, h.namedKeyVersions.of_succ, h.auditLogs.of_succ, h.entries⟩
    obtain ⟨g₀, hg₀, rfl⟩ := List.mem_map.mp hg
    exact ⟨g₀, hg₀, by split_ifs <;> rfl⟩
  | deleted path =>
    obtain ⟨hsound, hframe, -⟩ := Database.deleteRecord_spec h.records owner path
    exact ⟨hsound, h.keys.of_tables rfl rfl, h.log.of_logPart rfl,
      h.kvRecords.of_succ.of_ids fun g hg => ⟨g, (List.mem_filter.mp hg).1, rfl⟩,
      h.kvVersions.of_succ.of_ids fun g hg => ⟨g, (List.mem_filter.mp hg).1, rfl⟩,
      h.namedKeys.of_succ, h.namedKeyVersions.of_succ, h.auditLogs.of_succ, h.entries⟩
  | @keyCreated name now nonce material tag kind publicKey id db₁ db₂ _ hpublic hins hversion =>
    have hid := Except.ok.inj ((Database.insertKey_nextId hins).symm.trans h.namedKeys.nextId)
    obtain ⟨hnone, hlt, rfl⟩ := Database.insertKey_eq_ok hins
    obtain ⟨vid, hvid, rfl⟩ := Database.insertKeyVersion_row hversion
    obtain rfl := Except.ok.inj (hvid.symm.trans h.namedKeyVersions.nextId)
    have hpush := h.namedKeys.push (r := NamedKeyRepository.newKey id owner name kind.usage kind.algorithm now) hid
    subst hid
    have hfits : Fits (db.namedKeys.seq + 1) := hpush.fits (List.mem_append_right _ List.mem_cons_self)
    exact ⟨h.records.of_recordPart rfl,
      @KeysFit.create _ _ _ _ _ _ h.keys _ (db.namedKeyVersions.seq + 1) ⟨nonce, material, tag, publicKey⟩
        kind.decodes_algorithm hpublic hnone hlt hfits,
      h.log.of_logPart rfl, h.kvRecords.of_succ, h.kvVersions.of_succ, hpush, h.namedKeyVersions.push rfl,
      h.auditLogs.of_succ, h.entries⟩
  | @keyRotated name now nonce material tag publicKey r latest db₁ hpublic hr hlatest hfits hversion =>
    obtain ⟨vid, hvid, rfl⟩ := Database.insertKeyVersion_row hversion
    obtain rfl := Except.ok.inj (hvid.symm.trans h.namedKeyVersions.nextId)
    refine ⟨h.records.of_recordPart rfl,
      @KeysFit.rotate _ _ _ _ _ h.keys _ (db.namedKeyVersions.seq + 1) ⟨nonce, material, tag, publicKey⟩ hpublic hr
        (h.keys.latest hr hlatest) hfits, h.log.of_logPart rfl, h.kvRecords.of_succ, h.kvVersions.of_succ,
      h.namedKeys.of_succ.of_ids fun g hg => ?_, h.namedKeyVersions.push rfl, h.auditLogs.of_succ, h.entries⟩
    obtain ⟨g₀, hg₀, rfl⟩ := List.mem_map.mp hg
    exact ⟨g₀, hg₀, by split_ifs <;> rfl⟩
  | keyDeleted name =>
    exact ⟨h.records.of_recordPart rfl, h.keys.delete owner name, h.log.of_logPart rfl, h.kvRecords.of_succ,
      h.kvVersions.of_succ, h.namedKeys.of_succ.of_ids fun g hg => ⟨g, (List.mem_filter.mp hg).1, rfl⟩,
      h.namedKeyVersions.of_succ.of_ids fun g hg => ⟨g, (List.mem_filter.mp hg).1, rfl⟩, h.auditLogs.of_succ, h.entries⟩
  | @logged o now head sequence entryHash db₁ _ hhead hsequence hhash hins =>
    obtain ⟨q, hs, hstored⟩ := h.log
    obtain ⟨hnext, hprev⟩ := hs.next
    rw [hhead] at hnext hprev
    obtain rfl := Except.ok.inj (hnext.symm.trans hsequence)
    rw [hprev] at hhash hins
    rw [AuditRepository.insertLog_ok hs rfl h.auditLogs.nextId] at hins
    obtain rfl := Except.ok.inj hins
    refine ⟨h.records.of_recordPart rfl, h.keys.of_tables rfl rfl,
      ⟨entryHash, AuditRepository.logged_sound hs hhash, ?_⟩, h.kvRecords.of_succ,
      h.kvVersions.of_succ, h.namedKeys.of_succ, h.namedKeyVersions.of_succ, h.auditLogs.push rfl, ?_⟩
    · exact (AuditRepository.headStored_replaceMetadata _ entryHash).trans
        (if_neg (List.append_ne_nil_of_right_ne_nil _ (List.cons_ne_nil _ _))).symm
    · have hentries := h.entries
      show ((db.auditLogs.rows ++ [_]).length : ℤ) ≤ db.auditLogs.seq + 1
      rw [List.length_append, List.length_singleton]
      push_cast
      omega

end Ordered

end Ordered

end MiniVault
