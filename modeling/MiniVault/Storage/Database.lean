import MiniVault.Runtime.Values
import Mathlib.Data.List.Sort
import Mathlib.Algebra.Order.Ring.Int

/-!
# The database

The tables of `DATABASE_SCHEMA` that the users and their sessions, the key-value store, the
named keys and the audit log live in, and the statements that are run on them.

## The model

A table is the list of its rows in the order they were inserted, with the number
SQLite keeps for `AUTOINCREMENT`. A cell is a `Value`, whatever the column's
declared type: SQLite enforces the declared constraints, not the types. The
identifier of a row is an integer: the column is the table's rowid.

Every statement comes with the text of the source it stands for. A statement that
would break `UNIQUE` or a foreign key raises `IntegrityError`; the foreign keys
are checked and deletes cascade, since every connection turns `foreign_keys` on.
The constraints `NOT NULL` and `CHECK` are not modelled where the code cannot
break them: it binds text and integers to these columns, and the two key usages.

SQLite takes no text and no row that is longer than `SQLITE_MAX_LENGTH`. The limit on rows is
modelled for records, their versions and log entries. The rows of the other tables are an
email or the name of a key, and digests and keys, whose size is fixed.
-/

namespace MiniVault

open Foundations

/-! ### Tables -/

/-- A table with an `AUTOINCREMENT` identifier. -/
structure Table (ρ : Type) where
  /-- The rows, oldest first. -/
  rows : List ρ
  /-- The largest identifier there ever was. -/
  seq : ℤ

/-- A table nothing was ever put in. -/
def Table.empty {ρ : Type} : Table ρ := ⟨[], 0⟩

/-- The identifier the next row gets: larger than that of any row there is, or
that SQLite remembers. `SQLITE_FULL` where there is none. -/
def Table.nextId {ρ : Type} (t : Table ρ) (id : ρ → ℤ) : Except Exc ℤ :=
  let n := (t.rows.map id).foldl max t.seq + 1
  if n < 2 ^ 63 then .ok n else .error .operationalError

theorem Table.le_foldl_max (is : List ℤ) (m : ℤ) : m ≤ is.foldl max m ∧ ∀ i ∈ is, i ≤ is.foldl max m := by
  induction is generalizing m with
  | nil => simp
  | cons j js ih =>
    obtain ⟨hm, hjs⟩ := ih (max m j)
    simp only [List.foldl_cons, List.mem_cons, forall_eq_or_imp]
    exact ⟨le_trans (le_max_left m j) hm, le_trans (le_max_right m j) hm, hjs⟩

/-- A new row's identifier is no old row's. -/
theorem Table.lt_nextId {ρ : Type} {t : Table ρ} {id : ρ → ℤ} {n : ℤ} (h : t.nextId id = .ok n) :
    ∀ r ∈ t.rows, id r < n := by
  simp only [nextId] at h
  split at h
  · intro r hr
    have hle := (le_foldl_max (t.rows.map id) t.seq).2 _ (List.mem_map_of_mem hr)
    rw [← Except.ok.inj h]
    omega
  · cases h

/-! ### Rows -/

/-- A row of `users`: an account. -/
structure User where
  /-- `id INTEGER PRIMARY KEY AUTOINCREMENT`. -/
  id : ℤ
  /-- `email TEXT NOT NULL UNIQUE`. -/
  email : Value
  /-- `password_hash TEXT NOT NULL`. -/
  passwordHash : Value
  /-- `failed_attempts INTEGER NOT NULL DEFAULT 0`. -/
  failedAttempts : Value
  /-- `locked_until TEXT`. -/
  lockedUntil : Value
  /-- `created_at TEXT NOT NULL`. -/
  createdAt : Value
  /-- `updated_at TEXT NOT NULL`. -/
  updatedAt : Value
  deriving DecidableEq

/-- A row of `sessions`: a token that was given out. -/
structure Session where
  /-- `id INTEGER PRIMARY KEY AUTOINCREMENT`. -/
  id : ℤ
  /-- `user_id INTEGER NOT NULL`, a `users(id)`. -/
  userId : Value
  /-- `token_hash TEXT NOT NULL UNIQUE`. -/
  tokenHash : Value
  /-- `expires_at TEXT NOT NULL`. -/
  expiresAt : Value
  /-- `revoked_at TEXT`. -/
  revokedAt : Value
  /-- `created_at TEXT NOT NULL`. -/
  createdAt : Value
  deriving DecidableEq

/-- A row of `kv_records`: one for each owner and path, pointing at the newest version. -/
structure KvRecord where
  /-- `id INTEGER PRIMARY KEY AUTOINCREMENT`. -/
  id : ℤ
  /-- `owner_email TEXT NOT NULL`. -/
  ownerEmail : Value
  /-- `path TEXT NOT NULL`. -/
  path : Value
  /-- `latest_version INTEGER NOT NULL`. -/
  latestVersion : Value
  /-- `created_at TEXT NOT NULL`. -/
  createdAt : Value
  /-- `updated_at TEXT NOT NULL`. -/
  updatedAt : Value
  deriving DecidableEq

/-- A row of `kv_versions`: one for each write that is kept. -/
structure KvVersion where
  /-- `id INTEGER PRIMARY KEY AUTOINCREMENT`. -/
  id : ℤ
  /-- `record_id INTEGER NOT NULL`, a `kv_records(id)`. -/
  recordId : Value
  /-- `version INTEGER NOT NULL`. -/
  version : Value
  /-- `nonce_b64 TEXT NOT NULL`. -/
  nonceB64 : Value
  /-- `ciphertext_b64 TEXT NOT NULL`. -/
  ciphertextB64 : Value
  /-- `tag_b64 TEXT NOT NULL`. -/
  tagB64 : Value
  /-- `created_at TEXT NOT NULL`. -/
  createdAt : Value
  deriving DecidableEq

/-- A row of `named_keys`: who owns a key and what it is for. -/
structure NamedKey where
  /-- `id INTEGER PRIMARY KEY AUTOINCREMENT`. -/
  id : ℤ
  /-- `owner_email TEXT NOT NULL`. -/
  ownerEmail : Value
  /-- `key_name TEXT NOT NULL`. -/
  keyName : Value
  /-- `key_usage TEXT NOT NULL`. -/
  keyUsage : Value
  /-- `signing_algorithm TEXT`. -/
  signingAlgorithm : Value
  /-- `latest_version INTEGER NOT NULL`. -/
  latestVersion : Value
  /-- `created_at TEXT NOT NULL`. -/
  createdAt : Value
  /-- `updated_at TEXT NOT NULL`. -/
  updatedAt : Value
  deriving DecidableEq

/-- A row of `named_key_versions`: the wrapped material of one version of a key. -/
structure NamedKeyVersion where
  /-- `id INTEGER PRIMARY KEY AUTOINCREMENT`. -/
  id : ℤ
  /-- `key_id INTEGER NOT NULL`, a `named_keys(id)`. -/
  keyId : Value
  /-- `version INTEGER NOT NULL`. -/
  version : Value
  /-- `nonce_b64 TEXT NOT NULL`. -/
  nonceB64 : Value
  /-- `encrypted_key_material_b64 TEXT NOT NULL`. -/
  encryptedKeyMaterialB64 : Value
  /-- `tag_b64 TEXT NOT NULL`. -/
  tagB64 : Value
  /-- `public_key_b64 TEXT`. -/
  publicKeyB64 : Value
  /-- `created_at TEXT NOT NULL`. -/
  createdAt : Value
  deriving DecidableEq

/-- The columns of `audit_logs` that `entry_hash` commits to, `HASHED_FIELDS`. -/
structure Entry where
  /-- `sequence INTEGER NOT NULL UNIQUE`. -/
  sequence : Value
  /-- `requester_email TEXT`. -/
  requesterEmail : Value
  /-- `action TEXT NOT NULL`. -/
  action : Value
  /-- `target_type TEXT NOT NULL`. -/
  targetType : Value
  /-- `target_identifier TEXT NOT NULL`. -/
  targetIdentifier : Value
  /-- `result TEXT NOT NULL`. -/
  result : Value
  /-- `created_at TEXT NOT NULL`. -/
  createdAt : Value
  deriving DecidableEq

/-- A row of `audit_logs`. -/
structure AuditLog where
  /-- `id INTEGER PRIMARY KEY AUTOINCREMENT`. -/
  id : ℤ
  /-- The hashed columns. -/
  entry : Entry
  /-- `prev_hash TEXT NOT NULL`. -/
  prevHash : Value
  /-- `entry_hash TEXT NOT NULL`. -/
  entryHash : Value
  deriving DecidableEq

/-- A row of `schema_metadata`. -/
structure SchemaMetadata where
  /-- `key TEXT PRIMARY KEY`. -/
  key : Value
  /-- `value TEXT NOT NULL`. -/
  value : Value
  deriving DecidableEq

/-! ### Columns -/

/-- `users.*`. -/
def User.cells (r : User) : List Value :=
  [r.email, r.passwordHash, r.failedAttempts, r.lockedUntil, r.createdAt, r.updatedAt]

/-- `sessions.*`. -/
def Session.cells (s : Session) : List Value := [s.userId, s.tokenHash, s.expiresAt, s.revokedAt, s.createdAt]

/-- `sessions.*, users.email`. -/
def Session.joinedCells (row : Session × User) : List Value := row.1.cells ++ [row.2.email]

/-- `latest_version, created_at`. -/
def KvRecord.pointerCells (r : KvRecord) : List Value := [r.latestVersion, r.createdAt]

/-- `kv_versions.*`. -/
def KvVersion.cells (v : KvVersion) : List Value :=
  [v.recordId, v.version, v.nonceB64, v.ciphertextB64, v.tagB64, v.createdAt]

/-- `v.*, r.latest_version`. -/
def KvVersion.joinedCells (row : KvVersion × KvRecord) : List Value := row.1.cells ++ [row.2.latestVersion]

/-- `v.version, v.created_at, r.latest_version`. -/
def KvVersion.listedCells (row : KvVersion × KvRecord) : List Value :=
  [row.1.version, row.1.createdAt, row.2.latestVersion]

/-- `named_keys.*`. -/
def NamedKey.cells (r : NamedKey) : List Value :=
  [r.ownerEmail, r.keyName, r.keyUsage, r.signingAlgorithm, r.latestVersion, r.createdAt, r.updatedAt]

/-- `latest_version`. -/
def NamedKey.pointerCells (r : NamedKey) : List Value := [r.latestVersion]

/-- `named_key_versions.*`. -/
def NamedKeyVersion.cells (v : NamedKeyVersion) : List Value :=
  [v.keyId, v.version, v.nonceB64, v.encryptedKeyMaterialB64, v.tagB64, v.publicKeyB64, v.createdAt]

/-- `version, created_at`. -/
def NamedKeyVersion.listedCells (v : NamedKeyVersion) : List Value := [v.version, v.createdAt]

/-- `sequence, requester_email, action, target_type, target_identifier, result, created_at`. -/
def Entry.cells (entry : Entry) : List Value :=
  [entry.sequence, entry.requesterEmail, entry.action, entry.targetType, entry.targetIdentifier, entry.result,
    entry.createdAt]

/-- `audit_logs.*`. -/
def AuditLog.cells (row : AuditLog) : List Value :=
  [row.entry.sequence, row.entry.requesterEmail, row.entry.action, row.entry.targetType, row.entry.targetIdentifier,
    row.entry.result, row.entry.createdAt, row.prevHash, row.entryHash]

/-- `sequence, entry_hash`. -/
def AuditLog.headCells (row : AuditLog) : List Value := [row.entry.sequence, row.entryHash]

/-- `sequence, action, target_type, target_identifier, result, created_at`. -/
def AuditLog.shownCells (row : AuditLog) : List Value :=
  [row.entry.sequence, row.entry.action, row.entry.targetType, row.entry.targetIdentifier, row.entry.result,
    row.entry.createdAt]

/-- `value`. -/
def SchemaMetadata.cells (m : SchemaMetadata) : List Value := [m.value]

/-- The cells can be fetched. -/
def Fetchable (cells : List Value) : Prop := ∀ v ∈ cells, v.decodes

instance (cells : List Value) : Decidable (Fetchable cells) := inferInstanceAs (Decidable (∀ v ∈ cells, _))

@[simp] theorem fetchable_nil : Fetchable [] := List.forall_mem_nil _

@[simp] theorem fetchable_cons {v : Value} {vs : List Value} : Fetchable (v :: vs) ↔ v.decodes ∧ Fetchable vs :=
  List.forall_mem_cons

theorem Fetchable.subset {cells cells' : List Value} (h : Fetchable cells) (hsub : cells' ⊆ cells) : Fetchable cells' :=
  fun v hv => h v (hsub hv)

/-- `fetchone`: the cells of the row, where there is one. -/
def fetchone {ρ : Type} (cells : ρ → List Value) (row : Option ρ) : List Value := row.toList.flatMap cells

/-- `fetchall`: the cells of the rows. -/
def fetchall {ρ : Type} (cells : ρ → List Value) (rows : List ρ) : List Value := rows.flatMap cells

@[simp] theorem fetchable_fetchall {ρ : Type} {cells : ρ → List Value} {rows : List ρ} :
    Fetchable (fetchall cells rows) ↔ ∀ r ∈ rows, Fetchable (cells r) := by
  simp only [Fetchable, fetchall, List.mem_flatMap, forall_exists_index, and_imp]
  exact ⟨fun h r hr v hv => h v r hr hv, fun h v r hr hv => h r hr v hv⟩

@[simp] theorem fetchable_fetchone {ρ : Type} {cells : ρ → List Value} {row : Option ρ} :
    Fetchable (fetchone cells row) ↔ ∀ r ∈ row, Fetchable (cells r) := by
  rw [fetchone, ← fetchall, fetchable_fetchall]
  simp

/-- The tables. -/
structure Database where
  /-- `users`. -/
  users : Table User
  /-- `sessions`. -/
  sessions : Table Session
  /-- `kv_records`. -/
  kvRecords : Table KvRecord
  /-- `kv_versions`. -/
  kvVersions : Table KvVersion
  /-- `named_keys`. -/
  namedKeys : Table NamedKey
  /-- `named_key_versions`. -/
  namedKeyVersions : Table NamedKeyVersion
  /-- `audit_logs`. -/
  auditLogs : Table AuditLog
  /-- `schema_metadata`. -/
  schemaMetadata : List SchemaMetadata

/-- `SCHEMA_VERSION`. -/
def schemaVersion : ℤ := 2

/-- The database `Database.initialize` leaves on a disk without one. -/
def Database.fresh : Database where
  users := .empty
  sessions := .empty
  kvRecords := .empty
  kvVersions := .empty
  namedKeys := .empty
  namedKeyVersions := .empty
  auditLogs := .empty
  schemaMetadata := [⟨.str (py "schema_version"), .str (decimal schemaVersion)⟩]

/-! ### Parameters -/

/-- Binding a parameter of a statement: an integer beyond 64 bits raises
`OverflowError`, text without UTF-8 bytes `UnicodeEncodeError`. For text that is too long `sqlite3`
raises `OverflowError`, and SQLite `DataError`. -/
def bindValue : Value → Except Exc Unit
  | .int i => if Fits i then .ok () else .error .overflowError
  | .str s =>
    if ¬ Encodable s then .error .unicodeEncodeError
    else if 2 ^ 31 ≤ utf8Length s then .error .overflowError
    else if maxLength < utf8Length s then .error .dataError
    else .ok ()
  -- no parameter is one: fetching it has raised before
  | .undecodable _ => .error .operationalError
  | _ => .ok ()

/-- Binding the parameters of a statement, in order. -/
def bindAll : List Value → Except Exc Unit
  | [] => .ok ()
  | v :: vs => do
    bindValue v
    bindAll vs

@[simp] theorem bindAll_nil : bindAll [] = .ok () := rfl

theorem bindValue_str_iff (s : PyStr) : bindValue (.str s) = .ok () ↔ Bindable s := by
  unfold bindValue Bindable maxLength
  dsimp only
  by_cases hencodable : Encodable s
  · rw [if_neg (not_not.mpr hencodable)]
    split_ifs with hlong hrow
    · simp only [false_iff, not_and]
      omega
    · simp only [false_iff, not_and]
      omega
    · exact ⟨fun _ => ⟨hencodable, by omega⟩, fun _ => rfl⟩
  · rw [if_pos hencodable]
    simp [hencodable]

theorem bindValue_str {s : PyStr} (h : Bindable s) : bindValue (.str s) = .ok () := (bindValue_str_iff s).mpr h

theorem bindValue_str_error {s : PyStr} (h : ¬ Bindable s) : ∃ e, bindValue (.str s) = .error e := by
  rcases hbind : bindValue (.str s) with e | u
  · exact ⟨e, rfl⟩
  · exact absurd ((bindValue_str_iff s).mp hbind) h

theorem bindValue_int {i : ℤ} (h : Fits i) : bindValue (.int i) = .ok () := if_pos h

/-- Parameters that can be bound can be stored. -/
theorem bindAll_eq_ok {vs : List Value} (h : bindAll vs = .ok ()) : ∀ v ∈ vs, bindValue v = .ok () := by
  induction vs with
  | nil => simp
  | cons v vs ih =>
    rcases hv : bindValue v with e | u
    · simp [bindAll, hv, bind, Except.bind] at h
    · simp only [bindAll, hv, bind, Except.bind] at h
      intro x hx
      rcases List.mem_cons.mp hx with rfl | hx
      · rw [hv]
      · exact ih h x hx

theorem bindAll_ok {vs : List Value} (h : ∀ v ∈ vs, bindValue v = .ok ()) : bindAll vs = .ok () := by
  induction vs with
  | nil => rfl
  | cons v vs ih =>
    simp only [List.mem_cons, forall_eq_or_imp] at h
    simp [bindAll, h.1, ih h.2, bind, Except.bind]

/-- A parameter that can be bound can be fetched again. -/
theorem decodes_of_bindValue {v : Value} (h : bindValue v = .ok ()) : v.decodes = true := by
  cases v <;> first | rfl | cases h

theorem bindValue_int_iff (i : ℤ) : bindValue (.int i) = .ok () ↔ Fits i := by
  by_cases h : Fits i <;> simp [bindValue, h]

/-! ### Records -/

/-- The bytes of an integer in a record. -/
def intLength (i : ℤ) : ℕ :=
  if i = 0 ∨ i = 1 then 0
  else if -2 ^ 7 ≤ i ∧ i < 2 ^ 7 then 1
  else if -2 ^ 15 ≤ i ∧ i < 2 ^ 15 then 2
  else if -2 ^ 23 ≤ i ∧ i < 2 ^ 23 then 3
  else if -2 ^ 31 ≤ i ∧ i < 2 ^ 31 then 4
  else if -2 ^ 47 ≤ i ∧ i < 2 ^ 47 then 6
  else 8

/-- The bytes of a `varint`, which holds seven bits in each. -/
def varintLength (n : ℕ) : ℕ := Nat.log2 n / 7 + 1

/-- The bytes of a cell in a record: its serial type in the header, and its content. -/
def Value.recordLength : Value → ℕ
  | .none => 1
  | .int i => 1 + intLength i
  | .real _ => 9
  | .str s => varintLength (2 * utf8Length s + 13) + utf8Length s
  | .undecodable b => varintLength (2 * b.1.length + 13) + b.1.length
  | .blob b => varintLength (2 * b.length + 12) + b.length

/-- The bytes of the record that a row is stored as: the length of its header, a `NULL` for the
identifier, which is the table's rowid, and the cells. -/
def recordLength (cells : List Value) : ℕ := 2 + (cells.map Value.recordLength).sum

/-- What a statement does that stores a row: `DataError` where the row is too long. -/
def limitRow {α : Type} (row : List Value) (f : Database → Except Exc (α × Database)) (db : Database) :
    Except Exc (α × Database) :=
  if recordLength row ≤ maxLength then f db else .error .dataError

theorem limitRow_eq_ok {α : Type} {row : List Value} {f : Database → Except Exc (α × Database)} {db : Database}
    {r : α × Database} : limitRow row f db = .ok r ↔ recordLength row ≤ maxLength ∧ f db = .ok r := by
  unfold limitRow
  split_ifs with h <;> simp [h]

theorem varintLength_le {n : ℕ} (h : n < 2 ^ 35) : varintLength n ≤ 5 := by
  have hlog : Nat.log2 n < 35 := by
    rcases Nat.eq_zero_or_pos n with rfl | hpos
    · decide
    · exact (Nat.log2_lt hpos.ne').mpr h
  unfold varintLength
  omega

theorem intLength_le (i : ℤ) : intLength i ≤ 8 := by
  unfold intLength
  split_ifs <;> omega

theorem Value.recordLength_int_le (i : ℤ) : (Value.int i).recordLength ≤ 9 := by
  have hle := intLength_le i
  simp only [Value.recordLength]
  omega

theorem Value.recordLength_str_le {s : PyStr} (h : utf8Length s ≤ maxLength) :
    (Value.str s).recordLength ≤ utf8Length s + 5 := by
  have hle : varintLength (2 * utf8Length s + 13) ≤ 5 := varintLength_le (by unfold maxLength at h; omega)
  simp only [Value.recordLength]
  omega

/-- A text in a row is not longer than the row. -/
theorem utf8Length_le_recordLength {cells : List Value} {s : PyStr} (h : .str s ∈ cells) :
    utf8Length s ≤ recordLength cells := by
  obtain ⟨front, back, rfl⟩ := List.append_of_mem h
  simp only [recordLength, List.map_append, List.map_cons, List.sum_append, List.sum_cons, Value.recordLength]
  omega

/-- The texts of a row that is stored can be bound. -/
theorem bindable_of_row {cells : List Value} (h : recordLength cells ≤ maxLength) {s : PyStr} (hs : .str s ∈ cells)
    (hencodable : Encodable s) : Bindable s :=
  ⟨hencodable, (utf8Length_le_recordLength hs).trans h⟩

namespace Database

/-! ### Statements on the users and their sessions -/

/-- `SELECT * FROM users WHERE email = ?`. -/
def selectUser (db : Database) (email : PyStr) : Option User :=
  db.users.rows.find? fun r => r.email.sqlEq (.str email)

/-- `INSERT INTO users (email, password_hash, failed_attempts, locked_until, created_at,
updated_at) VALUES (?, ?, 0, NULL, ?, ?)`. -/
def insertUser (db : Database) (email passwordHash now : PyStr) : Except Exc Database := do
  if (db.selectUser email).isSome then throw .integrityError
  let id ← db.users.nextId User.id
  let row : User := ⟨id, .str email, .str passwordHash, .int 0, .none, .str now, .str now⟩
  return { db with users := ⟨db.users.rows ++ [row], id⟩ }

/-- `UPDATE users SET failed_attempts = ?, locked_until = ?, updated_at = ? WHERE id = ?`. -/
def updateLogin (db : Database) (failedAttempts : ℤ) (lockedUntil : Value) (now : PyStr) (id : ℤ) : Database :=
  { db with
    users :=
      { db.users with
        rows := db.users.rows.map fun r =>
          if r.id = id then
            { r with failedAttempts := .int failedAttempts, lockedUntil := lockedUntil, updatedAt := .str now }
          else r } }

/-- `INSERT INTO sessions (user_id, token_hash, expires_at, revoked_at, created_at)
VALUES (?, ?, ?, NULL, ?)`. -/
def insertSession (db : Database) (userId : ℤ) (tokenHash expiresAt now : PyStr) : Except Exc Database := do
  if db.sessions.rows.any fun s => s.tokenHash.sqlEq (.str tokenHash) then throw .integrityError
  if !db.users.rows.any fun r => r.id = userId then throw .integrityError
  let id ← db.sessions.nextId Session.id
  return { db with sessions := ⟨db.sessions.rows ++ [⟨id, .int userId, .str tokenHash, .str expiresAt, .none, .str now⟩], id⟩ }

/-- `SELECT sessions.*, users.email AS user_email FROM sessions JOIN users ON users.id = sessions.user_id
WHERE sessions.token_hash = ? AND sessions.revoked_at IS NULL`. -/
def selectActiveSession (db : Database) (tokenHash : PyStr) : Option (Session × User) :=
  ((db.sessions.rows.filter fun s => s.tokenHash.sqlEq (.str tokenHash) && s.revokedAt = .none).flatMap fun s =>
    (db.users.rows.filter fun r => s.userId.sqlEq (.int r.id)).map fun r => (s, r)).head?

/-- `UPDATE sessions SET revoked_at = ? WHERE token_hash = ? AND revoked_at IS NULL`, with the number
of sessions it revokes. -/
def revokeSession (db : Database) (now tokenHash : PyStr) : ℕ × Database :=
  let revoked : Session → Bool := fun s => s.tokenHash.sqlEq (.str tokenHash) && s.revokedAt = .none
  ((db.sessions.rows.filter revoked).length,
    { db with
      sessions :=
        { db.sessions with rows := db.sessions.rows.map fun s => if revoked s then { s with revokedAt := .str now } else s } })

/-! ### Statements on the key-value tables -/

/-- `SELECT id, latest_version, created_at FROM kv_records WHERE owner_email = ? AND path = ?`. -/
def selectRecord (db : Database) (owner path : PyStr) : Option KvRecord :=
  db.kvRecords.rows.find? fun r => r.ownerEmail.sqlEq (.str owner) && r.path.sqlEq (.str path)

/-- `INSERT INTO kv_records (owner_email, path, latest_version, created_at, updated_at)`;
the row's identifier is `cursor.lastrowid`. -/
def insertRecord (db : Database) (owner path : PyStr) (version : ℤ) (now : PyStr) :
    Except Exc (ℤ × Database) := do
  if (db.selectRecord owner path).isSome then throw .integrityError
  let id ← db.kvRecords.nextId KvRecord.id
  let row : KvRecord := ⟨id, .str owner, .str path, .int version, .str now, .str now⟩
  return (id, { db with kvRecords := ⟨db.kvRecords.rows ++ [row], id⟩ })

/-- `UPDATE kv_records SET latest_version = ?, updated_at = ? WHERE id = ?`. -/
def updateRecord (db : Database) (version : ℤ) (now : PyStr) (id : ℤ) : Database :=
  { db with
    kvRecords :=
      { db.kvRecords with
        rows := db.kvRecords.rows.map fun r =>
          if r.id = id then { r with latestVersion := .int version, updatedAt := .str now } else r } }

/-- `INSERT INTO kv_versions (record_id, version, nonce_b64, ciphertext_b64, tag_b64, created_at)`. -/
def insertKvVersion (db : Database) (recordId version : ℤ) (nonce ciphertext tag now : PyStr) :
    Except Exc Database := do
  if db.kvVersions.rows.any fun v => v.recordId.sqlEq (.int recordId) && v.version.sqlEq (.int version) then
    throw .integrityError
  if !db.kvRecords.rows.any fun r => r.id = recordId then throw .integrityError
  let id ← db.kvVersions.nextId KvVersion.id
  let row : KvVersion :=
    ⟨id, .int recordId, .int version, .str nonce, .str ciphertext, .str tag, .str now⟩
  return { db with kvVersions := ⟨db.kvVersions.rows ++ [row], id⟩ }

/-- `SELECT v.*, r.latest_version FROM kv_records r JOIN kv_versions v ON v.record_id = r.id
WHERE r.owner_email = ? AND r.path = ?`. -/
def joinRecord (db : Database) (owner path : PyStr) : List (KvVersion × KvRecord) :=
  db.kvRecords.rows.flatMap fun r =>
    if r.ownerEmail.sqlEq (.str owner) && r.path.sqlEq (.str path) then
      (db.kvVersions.rows.filter fun v => v.recordId.sqlEq (.int r.id)).map fun v => (v, r)
    else []

/-- `joinRecord` with `AND v.version = r.latest_version`. -/
def selectLatest (db : Database) (owner path : PyStr) : Option (KvVersion × KvRecord) :=
  (db.joinRecord owner path).find? fun (v, r) => v.version.sqlEq r.latestVersion

/-- `joinRecord` with `AND v.version = ?`. -/
def selectVersion (db : Database) (owner path : PyStr) (version : ℤ) : Option (KvVersion × KvRecord) :=
  (db.joinRecord owner path).find? fun (v, _) => v.version.sqlEq (.int version)

/-- `joinRecord` with `ORDER BY v.version ASC`. -/
def selectVersions (db : Database) (owner path : PyStr) : List (KvVersion × KvRecord) :=
  (db.joinRecord owner path).insertionSort fun a b => a.1.version.le b.1.version

/-- `DELETE FROM kv_records WHERE owner_email = ? AND path = ?`, with the number of
records it removes. -/
def deleteRecord (db : Database) (owner path : PyStr) : ℕ × Database :=
  let gone := db.kvRecords.rows.filter fun r => r.ownerEmail.sqlEq (.str owner) && r.path.sqlEq (.str path)
  (gone.length,
    { db with
      kvRecords :=
        { db.kvRecords with
          rows := db.kvRecords.rows.filter fun r =>
            !(r.ownerEmail.sqlEq (.str owner) && r.path.sqlEq (.str path)) }
      kvVersions :=
        { db.kvVersions with
          rows := db.kvVersions.rows.filter fun v => !gone.any fun r => v.recordId.sqlEq (.int r.id) } })

/-! ### Statements on the key tables -/

/-- `SELECT * FROM named_keys WHERE owner_email = ? AND key_name = ?`. -/
def selectKey (db : Database) (owner name : PyStr) : Option NamedKey :=
  db.namedKeys.rows.find? fun r => r.ownerEmail.sqlEq (.str owner) && r.keyName.sqlEq (.str name)

/-- `INSERT INTO named_keys (owner_email, key_name, key_usage, signing_algorithm,
latest_version, created_at, updated_at) VALUES (?, ?, ?, ?, 1, ?, ?)`. -/
def insertKey (db : Database) (owner name usage : PyStr) (algorithm : Value) (now : PyStr) :
    Except Exc (ℤ × Database) := do
  if (db.selectKey owner name).isSome then throw .integrityError
  let id ← db.namedKeys.nextId NamedKey.id
  let row : NamedKey :=
    ⟨id, .str owner, .str name, .str usage, algorithm, .int 1, .str now, .str now⟩
  return (id, { db with namedKeys := ⟨db.namedKeys.rows ++ [row], id⟩ })

/-- `UPDATE named_keys SET latest_version = ?, updated_at = ? WHERE id = ?`. -/
def updateKey (db : Database) (version : ℤ) (now : PyStr) (id : ℤ) : Database :=
  { db with
    namedKeys :=
      { db.namedKeys with
        rows := db.namedKeys.rows.map fun r =>
          if r.id = id then { r with latestVersion := .int version, updatedAt := .str now } else r } }

/-- `INSERT INTO named_key_versions (key_id, version, nonce_b64, encrypted_key_material_b64,
tag_b64, public_key_b64, created_at)`. -/
def insertKeyVersion (db : Database) (keyId version : ℤ) (nonce material tag : PyStr) (publicKey : Value)
    (now : PyStr) : Except Exc Database := do
  if db.namedKeyVersions.rows.any fun v => v.keyId.sqlEq (.int keyId) && v.version.sqlEq (.int version) then
    throw .integrityError
  if !db.namedKeys.rows.any fun r => r.id = keyId then throw .integrityError
  let id ← db.namedKeyVersions.nextId NamedKeyVersion.id
  let row : NamedKeyVersion :=
    ⟨id, .int keyId, .int version, .str nonce, .str material, .str tag, publicKey, .str now⟩
  return { db with namedKeyVersions := ⟨db.namedKeyVersions.rows ++ [row], id⟩ }

/-- `SELECT * FROM named_key_versions WHERE key_id = ? AND version = ?`. -/
def selectKeyVersion (db : Database) (keyId version : ℤ) : Option NamedKeyVersion :=
  db.namedKeyVersions.rows.find? fun v => v.keyId.sqlEq (.int keyId) && v.version.sqlEq (.int version)

/-- `SELECT version, created_at FROM named_key_versions WHERE key_id = ? ORDER BY version ASC`. -/
def selectKeyVersions (db : Database) (keyId : ℤ) : List NamedKeyVersion :=
  (db.namedKeyVersions.rows.filter fun v => v.keyId.sqlEq (.int keyId)).insertionSort
    fun a b => a.version.le b.version

/-- `SELECT * FROM named_keys WHERE owner_email = ? ORDER BY key_name`. -/
def selectOwned (db : Database) (owner : PyStr) : List NamedKey :=
  (db.namedKeys.rows.filter fun r => r.ownerEmail.sqlEq (.str owner)).insertionSort
    fun a b => a.keyName.le b.keyName

/-- `DELETE FROM named_keys WHERE owner_email = ? AND key_name = ?`, with the number of
keys it removes. -/
def deleteKey (db : Database) (owner name : PyStr) : ℕ × Database :=
  let gone := db.namedKeys.rows.filter fun r => r.ownerEmail.sqlEq (.str owner) && r.keyName.sqlEq (.str name)
  (gone.length,
    { db with
      namedKeys :=
        { db.namedKeys with
          rows := db.namedKeys.rows.filter fun r =>
            !(r.ownerEmail.sqlEq (.str owner) && r.keyName.sqlEq (.str name)) }
      namedKeyVersions :=
        { db.namedKeyVersions with
          rows := db.namedKeyVersions.rows.filter fun v => !gone.any fun r => v.keyId.sqlEq (.int r.id) } })

/-! ### Statements on the audit log -/

/-- `SELECT * FROM audit_logs ORDER BY sequence ASC`. -/
def selectLogs (db : Database) : List AuditLog :=
  db.auditLogs.rows.insertionSort fun a b => a.entry.sequence.le b.entry.sequence

/-- `SELECT sequence, entry_hash FROM audit_logs ORDER BY sequence DESC LIMIT 1`. -/
def selectHead (db : Database) : Option AuditLog :=
  (db.auditLogs.rows.insertionSort fun a b => b.entry.sequence.le a.entry.sequence).head?

/-- `INSERT INTO audit_logs (sequence, requester_email, action, target_type,
target_identifier, result, created_at, prev_hash, entry_hash)`. -/
def insertLog (db : Database) (entry : Entry) (prevHash entryHash : Value) : Except Exc Database := do
  if db.auditLogs.rows.any fun r => r.entry.sequence.sqlEq entry.sequence then throw .integrityError
  let id ← db.auditLogs.nextId AuditLog.id
  return { db with auditLogs := ⟨db.auditLogs.rows ++ [⟨id, entry, prevHash, entryHash⟩], id⟩ }

/-- `LIMIT ?`: a negative limit is none. -/
def limited {ρ : Type} (limit : ℤ) (rows : List ρ) : List ρ :=
  if limit < 0 then rows else rows.take limit.toNat

/-- `SELECT ... FROM audit_logs WHERE requester_email = ? ORDER BY sequence DESC LIMIT ?`. -/
def selectRequester (db : Database) (requester : PyStr) (limit : ℤ) : List AuditLog :=
  limited limit <| (db.auditLogs.rows.filter fun r => r.entry.requesterEmail.sqlEq (.str requester)).insertionSort
    fun a b => b.entry.sequence.le a.entry.sequence

/-- `SELECT value FROM schema_metadata WHERE key = ?`. -/
def selectMetadata (db : Database) (key : PyStr) : Option SchemaMetadata :=
  db.schemaMetadata.find? fun m => m.key.sqlEq (.str key)

/-- `INSERT OR REPLACE INTO schema_metadata (key, value) VALUES (?, ?)`. -/
def replaceMetadata (db : Database) (key : PyStr) (value : Value) : Database :=
  { db with
    schemaMetadata := (db.schemaMetadata.filter fun m => !m.key.sqlEq (.str key)) ++ [⟨.str key, value⟩] }

end Database

end MiniVault
