import MiniVault.Foundations.Crashes
import MiniVault.Foundations.Schemas
import MiniVault.Runtime.Platform
import MiniVault.Storage.Database

/-!
# Creating the schema

`Database.initialize` with its guard: what a start of the program does to the database file.

## The model

A file holds a schema and the rows. Of a table there is its name and those of its columns, of
an index its name. `initialize` is a program in atomic steps on the file and what the connection
sees of it: `executescript` commits and runs each statement of `DATABASE_SCHEMA` on its own, the row
of the version is inserted in a transaction, and the transaction is committed last. A process that is
stopped leaves what is on the disk.

`SCHEMA_VERSION` is an argument: there are other builds that share the code.

## What is proved

* `DatabaseFile.run_guard` — what the guard answers.
* `startOn_of_refuses`, `startOn_of_accepts` — what a start does to a file.
-/

namespace MiniVault

open Foundations

/-! ### The script -/

/-- `DATABASE_SCHEMA`. -/
def databaseSchema : List Ddl :=
  [.createTable ⟨"schema_metadata", ["key", "value"]⟩,
    .createTable ⟨"users",
      ["id", "email", "password_hash", "failed_attempts", "locked_until", "created_at", "updated_at"]⟩,
    .createTable ⟨"sessions", ["id", "user_id", "token_hash", "expires_at", "revoked_at", "created_at"]⟩,
    .createIndex "idx_sessions_user_id" "sessions" "user_id",
    .createIndex "idx_sessions_expires_at" "sessions" "expires_at",
    .createTable ⟨"kv_records", ["id", "owner_email", "path", "latest_version", "created_at", "updated_at"]⟩,
    .createIndex "idx_kv_owner_email" "kv_records" "owner_email",
    .createTable ⟨"kv_versions", ["id", "record_id", "version", "nonce_b64", "ciphertext_b64", "tag_b64", "created_at"]⟩,
    .createIndex "idx_kv_versions_record" "kv_versions" "record_id",
    .createTable ⟨"named_keys",
      ["id", "owner_email", "key_name", "key_usage", "signing_algorithm", "latest_version", "created_at", "updated_at"]⟩,
    .createIndex "idx_named_keys_owner_email" "named_keys" "owner_email",
    .createTable ⟨"named_key_versions",
      ["id", "key_id", "version", "nonce_b64", "encrypted_key_material_b64", "tag_b64", "public_key_b64", "created_at"]⟩,
    .createIndex "idx_named_key_versions_key" "named_key_versions" "key_id",
    .createTable ⟨"audit_logs",
      ["id", "sequence", "requester_email", "action", "target_type", "target_identifier", "result", "created_at",
        "prev_hash", "entry_hash"]⟩,
    .createIndex "idx_audit_logs_requester" "audit_logs" "requester_email"]

/-- `_VERSIONED_TABLES`. -/
def versionedTables : List String := ["kv_records", "named_keys", "audit_logs"]

/-- The name of the table of the version. -/
def metadataTable : String := "schema_metadata"

/-- The key of the row of the version. -/
def versionKey : PyStr := py "schema_version"

/-- Every index of the script comes after its table. -/
theorem databaseSchema_ordered : Ddl.Ordered databaseSchema := Ddl.Ordered.of_places (by decide +kernel)

/-- There is a table for the version, with the columns it needs. -/
def holdsMetadata (schema : Schema) : Bool :=
  match schema.table? metadataTable with
  | some t => t.hasColumn "key" && t.hasColumn "value"
  | none => false

theorem holdsMetadata_exec {schema schema' : Schema} {d : Ddl} (h : d.exec schema = some schema')
    (hholds : holdsMetadata schema = true) : holdsMetadata schema' = true := by
  unfold holdsMetadata at hholds ⊢
  cases htable : schema.table? metadataTable with
  | none => simp [htable] at hholds
  | some t =>
    rw [Ddl.exec_table? h htable]
    rwa [htable] at hholds

/-! ### Files -/

/-- A database file. -/
@[ext] structure DatabaseFile where
  /-- Its tables and indexes. -/
  schema : Schema
  /-- The rows. -/
  rows : Database
  /-- Rows of metadata are in the table of metadata. -/
  stored : holdsMetadata schema = false → rows.schemaMetadata = []

namespace DatabaseFile

/-- An empty file. -/
def empty : DatabaseFile := ⟨.empty, { Database.fresh with schemaMetadata := [] }, fun _ => rfl⟩

/-- The names of the tables, `SELECT name FROM sqlite_master WHERE type = 'table'`. -/
def tableNames (file : DatabaseFile) : List String := file.schema.tables.map TableSchema.name

/-- A statement of the script. -/
def create (file : DatabaseFile) (d : Ddl) : Except Exc DatabaseFile :=
  match h : d.exec file.schema with
  | some schema => .ok ⟨schema, file.rows, fun hnot => file.stored <| by
      rw [← Bool.not_eq_true] at hnot ⊢
      exact mt (holdsMetadata_exec h) hnot⟩
  | none => .error .operationalError

/-- `SELECT value FROM schema_metadata WHERE key = 'schema_version'`. -/
def selectVersion (file : DatabaseFile) : Except Exc (Option SchemaMetadata) :=
  if holdsMetadata file.schema ∧ Fetchable (fetchone SchemaMetadata.cells (file.rows.selectMetadata versionKey)) then
    .ok (file.rows.selectMetadata versionKey)
  else .error .operationalError

/-- `INSERT OR REPLACE INTO schema_metadata (key, value) VALUES ('schema_version', ?)`. -/
def replaceVersion (file : DatabaseFile) (text : PyStr) : Except Exc DatabaseFile :=
  if h : holdsMetadata file.schema then
    .ok ⟨file.schema, file.rows.replaceMetadata versionKey (.str text), fun hnot => by simp [h] at hnot⟩
  else .error .operationalError

end DatabaseFile

/-- A connection: what is on the disk, and what the connection sees. -/
structure OpenDatabase where
  /-- What is on the disk. -/
  disk : DatabaseFile
  /-- That, with the changes of the transaction. -/
  seen : DatabaseFile

/-- What runs on a connection. -/
abbrev Startup := Prog OpenDatabase Unit Exc

variable [Platform]

/-! ### `Database.initialize` -/

/-- `_guard_legacy_schema`. -/
def guardLegacySchema (version : ℤ) : Startup Unit := do
  let existing ← Prog.look () fun c => .ok c.seen.tableNames
  if existing.all fun name => !versionedTables.contains name then pure ()
  else if !existing.contains metadataTable then throw .legacySchemaError
  else
    match ← Prog.look () fun c => c.seen.selectVersion with
    | none => throw .legacySchemaError
    | some row => do
      let recorded ← Prog.done (pyInt row.value)
      if recorded ≥ version then pure () else throw .legacySchemaError

omit [Platform] in
/-- `connection.executescript`: every statement is on the disk once it has run. -/
def executescript : List Ddl → Startup Unit
  | [] => pure ()
  | d :: script => do
    Prog.attempt () fun c => (c.seen.create d).map fun file => ((), ⟨file, file⟩)
    executescript script

omit [Platform] in
/-- The row of the version, in a transaction. -/
def stampVersion (version : ℤ) : Startup Unit :=
  Prog.attempt () fun c => do
    let file ← c.seen.replaceVersion (← intRepr version)
    return ((), { c with seen := file })

omit [Platform] in
/-- `connection.commit()`. -/
def commit : Startup Unit := Prog.change () fun c => ⟨c.seen, c.seen⟩

omit [Platform] in
/-- `connection.rollback()`. -/
def rollback : Startup Unit := Prog.change () fun c => ⟨c.disk, c.disk⟩

/-- The statements of `Database.initialize`. -/
def initializeBody (version : ℤ) : Startup Unit := do
  guardLegacySchema version
  executescript databaseSchema
  stampVersion version
  commit

/-- `Database.initialize`, of a build with the `SCHEMA_VERSION`. -/
def initializeDatabase (version : ℤ) : Startup Unit :=
  tryCatch (initializeBody version) fun e => do
    rollback
    throw e

/-- A start on a file: what `initialize` raises, and what is on the disk then. -/
def startOn (version : ℤ) (file : DatabaseFile) : Except Exc Unit × DatabaseFile :=
  let (r, c) := (initializeDatabase version).run ⟨file, file⟩
  (r, c.disk)

/-- What a start leaves on the disk that is stopped after `n` statements. -/
def stoppedOn (version : ℤ) (n : ℕ) (file : DatabaseFile) : DatabaseFile :=
  ((initializeDatabase version).stopAfter n ⟨file, file⟩).disk

/-! ### The guard -/

namespace DatabaseFile

omit [Platform] in
/-- There is a table whose shape has changed. -/
def versioned (file : DatabaseFile) : Bool := file.tableNames.any versionedTables.contains

/-- The version that is recorded. -/
def recorded (file : DatabaseFile) : Option ℤ :=
  (file.rows.selectMetadata versionKey).bind fun row => (pyInt row.value).toOption

/-- What is recorded is an integer. -/
def Stated (file : DatabaseFile) : Prop :=
  ∀ row, file.rows.selectMetadata versionKey = some row → ∃ s, pyInt row.value = .ok s

/-- The guard lets the file pass. -/
def Accepts (version : ℤ) (file : DatabaseFile) : Prop :=
  file.versioned = false ∨ metadataTable ∈ file.tableNames ∧ ∃ s, file.recorded = some s ∧ version ≤ s

/-- The guard takes the file for one of an older schema. -/
def Refuses (version : ℤ) (file : DatabaseFile) : Prop :=
  file.versioned = true ∧
    (metadataTable ∈ file.tableNames → holdsMetadata file.schema = true ∧ ∀ s, file.recorded = some s → s < version)

variable {version : ℤ} {file : DatabaseFile}

theorem recorded_eq_some {s : ℤ} : file.recorded = some s ↔
    ∃ row, file.rows.selectMetadata versionKey = some row ∧ pyInt row.value = .ok s := by
  unfold recorded
  rw [Option.bind_eq_some_iff]
  refine exists_congr fun row => and_congr_right fun _ => ?_
  cases pyInt row.value <;> simp [Except.toOption]

theorem recorded_eq_none (hstated : file.Stated) : file.recorded = none ↔ file.rows.selectMetadata versionKey = none := by
  unfold recorded
  cases hrow : file.rows.selectMetadata versionKey with
  | none => simp
  | some row =>
    obtain ⟨s, hs⟩ := hstated row hrow
    simp [hs, Except.toOption]

/-- An integer that is recorded can be fetched. -/
theorem fetchable_of_stated (hstated : file.Stated) :
    Fetchable (fetchone SchemaMetadata.cells (file.rows.selectMetadata versionKey)) := by
  rw [fetchable_fetchone]
  intro row hrow v hv
  obtain ⟨s, hs⟩ := hstated row hrow
  obtain rfl := List.mem_singleton.mp hv
  exact decodes_of_pyInt hs

/-- Where a version is recorded there is a table for it. -/
theorem holdsMetadata_of_recorded {s : ℤ} (h : file.recorded = some s) : holdsMetadata file.schema = true := by
  obtain ⟨row, hrow, -⟩ := recorded_eq_some.mp h
  by_contra hnot
  simp [Database.selectMetadata, file.stored (by simpa using hnot)] at hrow

/-- **What the guard answers**: it lets the file pass, refuses it, or finds a table of metadata that it cannot
read. -/
theorem run_guard (hstated : file.Stated) (version : ℤ) {c : OpenDatabase} (hc : c.seen = file) :
    (file.Accepts version ∧ (guardLegacySchema version).run c = (.ok (), c)) ∨
      (file.Refuses version ∧ (guardLegacySchema version).run c = (.error .legacySchemaError, c)) ∨
        (¬ file.Accepts version ∧ ¬ file.Refuses version ∧ holdsMetadata file.schema = false ∧
          metadataTable ∈ file.tableNames ∧ (guardLegacySchema version).run c = (.error .operationalError, c)) := by
  subst hc
  have hnames : (Prog.look () fun c : OpenDatabase => .ok c.seen.tableNames : Startup (List String)).run c =
      (.ok c.seen.tableNames, c) := rfl
  unfold guardLegacySchema
  rw [Prog.run_bind_ok hnames]
  have hall : (c.seen.tableNames.all fun name => !versionedTables.contains name) = !c.seen.versioned := by
    unfold versioned
    rw [List.not_any_eq_all_not]
  by_cases hversioned : c.seen.versioned = true
  · rw [hall, hversioned, if_neg (by decide)]
    by_cases hname : metadataTable ∈ c.seen.tableNames
    · rw [if_neg (by simpa using hname)]
      by_cases hholds : holdsMetadata c.seen.schema = true
      · have hselect : (Prog.look () fun c : OpenDatabase => c.seen.selectVersion : Startup _).run c =
            (.ok (c.seen.rows.selectMetadata versionKey), c) := by
          rw [Prog.run_look, selectVersion, if_pos ⟨hholds, fetchable_of_stated hstated⟩]
        rw [Prog.run_bind_ok hselect]
        cases hrow : c.seen.rows.selectMetadata versionKey with
        | none =>
          refine .inr (.inl ⟨⟨hversioned, fun _ => ⟨hholds, fun s hs => ?_⟩⟩, rfl⟩)
          rw [(recorded_eq_none hstated).mpr hrow] at hs
          cases hs
        | some row =>
          obtain ⟨s, hs⟩ := hstated row hrow
          have hrecorded : c.seen.recorded = some s := recorded_eq_some.mpr ⟨row, hrow, hs⟩
          have hrun : ∀ k : ℤ → Startup Unit, (Prog.done (pyInt row.value) >>= k).run c = (k s).run c := by
            intro k
            rw [hs]
            rfl
          rw [hrun]
          by_cases hle : s ≥ version
          · rw [if_pos hle]
            exact .inl ⟨.inr ⟨hname, s, hrecorded, hle⟩, rfl⟩
          · rw [if_neg hle]
            refine .inr (.inl ⟨⟨hversioned, fun _ => ⟨hholds, fun t ht => ?_⟩⟩, rfl⟩)
            obtain rfl := Option.some.inj (hrecorded.symm.trans ht)
            exact lt_of_not_ge hle
      · have hselect : (Prog.look () fun c : OpenDatabase => c.seen.selectVersion : Startup _).run c =
            (.error .operationalError, c) := by
          rw [Prog.run_look, selectVersion, if_neg fun h => hholds h.1]
        rw [Prog.run_bind_error hselect]
        refine .inr (.inr ⟨?_, fun h => hholds (h.2 hname).1, by simpa using hholds, hname, rfl⟩)
        rintro (hnot | ⟨-, s, hs, -⟩)
        · rw [hversioned] at hnot
          cases hnot
        · exact hholds (holdsMetadata_of_recorded hs)
    · rw [if_pos (by simpa using hname)]
      exact .inr (.inl ⟨⟨hversioned, fun h => absurd h hname⟩, rfl⟩)
  · rw [hall, if_pos (by simpa using hversioned)]
    exact .inl ⟨.inl (by simpa using hversioned), rfl⟩

end DatabaseFile

/-! ### The script -/

section Script

omit [Platform]

variable {file file' : DatabaseFile} {d : Ddl} {script : List Ddl}

namespace DatabaseFile

theorem create_eq_ok : file.create d = .ok file' ↔ d.exec file.schema = some file'.schema ∧ file'.rows = file.rows := by
  unfold create
  split
  · next schema h =>
    rw [Except.ok.injEq, DatabaseFile.ext_iff]
    constructor
    · rintro ⟨rfl, hrows⟩
      exact ⟨h, hrows.symm⟩
    · rintro ⟨hexec, hrows⟩
      exact ⟨Option.some.inj (h.symm.trans hexec), hrows.symm⟩
  · next h => simp [h]

theorem create_eq_error {e : Exc} : file.create d = .error e ↔ d.exec file.schema = none ∧ e = .operationalError := by
  unfold create
  split
  · next schema h => simp [h]
  · next h => simp [h, eq_comm]

end DatabaseFile

/-- **What the script leaves**: where all its statements run, the schema they make; where one does not, some
of them have run. The rows are as they were. -/
theorem run_executescript (file : DatabaseFile) (script : List Ddl) :
    ∃ file' : DatabaseFile, file'.rows = file.rows ∧
      ((Ddl.execAll script file.schema = some file'.schema ∧
          (executescript script).run ⟨file, file⟩ = (.ok (), ⟨file', file'⟩) ∧
            (executescript script).steps ⟨file, file⟩ = script.length) ∨
        (Ddl.execAll script file.schema = none ∧
          (executescript script).run ⟨file, file⟩ = (.error .operationalError, ⟨file', file'⟩))) := by
  induction script generalizing file with
  | nil => exact ⟨file, rfl, .inl ⟨rfl, rfl, rfl⟩⟩
  | cons d script ih =>
    cases hcreate : file.create d with
    | error e =>
      obtain ⟨hexec, rfl⟩ := DatabaseFile.create_eq_error.mp hcreate
      refine ⟨file, rfl, .inr ⟨by rw [Ddl.execAll_cons, hexec]; rfl, ?_⟩⟩
      refine Prog.run_bind_error ?_ _
      rw [Prog.run_attempt, hcreate]
      rfl
    | ok mid =>
      obtain ⟨hexec, hrows⟩ := DatabaseFile.create_eq_ok.mp hcreate
      have hstep : (Prog.attempt () fun c : OpenDatabase => (c.seen.create d).map fun file =>
          ((), (⟨file, file⟩ : OpenDatabase)) : Startup Unit).run ⟨file, file⟩ = (.ok (), ⟨mid, mid⟩) := by
        rw [Prog.run_attempt, hcreate]
        rfl
      obtain ⟨file', hrows', hcases⟩ := ih mid
      refine ⟨file', hrows'.trans hrows, ?_⟩
      have hall : Ddl.execAll (d :: script) file.schema = Ddl.execAll script mid.schema := by
        rw [Ddl.execAll_cons, hexec]
        rfl
      have hrun : (executescript (d :: script)).run ⟨file, file⟩ = (executescript script).run ⟨mid, mid⟩ :=
        Prog.run_bind_ok hstep _
      have hsteps : (executescript (d :: script)).steps ⟨file, file⟩ = 1 + (executescript script).steps ⟨mid, mid⟩ :=
        Prog.steps_bind_ok hstep _
      rw [hall, hrun, hsteps]
      exact hcases.imp (fun h => ⟨h.1, h.2.1, by rw [h.2.2, List.length_cons, Nat.add_comm]⟩) id

/-- **A script that is stopped** leaves the schema that the statements before the stop have made. -/
theorem stopAfter_executescript {schema : Schema} (hall : Ddl.execAll script file.schema = some schema) (n : ℕ) :
    ∃ file' : DatabaseFile, file'.rows = file.rows ∧
      Ddl.execAll (script.take n) file.schema = some file'.schema ∧
        (executescript script).stopAfter n ⟨file, file⟩ = ⟨file', file'⟩ := by
  induction script generalizing file n with
  | nil => exact ⟨file, rfl, by simp, rfl⟩
  | cons d script ih =>
    cases n with
    | zero => exact ⟨file, rfl, rfl, Prog.stopAfter_zero _ _⟩
    | succ n =>
      obtain ⟨mid, hexec, hrest⟩ := Option.bind_eq_some_iff.mp hall
      obtain ⟨mid', hmid⟩ : ∃ mid', file.create d = .ok mid' := by
        cases hcreate : file.create d with
        | error e =>
          rw [(DatabaseFile.create_eq_error.mp hcreate).1] at hexec
          cases hexec
        | ok mid' => exact ⟨mid', rfl⟩
      obtain ⟨hexec', hrows⟩ := DatabaseFile.create_eq_ok.mp hmid
      obtain rfl := Option.some.inj (hexec.symm.trans hexec')
      have hstep : (Prog.attempt () fun c : OpenDatabase => (c.seen.create d).map fun file =>
          ((), (⟨file, file⟩ : OpenDatabase)) : Startup Unit).run ⟨file, file⟩ = (.ok (), ⟨mid', mid'⟩) := by
        rw [Prog.run_attempt, hmid]
        rfl
      obtain ⟨file', hrows', hall', hstop⟩ := ih hrest n
      refine ⟨file', hrows'.trans hrows, by rw [List.take_succ_cons, Ddl.execAll_cons, hexec]; exact hall', ?_⟩
      exact (Prog.stopAfter_bind_ok hstep (Nat.le_add_left 1 n) _).trans hstop

end Script

/-! ### A start -/

namespace DatabaseFile

/-- The statements behind the guard can be run: the script is at odds with nothing in the schema, a table
of metadata that there is has the columns, and the version can be written. -/
def Runnable (version : ℤ) (file : DatabaseFile) : Prop :=
  (∀ d ∈ databaseSchema, d.Fits file.schema) ∧
    (∀ t, file.schema.table? metadataTable = some t → t.hasColumn "key" = true ∧ t.hasColumn "value" = true) ∧
      (Nat.toDigits 10 version.natAbs).length ≤ 4300

variable {version : ℤ} {file : DatabaseFile}

omit [Platform] in
/-- The table of metadata after the script is the one there was, or the one it creates. -/
theorem holdsMetadata_execAll {schema schema' : Schema} (h : Ddl.execAll databaseSchema schema = some schema') :
    holdsMetadata schema' = true ↔
      ∀ t, schema.table? metadataTable = some t → t.hasColumn "key" = true ∧ t.hasColumn "value" = true := by
  have hnew : findTable (Ddl.newTables databaseSchema) metadataTable =
      some (TableSchema.mk "schema_metadata" ["key", "value"]) := by decide +kernel
  have htable := (Ddl.execAll_created databaseSchema_ordered h).table metadataTable
  rw [hnew] at htable
  unfold holdsMetadata
  rw [htable]
  cases schema.table? metadataTable with
  | none => exact iff_of_true (by decide +kernel) (by simp)
  | some t => simp

omit [Platform] in
/-- The row of the version replaces the one there was. -/
theorem replaceVersion_ok {file : DatabaseFile} (h : holdsMetadata file.schema = true) (text : PyStr) :
    ∃ file', file.replaceVersion text = .ok file' ∧ file'.schema = file.schema ∧
      file'.rows = file.rows.replaceMetadata versionKey (.str text) :=
  ⟨_, dif_pos h, rfl, rfl⟩

omit [Platform] in
/-- **What follows the guard**: where the statements can be run, the schema is that of the script and the
version is recorded; where they cannot, the rows are as they were. -/
theorem run_rest (version : ℤ) (file : DatabaseFile) :
    ∃ file' : DatabaseFile,
      (file.Runnable version ∧ Ddl.execAll databaseSchema file.schema = some file'.schema ∧
        file'.rows = file.rows.replaceMetadata versionKey (.str (decimal version)) ∧
          (executescript databaseSchema >>= fun _ => stampVersion version >>= fun _ => commit).run ⟨file, file⟩ =
            (.ok (), ⟨file', file'⟩)) ∨
      (¬ file.Runnable version ∧ file'.rows = file.rows ∧ ∃ e, e ≠ .legacySchemaError ∧
        (executescript databaseSchema >>= fun _ => stampVersion version >>= fun _ => commit).run ⟨file, file⟩ =
          (.error e, ⟨file', file'⟩)) := by
  obtain ⟨mid, hrows, ⟨hall, hrun, -⟩ | ⟨hall, hrun⟩⟩ := run_executescript file databaseSchema
  · have hfits := (Ddl.execAll_iff databaseSchema_ordered file.schema).mp (by rw [hall]; rfl)
    rw [Prog.run_bind_ok hrun]
    by_cases hdigits : (Nat.toDigits 10 version.natAbs).length ≤ 4300
    · have hrepr : intRepr version = .ok (decimal version) := if_pos hdigits
      by_cases hholds : holdsMetadata mid.schema = true
      · obtain ⟨file', hreplace, hschema', hrows'⟩ := replaceVersion_ok hholds (decimal version)
        have hstamp : (stampVersion version).run ⟨mid, mid⟩ = (.ok (), ⟨mid, file'⟩) := by
          rw [stampVersion, Prog.run_attempt]
          simp only [hrepr, ok_bind, hreplace, pure_eq_ok]
        refine ⟨file', .inl ⟨⟨hfits, (holdsMetadata_execAll hall).mp hholds, hdigits⟩, by rw [hall, hschema'],
          by rw [hrows', hrows], ?_⟩⟩
        rw [Prog.run_bind_ok hstamp]
        rfl
      · refine ⟨mid, .inr ⟨fun h => hholds ((holdsMetadata_execAll hall).mpr h.2.1), hrows, .operationalError,
          by decide, ?_⟩⟩
        refine Prog.run_bind_error ?_ _
        have hreplace : mid.replaceVersion (decimal version) = .error .operationalError := dif_neg hholds
        rw [stampVersion, Prog.run_attempt]
        simp only [hrepr, ok_bind, hreplace, error_bind]
    · have hrepr : intRepr version =
          .error (.valueError "Exceeds the limit (4300 digits) for integer string conversion") := if_neg hdigits
      refine ⟨mid, .inr ⟨fun h => hdigits h.2.2, hrows,
        .valueError "Exceeds the limit (4300 digits) for integer string conversion", by simp, ?_⟩⟩
      refine Prog.run_bind_error ?_ _
      rw [stampVersion, Prog.run_attempt]
      simp only [hrepr, error_bind]
  · refine ⟨mid, .inr ⟨fun h => ?_, hrows, .operationalError, by decide, Prog.run_bind_error hrun _⟩⟩
    have hsome := (Ddl.execAll_iff databaseSchema_ordered file.schema).mpr h.1
    rw [hall] at hsome
    cases hsome

/-- A start whose statements succeed. -/
theorem startOn_of_ok {file' : DatabaseFile} {c : OpenDatabase}
    (h : (initializeBody version).run ⟨file, file⟩ = (.ok (), c)) (hdisk : c.disk = file') :
    startOn version file = (.ok (), file') := by
  unfold startOn initializeDatabase
  rw [Prog.run_handle, h]
  exact congrArg _ hdisk

/-- A start one of whose statements fails: the disk is as it was then. -/
theorem startOn_of_error {file' : DatabaseFile} {c : OpenDatabase} {e : Exc}
    (h : (initializeBody version).run ⟨file, file⟩ = (.error e, c)) (hdisk : c.disk = file') :
    startOn version file = (.error e, file') := by
  unfold startOn initializeDatabase
  rw [Prog.run_handle, h]
  exact congrArg _ hdisk

/-- **A file that the guard refuses** is left as it is. -/
theorem startOn_of_refuses (hstated : file.Stated) (h : file.Refuses version) :
    startOn version file = (.error .legacySchemaError, file) := by
  rcases run_guard hstated version (c := ⟨file, file⟩) rfl with ⟨haccepts, -⟩ | ⟨-, hrun⟩ | ⟨-, hnot, -⟩
  · rcases haccepts with hnot | ⟨hname, s, hs, hle⟩
    · rw [h.1] at hnot
      cases hnot
    · exact absurd ((h.2 hname).2 s hs) (not_lt_of_ge hle)
  · exact startOn_of_error (Prog.run_bind_error hrun _) rfl
  · exact absurd h hnot

/-- **A file that the guard lets pass** gets the schema and the version, where the statements can be run; where
they cannot, its rows are as they were. -/
theorem startOn_of_accepts (hstated : file.Stated) (h : file.Accepts version) :
    ∃ file' : DatabaseFile,
      (file.Runnable version ∧ startOn version file = (.ok (), file') ∧
        Ddl.execAll databaseSchema file.schema = some file'.schema ∧
          file'.rows = file.rows.replaceMetadata versionKey (.str (decimal version))) ∨
      (¬ file.Runnable version ∧ file'.rows = file.rows ∧ ∃ e, e ≠ .legacySchemaError ∧
        startOn version file = (.error e, file')) := by
  have hguard : (guardLegacySchema version).run ⟨file, file⟩ = (.ok (), ⟨file, file⟩) := by
    rcases run_guard hstated version (c := ⟨file, file⟩) rfl with ⟨-, hrun⟩ | ⟨hrefuses, -⟩ | ⟨hnot, -⟩
    · exact hrun
    · rcases h with hnot | ⟨hname, s, hs, hle⟩
      · rw [hrefuses.1] at hnot
        cases hnot
      · exact absurd ((hrefuses.2 hname).2 s hs) (not_lt_of_ge hle)
    · exact absurd h hnot
  obtain ⟨file', ⟨hrunnable, hall, hrows, hrun⟩ | ⟨hnot, hrows, e, he, hrun⟩⟩ := run_rest version file
  · exact ⟨file', .inl ⟨hrunnable, startOn_of_ok ((Prog.run_bind_ok hguard _).trans hrun) rfl, hall, hrows⟩⟩
  · exact ⟨file', .inr ⟨hnot, hrows, e, he, startOn_of_error ((Prog.run_bind_ok hguard _).trans hrun) rfl⟩⟩

end DatabaseFile

end MiniVault
