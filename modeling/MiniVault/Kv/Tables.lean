import MiniVault.Foundations.Versions
import MiniVault.Kv.Service

/-!
# The key-value tables

The statements of the key-value store, as changes of versioned tables: a record is
a head under its owner and path, and `append_version` and `delete` create, bump and
drop heads. `KvSound` is the invariant of the two tables, and `versionsAt` the rows
that are read under an owner and a path.

## What is proved

* `append_sound` — what a transaction of `append_version` that commits does: one row,
  with the next number, under one key.
* `delete_sound` — what a `delete` does.
* `selectVersion_eq`, `selectLatest_eq`, `selectVersions_eq` — what the queries find in
  tables that are in order.
-/

namespace MiniVault

open Foundations

/-- Different numbers are different integers. -/
theorem Value.int_natCast_injective : Function.Injective fun n : ℕ => Value.int n := fun m n h => by simpa using h

/-- `kv_records` and `kv_versions` as versioned tables. -/
def kvTables : Versioning KvRecord KvVersion (Value × Value) Value Value where
  id r := .int r.id
  key r := (r.ownerEmail, r.path)
  latest r := r.latestVersion
  ref v := v.recordId
  number v := v.version
  num n := .int n
  num_inj := Value.int_natCast_injective

namespace Database

/-- The key-value tables are in order, and what is read of them can be fetched. -/
structure KvSound (db : Database) : Prop extends kvTables.Sound db.kvRecords.rows db.kvVersions.rows where
  /-- From `kv_records`. -/
  recordCells : ∀ r ∈ db.kvRecords.rows, Fetchable r.pointerCells
  /-- From `kv_versions`. -/
  versionCells : ∀ v ∈ db.kvVersions.rows, Fetchable v.cells

/-- The record under an owner and a path. -/
def recordAt (db : Database) (owner path : PyStr) : Option KvRecord :=
  kvTables.headOf db.kvRecords.rows (.str owner, .str path)

/-- The versions under an owner and a path, oldest first. -/
def versionsAt (db : Database) (owner path : PyStr) : List KvVersion :=
  kvTables.versionsOf db.kvRecords.rows db.kvVersions.rows (.str owner, .str path)

theorem KvSound.fresh : Database.fresh.KvSound :=
  ⟨Versioning.Sound.empty, by simp [Database.fresh, Table.empty], by simp [Database.fresh, Table.empty]⟩

/-- Other tables than the key-value tables are the same. -/
structure KvFrame (db db' : Database) : Prop where
  /-- `named_keys`. -/
  namedKeys : db'.namedKeys = db.namedKeys
  /-- `named_key_versions`. -/
  namedKeyVersions : db'.namedKeyVersions = db.namedKeyVersions
  /-- `audit_logs`. -/
  auditLogs : db'.auditLogs = db.auditLogs
  /-- `schema_metadata`. -/
  schemaMetadata : db'.schemaMetadata = db.schemaMetadata

variable {db db' : Database} {owner path : PyStr}

theorem key_predicate (r : KvRecord) (owner path : PyStr) :
    (r.ownerEmail.sqlEq (.str owner) && r.path.sqlEq (.str path)) =
      decide (kvTables.key r = (.str owner, .str path)) := by
  simp [kvTables, Prod.ext_iff]

theorem selectRecord_eq (db : Database) (owner path : PyStr) : db.selectRecord owner path = db.recordAt owner path := by
  simp only [selectRecord, key_predicate]
  rfl

/-- The rows a join finds. -/
theorem joinRecord_eq (h : db.KvSound) (owner path : PyStr) :
    db.joinRecord owner path =
      match db.recordAt owner path with
      | none => []
      | some r => (db.versionsAt owner path).map fun v => (v, r) := by
  unfold joinRecord
  simp only [key_predicate, Value.sqlEq_int, decide_eq_true_eq]
  rw [Versioning.flatMap_key h.keys]
  simp only [recordAt, versionsAt, Versioning.versionsOf]
  cases kvTables.headOf db.kvRecords.rows (.str owner, .str path) with
  | none => rfl
  | some r => rfl

/-- What stands at a place of the rows under a key: the number is the place. -/
theorem versionsAt_number (h : db.KvSound) {i : ℕ} {v : KvVersion} (hv : (db.versionsAt owner path)[i]? = some v) :
    v.version = .int (i + 1) := by
  simpa [kvTables] using h.number_eq hv

/-- The numbers of the rows under a key, in order. -/
theorem versionsAt_numbers (h : db.KvSound) : (db.versionsAt owner path).map KvVersion.version =
    ((List.range (db.versionsAt owner path).length).map fun i : ℕ => (i : ℤ) + 1).map .int := by
  rw [List.map_map]
  apply List.ext_getElem (by simp)
  intro i hi _
  rw [List.length_map] at hi
  simp [versionsAt_number h (List.getElem?_eq_getElem hi)]

/-- The record's pointer is the number of the last row. -/
theorem recordAt_latest (h : db.KvSound) {r : KvRecord} (hr : db.recordAt owner path = some r) :
    r.latestVersion = .int (db.versionsAt owner path).length ∧ 0 < (db.versionsAt owner path).length :=
  (h.numbers hr).2

theorem versionsAt_eq_nil (h : db.KvSound) : db.versionsAt owner path = [] ↔ db.recordAt owner path = none :=
  Versioning.versionsOf_eq_nil h.toSound

/-- The row with a given number is the one at its place. -/
theorem find_version (h : db.KvSound) (owner path : PyStr) (n : ℕ) :
    (db.versionsAt owner path).find? (fun v => v.version = .int (n + 1)) = (db.versionsAt owner path)[n]? :=
  h.find_number (.str owner, .str path) n

/-- A row of the join can be fetched. -/
theorem KvSound.fetchable (h : db.KvSound) : ∀ row ∈ db.joinRecord owner path, Fetchable (KvVersion.joinedCells row) := by
  rintro ⟨v, r⟩ hrow cell hcell
  obtain ⟨r', hr', hrow⟩ := List.mem_flatMap.mp hrow
  split_ifs at hrow
  · obtain ⟨v', hv', heq⟩ := List.mem_map.mp hrow
    obtain ⟨rfl, rfl⟩ := Prod.mk.inj heq
    rcases List.mem_append.mp hcell with hcell | hcell
    · exact h.versionCells v' (List.mem_filter.mp hv').1 cell hcell
    · obtain rfl := List.mem_singleton.mp hcell
      exact h.recordCells r' hr' _ (by simp [KvRecord.pointerCells])
  · cases hrow

theorem KvSound.fetchable_selectRecord (h : db.KvSound) :
    Fetchable (fetchone KvRecord.pointerCells (db.selectRecord owner path)) := by
  rw [fetchable_fetchone]
  exact fun r hr => h.recordCells r (List.mem_of_find?_eq_some hr)

theorem KvSound.fetchable_selectLatest (h : db.KvSound) :
    Fetchable (fetchone KvVersion.joinedCells (db.selectLatest owner path)) := by
  rw [fetchable_fetchone]
  exact fun row hrow => h.fetchable row (List.mem_of_find?_eq_some hrow)

theorem KvSound.fetchable_selectVersion (h : db.KvSound) {version : ℤ} :
    Fetchable (fetchone KvVersion.joinedCells (db.selectVersion owner path version)) := by
  rw [fetchable_fetchone]
  exact fun row hrow => h.fetchable row (List.mem_of_find?_eq_some hrow)

theorem KvSound.fetchable_selectVersions (h : db.KvSound) :
    Fetchable (fetchall KvVersion.listedCells (db.selectVersions owner path)) := by
  rw [fetchable_fetchall]
  intro row hrow
  apply (h.fetchable row ((List.perm_insertionSort _ _).mem_iff.mp hrow)).subset
  simp [KvVersion.listedCells, KvVersion.joinedCells, KvVersion.cells]

/-- A query for a version finds the row at its place. -/
theorem selectVersion_eq (h : db.KvSound) (n : ℕ) :
    db.selectVersion owner path (n + 1) =
      (db.recordAt owner path).bind fun r => ((db.versionsAt owner path)[n]?).map fun v => (v, r) := by
  unfold selectVersion
  rw [joinRecord_eq h]
  cases db.recordAt owner path with
  | none => rfl
  | some r =>
    simp only [Value.sqlEq_int, Option.bind_some]
    rw [List.find?_map]
    exact congrArg (Option.map _) (find_version h owner path n)

/-- A query for the latest version finds the last row. -/
theorem selectLatest_eq (h : db.KvSound) :
    db.selectLatest owner path =
      (db.recordAt owner path).bind fun r => (db.versionsAt owner path).getLast?.map fun v => (v, r) := by
  unfold selectLatest
  rw [joinRecord_eq h]
  cases hr : db.recordAt owner path with
  | none => rfl
  | some r =>
    obtain ⟨hlatest, hpos⟩ := recordAt_latest h hr
    simp only [Option.bind_some]
    rw [List.find?_map]
    have hnum := find_version h owner path ((db.versionsAt owner path).length - 1)
    rw [List.getLast?_eq_getElem?, ← hnum]
    congr 2
    funext v
    simp only [Function.comp, hlatest, Value.sqlEq_int]
    congr 3
    omega

/-- The listing of the versions finds them in order. -/
theorem selectVersions_eq (h : db.KvSound) :
    db.selectVersions owner path =
      match db.recordAt owner path with
      | none => []
      | some r => (db.versionsAt owner path).map fun v => (v, r) := by
  unfold selectVersions
  rw [joinRecord_eq h]
  cases db.recordAt owner path with
  | none => rfl
  | some r =>
    apply List.Pairwise.insertionSort_eq
    rw [List.pairwise_map, List.pairwise_iff_getElem]
    intro i j hi hj hij
    rw [versionsAt_number h (List.getElem?_eq_getElem hi), versionsAt_number h (List.getElem?_eq_getElem hj)]
    simp only [Value.le_int, decide_eq_true_eq]
    omega

/-! ### Changes -/

theorem insertRecord_eq_ok {version : ℤ} {now : PyStr} {id : ℤ}
    (h : db.insertRecord owner path version now = .ok (id, db')) :
    db.recordAt owner path = none ∧ (∀ r ∈ db.kvRecords.rows, r.id < id) ∧
      db' = { db with
        kvRecords := ⟨db.kvRecords.rows ++ [⟨id, .str owner, .str path, .int version, .str now, .str now⟩], id⟩ } := by
  unfold insertRecord at h
  rw [selectRecord_eq] at h
  cases hr : db.recordAt owner path with
  | some r => simp [hr] at h
  | none =>
    cases hid : db.kvRecords.nextId KvRecord.id with
    | error e => simp [hr, hid] at h
    | ok n =>
      simp only [hr, Option.isSome_none, Bool.false_eq_true, ↓reduceIte, hid, ok_bind] at h
      obtain ⟨rfl, rfl⟩ := Prod.mk.inj (Except.ok.inj h)
      exact ⟨rfl, Table.lt_nextId hid, rfl⟩

theorem insertKvVersion_eq_ok {recordId version : ℤ} {nonce ciphertext tag now : PyStr}
    (h : db.insertKvVersion recordId version nonce ciphertext tag now = .ok db') :
    ∃ id, db' = { db with
      kvVersions := ⟨db.kvVersions.rows ++
        [⟨id, .int recordId, .int version, .str nonce, .str ciphertext, .str tag, .str now⟩], id⟩ } := by
  unfold insertKvVersion at h
  split_ifs at h
  · simp at h
  · simp at h
  · simp at h
  · cases hid : db.kvVersions.nextId KvVersion.id with
    | error e => simp [hid] at h
    | ok n =>
      simp only [hid, ok_bind] at h
      exact ⟨n, (Except.ok.inj h).symm⟩

/-- What a pointer that moves on does to the rows. -/
theorem updateRecord_rows (db : Database) (version : ℤ) (now : PyStr) (id : ℤ) :
    (db.updateRecord version now id).kvRecords.rows = db.kvRecords.rows.map fun r =>
      if kvTables.id r = .int id then { r with latestVersion := .int version, updatedAt := .str now } else r := by
  simp only [updateRecord, kvTables, Value.int.injEq]

/-- What the first half of `append_version` does to the tables: the record's
identifier, the number it allocates and the creation time it reports. -/
inductive Allocated [Platform] (db : Database) (owner path now : PyStr) : ℤ → ℤ → Value → Database → Prop where
  /-- There was no record: one is made. -/
  | created (id : ℤ) : db.recordAt owner path = none → (∀ r ∈ db.kvRecords.rows, r.id < id) →
      Allocated db owner path now id 1 (.str now) { db with
        kvRecords := ⟨db.kvRecords.rows ++ [⟨id, .str owner, .str path, .int 1, .str now, .str now⟩], id⟩ }
  /-- There was one: its pointer moves on. -/
  | bumped (r : KvRecord) (latest : ℤ) : db.recordAt owner path = some r → pyInt r.latestVersion = .ok latest →
      Fits (latest + 1) →
      Allocated db owner path now r.id (latest + 1) r.createdAt (db.updateRecord (latest + 1) now r.id)

/-- An allocated number fits into a cell. -/
theorem Allocated.fits [Platform] {now : PyStr} {id version : ℤ} {createdAt : Value} {db₁ : Database}
    (h : db.Allocated owner path now id version createdAt db₁) : Fits version := by
  cases h with
  | created => decide
  | bumped _ _ _ _ hfits => exact hfits

/-- **One write, one row.** In tables that are in order, an allocation followed by the
insert of the version leaves them in order; the number is one more than the number of
versions there were; and the row stands behind them, under its own key only. -/
theorem Allocated.append [Platform] {now nonce ciphertext tag : PyStr} {id version : ℤ} {createdAt : Value}
    {db₁ db₂ : Database} (h : db.Allocated owner path now id version createdAt db₁) (hs : db.KvSound)
    (hins : db₁.insertKvVersion id version nonce ciphertext tag now = .ok db₂) :
    db₂.KvSound ∧ db.KvFrame db₂ ∧ version = (db.versionsAt owner path).length + 1 ∧ ∃ row : KvVersion,
      row.nonceB64 = .str nonce ∧ row.ciphertextB64 = .str ciphertext ∧ row.tagB64 = .str tag ∧
        ∀ o p, db₂.versionsAt o p =
          if owner = o ∧ path = p then db.versionsAt o p ++ [row] else db.versionsAt o p := by
  have hkey : ∀ o p : PyStr, ((Value.str owner, Value.str path) = (Value.str o, Value.str p)) = (owner = o ∧ path = p) := by
    intro o p
    simp
  obtain ⟨vid, rfl⟩ := insertKvVersion_eq_ok hins
  cases h with
  | created id hnone hid =>
    have hids : ∀ g ∈ db.kvRecords.rows, kvTables.id g ≠ .int id := by
      intro g hg he
      have := hid g hg
      rw [Value.int.inj he] at this
      omega
    have hkeys := Versioning.headOf_eq_none.mp hnone
    refine ⟨⟨hs.create hids hkeys rfl rfl rfl, List.forall_mem_append.mpr ⟨hs.recordCells, ?_⟩,
      List.forall_mem_append.mpr ⟨hs.versionCells, ?_⟩⟩, ⟨rfl, rfl, rfl, rfl⟩, ?_,
      ⟨vid, .int id, .int 1, .str nonce, .str ciphertext, .str tag, .str now⟩, rfl, rfl, rfl, fun o p => ?_⟩
    · simp [KvRecord.pointerCells]
    · simp [KvVersion.cells]
    · rw [(versionsAt_eq_nil hs).mpr hnone]
      rfl
    · refine (Versioning.versionsOf_create (S := kvTables)
        (h := KvRecord.mk id (.str owner) (.str path) (.int 1) (.str now) (.str now))
        (v := KvVersion.mk vid (.int id) (.int 1) (.str nonce) (.str ciphertext) (.str tag) (.str now))
        hs.toSound hids hkeys rfl (.str o, .str p)).trans ?_
      simp only [kvTables, hkey]
      split_ifs with hop
      · obtain ⟨rfl, rfl⟩ := hop
        rw [(versionsAt_eq_nil hs).mpr hnone]
        rfl
      · rfl
  | bumped r latest hr hlatest _ =>
    obtain ⟨hmem, hrk⟩ := Versioning.mem_of_headOf hr
    obtain ⟨hl, -⟩ := recordAt_latest hs hr
    rw [hl, pyInt_int] at hlatest
    obtain rfl := Except.ok.inj hlatest
    have hrows : (db.updateRecord ((db.versionsAt owner path).length + 1) now r.id).kvRecords.rows =
        kvTables.bumped db.kvRecords.rows r fun g =>
          { g with
            latestVersion := .int ((db.versionsAt owner path).length + 1)
            updatedAt := .str now } := updateRecord_rows _ _ _ _
    refine ⟨?_, ⟨rfl, rfl, rfl, rfl⟩, rfl,
      ⟨vid, .int r.id, .int ((db.versionsAt owner path).length + 1), .str nonce, .str ciphertext, .str tag, .str now⟩,
      rfl, rfl, rfl, fun o p => ?_⟩
    · refine ⟨?_, fun g hg => ?_, List.forall_mem_append.mpr ⟨hs.versionCells, ?_⟩⟩
      · simp only [hrows]
        exact hs.bump hmem (fun _ => rfl) (fun _ => rfl) hl rfl rfl rfl
      · -- the pointer is an integer, and the rest was there
        obtain ⟨g', hg', rfl⟩ := List.mem_map.mp hg
        have hcells := hs.recordCells g' hg'
        split_ifs
        · simpa [KvRecord.pointerCells] using hcells g'.createdAt (by simp [KvRecord.pointerCells])
        · exact hcells
      · simp [KvVersion.cells]
    · show kvTables.versionsOf (db.updateRecord _ now r.id).kvRecords.rows _ _ = _
      rw [hrows]
      refine (Versioning.versionsOf_bumped (S := kvTables)
        (f := fun g => { g with
          latestVersion := .int ((db.versionsAt owner path).length + 1)
          updatedAt := .str now })
        (v := KvVersion.mk vid (.int r.id) (.int ((db.versionsAt owner path).length + 1)) (.str nonce)
          (.str ciphertext) (.str tag) (.str now))
        hs.toSound hmem (fun _ => rfl) (fun _ => rfl) rfl (.str o, .str p)).trans ?_
      simp only [hrk, hkey]
      rfl

/-- What a delete does to the rows: it drops a key. -/
theorem deleteRecord_rows (db : Database) (owner path : PyStr) :
    (db.deleteRecord owner path).2.kvRecords.rows = kvTables.keptHeads db.kvRecords.rows (.str owner, .str path) ∧
      (db.deleteRecord owner path).2.kvVersions.rows =
        kvTables.keptVersions db.kvRecords.rows db.kvVersions.rows (.str owner, .str path) := by
  refine ⟨by simp only [deleteRecord, key_predicate, Versioning.keptHeads, ne_eq, decide_not], ?_⟩
  simp only [deleteRecord, key_predicate, Versioning.keptVersions, Value.sqlEq_int]
  apply List.filter_congr
  intro v _
  rw [Bool.eq_iff_iff]
  simp [kvTables]

/-- **A delete** drops the record and its versions, and nothing else; it says whether
there was a record. -/
theorem deleteRecord_spec (hs : db.KvSound) (owner path : PyStr) :
    (db.deleteRecord owner path).2.KvSound ∧ db.KvFrame (db.deleteRecord owner path).2 ∧
      (0 < (db.deleteRecord owner path).1 ↔ db.versionsAt owner path ≠ []) ∧
        ∀ o p, (db.deleteRecord owner path).2.versionsAt o p =
          if o = owner ∧ p = path then [] else db.versionsAt o p := by
  obtain ⟨hheads, hversions⟩ := deleteRecord_rows db owner path
  refine ⟨?_, ⟨rfl, rfl, rfl, rfl⟩, ?_, fun o p => ?_⟩
  · refine ⟨?_, fun r hr => ?_, fun v hv => ?_⟩
    · rw [hheads, hversions]
      exact hs.drop _
    · exact hs.recordCells r (List.mem_filter.mp hr).1
    · exact hs.versionCells v (List.mem_filter.mp hv).1
  · rw [ne_eq, versionsAt_eq_nil hs]
    simp only [deleteRecord, key_predicate, List.length_pos_iff, ne_eq, List.filter_eq_nil_iff,
      decide_eq_true_eq]
    exact not_congr Versioning.headOf_eq_none.symm
  · unfold versionsAt
    rw [hheads, hversions]
    apply (Versioning.versionsOf_kept hs.toSound (.str owner, .str path) (.str o, .str p)).trans
    simp only [Prod.mk.injEq, Value.str.injEq]

/-- A delete that removes no record changes nothing. -/
theorem deleteRecord_none (h : (db.deleteRecord owner path).1 = 0) : (db.deleteRecord owner path).2 = db := by
  have hgone : db.kvRecords.rows.filter (fun r => r.ownerEmail.sqlEq (.str owner) && r.path.sqlEq (.str path)) = [] :=
    List.length_eq_zero_iff.mp h
  have hrecords : (db.kvRecords.rows.filter fun r => !(r.ownerEmail.sqlEq (.str owner) && r.path.sqlEq (.str path))) =
      db.kvRecords.rows := by
    apply List.filter_eq_self.mpr
    intro r hr
    have hnot := List.filter_eq_nil_iff.mp hgone r hr
    rw [Bool.not_eq_true] at hnot
    rw [hnot, Bool.not_false]
  simp only [deleteRecord, hgone, hrecords, List.any_nil, Bool.not_false, List.filter_true]

end Database

end MiniVault
