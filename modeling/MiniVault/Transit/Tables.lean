import MiniVault.Kv.Tables
import MiniVault.Transit.Service

/-!
# The key tables

The statements on `named_keys` and `named_key_versions`, as changes of versioned tables: a
key is a head under its owner and name, and `create`, `rotate` and `delete_owned` create,
bump and drop heads. `KeySound` is the invariant of the two tables.

## What is proved

* `createdKey_sound`, `rotatedKey_sound`, `deleteKey_spec` — what the transactions that
  commit do: one row, with the next number, under one key.
* `selectKeyVersion_eq`, `selectKeyVersions_eq` — what the queries find in tables that are
  in order.
-/

namespace MiniVault

open Foundations

/-- `named_keys` and `named_key_versions` as versioned tables. -/
def keyTables : Versioning NamedKey NamedKeyVersion (Value × Value) Value Value where
  id r := .int r.id
  key r := (r.ownerEmail, r.keyName)
  latest r := r.latestVersion
  ref v := v.keyId
  number v := v.version
  num n := .int n
  num_inj := Value.int_natCast_injective

namespace Database

/-- The key tables are in order, and what is read of them can be fetched. -/
structure KeySound (db : Database) : Prop extends keyTables.Sound db.namedKeys.rows db.namedKeyVersions.rows where
  /-- From `named_keys`. -/
  keyCells : ∀ r ∈ db.namedKeys.rows, Fetchable r.cells
  /-- From `named_key_versions`. -/
  versionCells : ∀ v ∈ db.namedKeyVersions.rows, Fetchable v.cells

/-- The key of an owner with a name. -/
def keyAt (db : Database) (owner name : PyStr) : Option NamedKey :=
  keyTables.headOf db.namedKeys.rows (.str owner, .str name)

/-- The versions of the key of an owner with a name, oldest first. -/
def keyVersionsAt (db : Database) (owner name : PyStr) : List NamedKeyVersion :=
  keyTables.versionsOf db.namedKeys.rows db.namedKeyVersions.rows (.str owner, .str name)

theorem KeySound.fresh : Database.fresh.KeySound :=
  ⟨Versioning.Sound.empty, by simp [Database.fresh, Table.empty], by simp [Database.fresh, Table.empty]⟩

/-- Other tables than the key tables are the same. -/
structure KeyFrame (db db' : Database) : Prop where
  /-- `kv_records`. -/
  kvRecords : db'.kvRecords = db.kvRecords
  /-- `kv_versions`. -/
  kvVersions : db'.kvVersions = db.kvVersions
  /-- `audit_logs`. -/
  auditLogs : db'.auditLogs = db.auditLogs
  /-- `schema_metadata`. -/
  schemaMetadata : db'.schemaMetadata = db.schemaMetadata

variable {db db' : Database} {owner name : PyStr} {r : NamedKey}

theorem namedKey_predicate (r : NamedKey) (owner name : PyStr) :
    (r.ownerEmail.sqlEq (.str owner) && r.keyName.sqlEq (.str name)) =
      decide (keyTables.key r = (.str owner, .str name)) := by
  simp [keyTables, Prod.ext_iff]

theorem selectKey_eq (db : Database) (owner name : PyStr) : db.selectKey owner name = db.keyAt owner name := by
  simp only [selectKey, namedKey_predicate]
  rfl

/-- The key found is in the table, under its owner and name. -/
theorem keyAt_mem (h : db.keyAt owner name = some r) :
    r ∈ db.namedKeys.rows ∧ r.ownerEmail = .str owner ∧ r.keyName = .str name := by
  obtain ⟨hmem, hkey⟩ := Versioning.mem_of_headOf h
  exact ⟨hmem, Prod.ext_iff.mp hkey⟩

theorem KeySound.fetchable_keyAt (h : db.KeySound) : ∀ r ∈ db.keyAt owner name, Fetchable r.cells :=
  fun r hr => h.keyCells r (keyAt_mem hr).1

theorem KeySound.fetchable_selectKey (h : db.KeySound) : Fetchable (fetchone NamedKey.cells (db.selectKey owner name)) := by
  rw [fetchable_fetchone]
  exact fun r hr => h.keyCells r (List.mem_of_find?_eq_some hr)

theorem KeySound.fetchable_pointer (h : db.KeySound) :
    Fetchable (fetchone NamedKey.pointerCells (db.selectKey owner name)) := by
  rw [fetchable_fetchone]
  intro r hr
  refine (h.keyCells r (List.mem_of_find?_eq_some hr)).subset ?_
  simp [NamedKey.pointerCells, NamedKey.cells]

theorem KeySound.fetchable_selectKeyVersion (h : db.KeySound) {keyId version : ℤ} :
    Fetchable (fetchone NamedKeyVersion.cells (db.selectKeyVersion keyId version)) := by
  rw [fetchable_fetchone]
  exact fun v hv => h.versionCells v (List.mem_of_find?_eq_some hv)

theorem KeySound.fetchable_selectKeyVersions (h : db.KeySound) {keyId : ℤ} :
    Fetchable (fetchall NamedKeyVersion.listedCells (db.selectKeyVersions keyId)) := by
  rw [fetchable_fetchall]
  intro v hv
  apply (h.versionCells v (List.mem_filter.mp ((List.perm_insertionSort _ _).mem_iff.mp hv)).1).subset
  simp [NamedKeyVersion.listedCells, NamedKeyVersion.cells]

theorem KeySound.fetchable_selectOwned (h : db.KeySound) : Fetchable (fetchall NamedKey.cells (db.selectOwned owner)) := by
  rw [fetchable_fetchall]
  intro r hr
  exact h.keyCells r (List.mem_filter.mp ((List.perm_insertionSort _ _).mem_iff.mp hr)).1

/-- The versions of a key are the rows that refer to it. -/
theorem keyVersionsAt_eq (h : db.keyAt owner name = some r) :
    db.keyVersionsAt owner name = keyTables.belonging db.namedKeyVersions.rows r := by
  unfold keyAt at h
  simp only [keyVersionsAt, Versioning.versionsOf, h]

theorem keyVersionsAt_number (h : db.KeySound) {i : ℕ} {v : NamedKeyVersion}
    (hv : (db.keyVersionsAt owner name)[i]? = some v) : v.version = .int (i + 1) := by
  simpa [keyTables] using h.number_eq hv

theorem keyAt_latest (h : db.KeySound) (hr : db.keyAt owner name = some r) :
    r.latestVersion = .int (db.keyVersionsAt owner name).length ∧ 0 < (db.keyVersionsAt owner name).length :=
  (h.numbers hr).2

/-- A query for a version finds the row at its place, and nothing where there is none. -/
theorem selectKeyVersion_eq_some (h : db.KeySound) (hr : db.keyAt owner name = some r) {version : ℤ}
    {v : NamedKeyVersion} :
    db.selectKeyVersion r.id version = some v ↔
      ∃ i : ℕ, version = i + 1 ∧ (db.keyVersionsAt owner name)[i]? = some v := by
  have hfind : db.selectKeyVersion r.id version =
      (db.keyVersionsAt owner name).find? fun v => v.version = .int version := by
    rw [keyVersionsAt_eq hr, Versioning.belonging, List.find?_filter, selectKeyVersion]
    congr 1
    funext v
    rw [Bool.eq_iff_iff]
    simp only [Value.sqlEq_int, Bool.and_eq_true, decide_eq_true_eq]
    rfl
  rw [hfind]
  constructor
  · intro hsome
    obtain ⟨i, hi⟩ := List.getElem?_of_mem (List.mem_of_find?_eq_some hsome)
    have hnumber := keyVersionsAt_number h hi
    have hversion : v.version = .int version := by simpa using List.find?_some hsome
    exact ⟨i, Value.int.inj (hversion.symm.trans hnumber), hi⟩
  · rintro ⟨i, rfl, hi⟩
    rw [← hi]
    exact h.find_number (.str owner, .str name) i

/-- The listing of the versions finds them in order. -/
theorem selectKeyVersions_eq (h : db.KeySound) (hr : db.keyAt owner name = some r) :
    db.selectKeyVersions r.id = db.keyVersionsAt owner name := by
  have hrows : (db.namedKeyVersions.rows.filter fun v => v.keyId.sqlEq (.int r.id)) = db.keyVersionsAt owner name := by
    rw [keyVersionsAt_eq hr]
    simp only [Value.sqlEq_int]
    rfl
  unfold selectKeyVersions
  rw [hrows]
  apply List.Pairwise.insertionSort_eq
  rw [List.pairwise_iff_getElem]
  intro i j hi hj hij
  rw [keyVersionsAt_number h (List.getElem?_eq_getElem hi), keyVersionsAt_number h (List.getElem?_eq_getElem hj)]
  simp only [Value.le_int, decide_eq_true_eq]
  omega

/-! ### Changes -/

theorem insertKey_eq_ok {usage now : PyStr} {algorithm : Value} {id : ℤ}
    (h : db.insertKey owner name usage algorithm now = .ok (id, db')) :
    db.keyAt owner name = none ∧ (∀ r ∈ db.namedKeys.rows, r.id < id) ∧
      db' = { db with
        namedKeys := ⟨db.namedKeys.rows ++
          [⟨id, .str owner, .str name, .str usage, algorithm, .int 1, .str now, .str now⟩], id⟩ } := by
  unfold insertKey at h
  rw [selectKey_eq] at h
  cases hr : db.keyAt owner name with
  | some r => simp [hr] at h
  | none =>
    cases hid : db.namedKeys.nextId NamedKey.id with
    | error e => simp [hr, hid] at h
    | ok n =>
      simp only [hr, Option.isSome_none, Bool.false_eq_true, ↓reduceIte, hid, ok_bind] at h
      obtain ⟨rfl, rfl⟩ := Prod.mk.inj (Except.ok.inj h)
      exact ⟨rfl, Table.lt_nextId hid, rfl⟩

theorem insertKeyVersion_eq_ok {keyId version : ℤ} {nonce material tag now : PyStr} {publicKey : Value}
    (h : db.insertKeyVersion keyId version nonce material tag publicKey now = .ok db') :
    ∃ id, db' = { db with
      namedKeyVersions := ⟨db.namedKeyVersions.rows ++
        [⟨id, .int keyId, .int version, .str nonce, .str material, .str tag, publicKey, .str now⟩], id⟩ } := by
  unfold insertKeyVersion at h
  split_ifs at h
  · simp at h
  · simp at h
  · simp at h
  · cases hid : db.namedKeyVersions.nextId NamedKeyVersion.id with
    | error e => simp [hid] at h
    | ok n =>
      simp only [hid, ok_bind] at h
      exact ⟨n, (Except.ok.inj h).symm⟩

/-- The tables with a new key and its first version. -/
def createdKey (db : Database) (key : NamedKey) (version : NamedKeyVersion) : Database :=
  { db with
    namedKeys := ⟨db.namedKeys.rows ++ [key], key.id⟩
    namedKeyVersions := ⟨db.namedKeyVersions.rows ++ [version], version.id⟩ }

/-- A key that points at its next version. -/
def pointKey (number : ℤ) (now : PyStr) (key : NamedKey) : NamedKey :=
  { key with latestVersion := .int number, updatedAt := .str now }

/-- What a pointer that moves on does to the rows. -/
theorem updateKey_rows (db : Database) (version : ℤ) (now : PyStr) (id : ℤ) :
    (db.updateKey version now id).namedKeys.rows = db.namedKeys.rows.map fun r =>
      if keyTables.id r = .int id then pointKey version now r else r := by
  simp only [updateKey, pointKey, keyTables, Value.int.injEq]

/-- The tables with the next version of a key. -/
def rotatedKey (db : Database) (key : NamedKey) (number : ℤ) (now : PyStr) (version : NamedKeyVersion) : Database :=
  { db with namedKeyVersions := ⟨db.namedKeyVersions.rows ++ [version], version.id⟩ }.updateKey number now key.id

theorem key_pair (owner name o n : PyStr) :
    ((Value.str owner, Value.str name) = (Value.str o, Value.str n)) = (owner = o ∧ name = n) := by
  simp

/-- **A key is created**: its first version is all there is under its owner and name, and
nothing else changes. -/
theorem createdKey_sound (hs : db.KeySound) (key : NamedKey) (version : NamedKeyVersion)
    (hnone : db.keyAt owner name = none) (hid : ∀ r ∈ db.namedKeys.rows, r.id < key.id)
    (howner : key.ownerEmail = .str owner) (hname : key.keyName = .str name) (hlatest : key.latestVersion = .int 1)
    (href : version.keyId = .int key.id) (hnumber : version.version = .int 1) (hkeyCells : Fetchable key.cells)
    (hversionCells : Fetchable version.cells) :
    (db.createdKey key version).KeySound ∧ db.KeyFrame (db.createdKey key version) ∧
      (∀ o n, (db.createdKey key version).keyAt o n =
        if owner = o ∧ name = n then some key else db.keyAt o n) ∧
      ∀ o n, (db.createdKey key version).keyVersionsAt o n =
        if owner = o ∧ name = n then [version] else db.keyVersionsAt o n := by
  have hids : ∀ g ∈ db.namedKeys.rows, keyTables.id g ≠ keyTables.id key := by
    intro g hg he
    have hlt := hid g hg
    rw [Value.int.inj he] at hlt
    omega
  have hkeyval : keyTables.key key = (.str owner, .str name) := by simp [keyTables, howner, hname]
  have hkeys : ∀ g ∈ db.namedKeys.rows, keyTables.key g ≠ keyTables.key key := by
    rw [hkeyval]
    exact Versioning.headOf_eq_none.mp hnone
  refine ⟨⟨hs.create hids hkeys hlatest href hnumber,
    List.forall_mem_append.mpr ⟨hs.keyCells, List.forall_mem_singleton.mpr hkeyCells⟩,
    List.forall_mem_append.mpr ⟨hs.versionCells, List.forall_mem_singleton.mpr hversionCells⟩⟩,
    ⟨rfl, rfl, rfl, rfl⟩, fun o n => ?_, fun o n => ?_⟩
  · apply (Versioning.headOf_create hkeys (.str o, .str n)).trans
    simp only [hkeyval, key_pair]
    rfl
  · apply (Versioning.versionsOf_create hs.toSound hids hkeys href (.str o, .str n)).trans
    simp only [hkeyval, key_pair]
    rfl

/-- **A key is rotated**: the version is added behind those there are, and nothing else
changes. -/
theorem rotatedKey_sound (hs : db.KeySound) (version : NamedKeyVersion) (now : PyStr) {latest : ℤ}
    (hr : db.keyAt owner name = some r) (hlatest : r.latestVersion = .int latest) (href : version.keyId = .int r.id)
    (hnumber : version.version = .int (latest + 1)) (hcells : Fetchable version.cells) :
    let db' := db.rotatedKey r (latest + 1) now version
    db'.KeySound ∧ db.KeyFrame db' ∧
      (∀ o n, db'.keyAt o n = if owner = o ∧ name = n then
        some (pointKey (latest + 1) now r) else db.keyAt o n) ∧
      ∀ o n, db'.keyVersionsAt o n =
        if owner = o ∧ name = n then db.keyVersionsAt o n ++ [version] else db.keyVersionsAt o n := by
  intro db'
  obtain ⟨hmem, hkey⟩ := Versioning.mem_of_headOf hr
  obtain ⟨hl, -⟩ := keyAt_latest hs hr
  have hheads : db'.namedKeys.rows = keyTables.bumped db.namedKeys.rows r (pointKey (latest + 1) now) :=
    updateKey_rows _ _ _ _
  have hlen : latest = (db.keyVersionsAt owner name).length := Value.int.inj (hlatest.symm.trans hl)
  refine ⟨?_, ⟨rfl, rfl, rfl, rfl⟩, fun o n => ?_, fun o n => ?_⟩
  · refine ⟨?_, fun g hg => ?_, List.forall_mem_append.mpr ⟨hs.versionCells, List.forall_mem_singleton.mpr hcells⟩⟩
    · rw [hheads]
      exact hs.bump hmem (fun _ => rfl) (fun _ => rfl) hl (by simp [pointKey, keyTables, hlen]) href
        (by simp [keyTables, hnumber, hlen])
    · -- the pointer is an integer, the time is text, and the rest was there
      obtain ⟨g', hg', rfl⟩ := List.mem_map.mp hg
      have hold := hs.keyCells g' hg'
      simp only [NamedKey.cells, fetchable_cons, fetchable_nil, and_true] at hold ⊢
      split_ifs
      · exact ⟨hold.1, hold.2.1, hold.2.2.1, hold.2.2.2.1, rfl, hold.2.2.2.2.2.1, rfl⟩
      · exact hold
  · unfold keyAt
    rw [hheads, Versioning.headOf_bumped (f := pointKey (latest + 1) now) (fun _ => rfl)]
    by_cases hon : owner = o ∧ name = n
    · obtain ⟨rfl, rfl⟩ := hon
      unfold keyAt at hr
      simp [hr]
    · rw [if_neg hon]
      cases hg : keyTables.headOf db.namedKeys.rows (.str o, .str n) with
      | none => rfl
      | some g =>
        -- another key has another identifier
        obtain ⟨hgmem, hgkey⟩ := Versioning.mem_of_headOf hg
        have hne : keyTables.id g ≠ keyTables.id r := by
          intro he
          obtain rfl := hs.eq_of_id hgmem hmem he
          rw [hkey, key_pair] at hgkey
          exact hon hgkey
        simp [hne]
  · show keyTables.versionsOf db'.namedKeys.rows _ _ = _
    rw [hheads]
    refine (Versioning.versionsOf_bumped (f := pointKey (latest + 1) now) hs.toSound hmem (fun _ => rfl) (fun _ => rfl) href
      (.str o, .str n)).trans ?_
    simp only [hkey, key_pair]
    rfl

/-- What a delete does to the rows: it drops a key. -/
theorem deleteKey_rows (db : Database) (owner name : PyStr) :
    (db.deleteKey owner name).2.namedKeys.rows = keyTables.keptHeads db.namedKeys.rows (.str owner, .str name) ∧
      (db.deleteKey owner name).2.namedKeyVersions.rows =
        keyTables.keptVersions db.namedKeys.rows db.namedKeyVersions.rows (.str owner, .str name) := by
  refine ⟨by simp only [deleteKey, namedKey_predicate, Versioning.keptHeads, ne_eq, decide_not], ?_⟩
  simp only [deleteKey, namedKey_predicate, Versioning.keptVersions, Value.sqlEq_int]
  apply List.filter_congr
  intro v _
  rw [Bool.eq_iff_iff]
  simp [keyTables]

/-- **A key is deleted** with its versions, and nothing else; the statement says whether
there was a key. -/
theorem deleteKey_spec (hs : db.KeySound) (owner name : PyStr) :
    (db.deleteKey owner name).2.KeySound ∧ db.KeyFrame (db.deleteKey owner name).2 ∧
      (0 < (db.deleteKey owner name).1 ↔ db.keyAt owner name ≠ none) ∧
      (∀ o n, (db.deleteKey owner name).2.keyAt o n = if o = owner ∧ n = name then none else db.keyAt o n) ∧
      ∀ o n, (db.deleteKey owner name).2.keyVersionsAt o n =
        if o = owner ∧ n = name then [] else db.keyVersionsAt o n := by
  obtain ⟨hheads, hversions⟩ := deleteKey_rows db owner name
  refine ⟨?_, ⟨rfl, rfl, rfl, rfl⟩, ?_, fun o n => ?_, fun o n => ?_⟩
  · refine ⟨?_, fun r hr => ?_, fun v hv => ?_⟩
    · rw [hheads, hversions]
      exact hs.drop _
    · exact hs.keyCells r (List.mem_filter.mp hr).1
    · exact hs.versionCells v (List.mem_filter.mp hv).1
  · simp only [deleteKey, namedKey_predicate, List.length_pos_iff, ne_eq, List.filter_eq_nil_iff, decide_eq_true_eq]
    exact not_congr Versioning.headOf_eq_none.symm
  · unfold keyAt
    rw [hheads]
    apply (Versioning.headOf_keptHeads (S := keyTables) (.str owner, .str name) (.str o, .str n)).trans
    simp only [Prod.mk.injEq, Value.str.injEq]
  · unfold keyVersionsAt
    rw [hheads, hversions]
    apply (Versioning.versionsOf_kept hs.toSound (.str owner, .str name) (.str o, .str n)).trans
    simp only [Prod.mk.injEq, Value.str.injEq]

end Database

end MiniVault
