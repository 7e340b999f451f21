import MiniVault.Transit.Tables

/-!
# The keyring

What the key tables are for, without tables: a user's keys by name, each with its kind and
the materials of its versions (`Keyring`). `Stores` says that the tables hold a keyring,
every material wrapped under the key of the vault for its owner, name, kind and number.

## What is proved

* `run_createBody_eq_ok`, `run_rotateBody_eq_ok` — what the two transactions that wrap a new
  material do when they commit, whatever the wrapper is.
* `KeysFit.create`, `KeysFit.rotate`, `KeysFit.delete` — they leave the tables in order.
* `Stores.create`, `Stores.rotate`, `Stores.delete` — they keep the tables to a keyring.
* `Stores.openVersion`, `Stores.run_metadata` — what is stored is unwrapped again, and
  described.
-/

namespace MiniVault

open Foundations

variable [Platform]

omit [Platform] in
theorem fits_zero : Fits ((0 : ℕ) : ℤ) := by decide

omit [Platform] in
theorem fits_one : Fits ((1 : ℕ) : ℤ) := by decide

/-! ### The abstract keys -/

/-- The keys of the users: under an owner and a name the kind of the key, and the materials
of its versions, oldest first. -/
abbrev Keyring := PyStr → PyStr → Option (KeyKind × List Key)

namespace Keyring

/-- Another key, or none, under an owner and a name. -/
def set (K : Keyring) (owner name : PyStr) (key : Option (KeyKind × List Key)) : Keyring :=
  fun u k => if u = owner ∧ k = name then key else K u k

/-- The key with one more version. -/
def rotated (K : Keyring) (owner name : PyStr) (material : Key) : Keyring :=
  K.set owner name ((K owner name).map fun key => (key.1, key.2 ++ [material]))

omit [Platform] in
@[simp] theorem set_self (K : Keyring) (owner name : PyStr) (key : Option (KeyKind × List Key)) :
    K.set owner name key owner name = key := by
  simp [set]

end Keyring

/-- The row holds the material, wrapped for owner, name, kind and the row's number. -/
def Wraps (dek : Key) (owner name : PyStr) (kind : KeyKind) (row : NamedKeyVersion) (material : Key) : Prop :=
  ∃ (n : ℤ) (blob : EncryptedBlob) (associatedData : Bytes),
    row.version = .int n ∧ TransitService.blobOf row = .ok blob ∧
      TransitService.keyAad (.str owner) (.str name) (.str kind.usage) kind.algorithm n = .ok associatedData ∧
        Opens dek associatedData blob material ∧ row.publicKeyB64 = TransitService.publicKeyOf kind material

theorem Wraps.decodes {dek : Key} {owner name : PyStr} {kind : KeyKind} {row : NamedKeyVersion} {material : Key}
    (h : Wraps dek owner name kind row material) : row.publicKeyB64.decodes := by
  obtain ⟨-, -, -, -, -, -, -, hpublic⟩ := h
  rw [hpublic]
  exact TransitService.decodes_publicKeyOf kind material

/-- The row and its versions hold the key. -/
structure HoldsKey (dek : Key) (db : Database) (owner name : PyStr) (row : NamedKey) (key : KeyKind × List Key) :
    Prop where
  /-- The usage is that of the kind. -/
  usage : row.keyUsage = .str key.1.usage
  /-- And so is the algorithm. -/
  algorithm : row.signingAlgorithm = key.1.algorithm
  /-- The versions hold the materials. -/
  wraps : List.Forall₂ (Wraps dek owner name key.1) (db.keyVersionsAt owner name) key.2

/-- What is held is about the versions. -/
theorem holdsKey_congr {dek : Key} {db db' : Database} {owner name : PyStr}
    (h : db'.keyVersionsAt owner name = db.keyVersionsAt owner name) {row : Option NamedKey}
    {key : Option (KeyKind × List Key)} (hold : Option.Rel (HoldsKey dek db owner name) row key) :
    Option.Rel (HoldsKey dek db' owner name) row key := by
  cases hold with
  | none => exact .none
  | some hold => exact .some ⟨hold.usage, hold.algorithm, h ▸ hold.wraps⟩

/-- **The tables hold the keyring.** -/
structure Stores (dek : Key) (db : Database) (K : Keyring) : Prop where
  /-- The tables are in order. -/
  sound : db.KeySound
  /-- An identifier fits into a cell. -/
  fits : ∀ r ∈ db.namedKeys.rows, Fits r.id
  /-- A number does. -/
  numbers : ∀ u k, Fits (db.keyVersionsAt u k).length
  /-- Every key has an owner and a name. -/
  named : ∀ r ∈ db.namedKeys.rows, ∃ owner name, r.ownerEmail = .str owner ∧ r.keyName = .str name
  /-- What is stored under an owner and a name is what the keyring has there. -/
  holds : ∀ u k, Option.Rel (HoldsKey dek db u k) (db.keyAt u k) (K u k)

/-! ### The transactions -/

namespace NamedKeyRepository

variable {owner name usage now : PyStr} {algorithm : Value} {wrap : WrapForVersion} {w w' : World}

/-- The row of a new key. -/
def newKey (id : ℤ) (owner name usage : PyStr) (algorithm : Value) (now : PyStr) : NamedKey :=
  ⟨id, .str owner, .str name, .str usage, algorithm, .int 1, .str now, .str now⟩

/-- The row of a new version. -/
def newVersion (id keyId number : ℤ) (wrapped : Wrapped) (now : PyStr) : NamedKeyVersion :=
  ⟨id, .int keyId, .int number, .str wrapped.nonceB64, .str wrapped.materialB64, .str wrapped.tagB64,
    wrapped.publicKeyB64, .str now⟩

omit [Platform] in
theorem fetchable_newKey {id : ℤ} (h : algorithm.decodes) : Fetchable (newKey id owner name usage algorithm now).cells := by
  simp [NamedKey.cells, newKey, h]

omit [Platform] in
theorem fetchable_newVersion {id keyId number : ℤ} {wrapped : Wrapped} (h : wrapped.publicKeyB64.decodes) :
    Fetchable (newVersion id keyId number wrapped now).cells := by
  simp [NamedKeyVersion.cells, newVersion, h]

omit [Platform] in
/-- What the insert of a version does: it wraps, and stores the row. -/
theorem run_insertVersion_eq_ok {keyId version : ℤ} {u : Unit}
    (h : (insertVersion keyId version wrap now).run w = (.ok u, w')) :
    Fits keyId ∧ Fits version ∧ ∃ wrapped w₁ id, wrapped.publicKeyB64.decodes ∧
      (wrap.wrap version).run w = (.ok wrapped, w₁) ∧ w' = { w₁ with db := { w₁.db with
        namedKeyVersions := ⟨w₁.db.namedKeyVersions.rows ++ [newVersion id keyId version wrapped now], id⟩ } } := by
  unfold insertVersion at h
  obtain ⟨wrapped, w₁, hwrap, h⟩ := Prog.run_bind_eq_ok.mp h
  obtain ⟨hbind, db, hdb, rfl⟩ := run_execute_eq_ok.mp h
  refine ⟨(bindValue_int_iff _).mp (bindAll_eq_ok hbind _ (by simp)),
    (bindValue_int_iff _).mp (bindAll_eq_ok hbind _ (by simp)), wrapped, w₁, ?_⟩
  have hpublic := decodes_of_bindValue (bindAll_eq_ok hbind wrapped.publicKeyB64 (by simp))
  cases hins : w₁.db.insertKeyVersion keyId version wrapped.nonceB64 wrapped.materialB64 wrapped.tagB64
      wrapped.publicKeyB64 now with
  | error e => simp [hins, Except.map] at hdb
  | ok db' =>
    simp only [hins, Except.map, Except.ok.injEq, Prod.mk.injEq, true_and] at hdb
    subst hdb
    obtain ⟨id, rfl⟩ := Database.insertKeyVersion_eq_ok hins
    exact ⟨id, hpublic, hwrap, rfl⟩

omit [Platform] in
/-- **What a creation that commits does**, with a wrapper that leaves the database alone. -/
theorem run_createBody_eq_ok {u : Unit} (hwrap : ∀ v, Keeps World.db (wrap.wrap v))
    (h : (createBody owner name usage algorithm wrap now).run w = (.ok u, w')) :
    Bindable owner ∧ Bindable name ∧ algorithm.decodes ∧ w.db.keyAt owner name = none ∧
      ∃ id versionId wrapped w₀ w₁, wrapped.publicKeyB64.decodes ∧ Fits id ∧ (∀ r ∈ w.db.namedKeys.rows, r.id < id) ∧
        (∃ db, w₀ = { w with db := db }) ∧ (wrap.wrap 1).run w₀ = (.ok wrapped, w₁) ∧
          w' = { w₁ with
            db := w.db.createdKey (newKey id owner name usage algorithm now) (newVersion versionId id 1 wrapped now) } := by
  unfold createBody at h
  obtain ⟨id, _, hins, h⟩ := Prog.run_bind_eq_ok.mp h
  obtain ⟨hbind, db, hdb, rfl⟩ := run_execute_eq_ok.mp hins
  obtain ⟨hnone, hid, rfl⟩ := Database.insertKey_eq_ok hdb
  obtain ⟨hfits, -, wrapped, w₁, versionId, hpublic, hw, rfl⟩ := run_insertVersion_eq_ok h
  refine ⟨(bindValue_str_iff owner).mp (bindAll_eq_ok hbind _ (by simp)),
    (bindValue_str_iff name).mp (bindAll_eq_ok hbind _ (by simp)),
    decodes_of_bindValue (bindAll_eq_ok hbind algorithm (by simp)), hnone, id, versionId, wrapped, _, w₁, hpublic, hfits,
    hid, ⟨_, rfl⟩, hw, ?_⟩
  have hdb₁ := (hwrap 1).run { w with db := { w.db with
    namedKeys := ⟨w.db.namedKeys.rows ++ [newKey id owner name usage algorithm now], id⟩ } }
  have hsame : w₁.db = _ := (congrArg (fun r : Except Exc Wrapped × World => r.2.db) hw).symm.trans hdb₁
  rw [hsame]
  rfl

/-- **What a rotation that commits does**: nothing where there is no key, and else the key
gets its next version. -/
theorem run_rotateBody_eq_ok {b : Bool} (hwrap : ∀ v, Keeps World.db (wrap.wrap v))
    (h : (rotateBody owner name wrap now).run w = (.ok b, w')) :
    Bindable owner ∧ Bindable name ∧ ((b = false ∧ w.db.keyAt owner name = none ∧ w' = w) ∨
      (b = true ∧ ∃ r latest versionId wrapped w₁, wrapped.publicKeyB64.decodes ∧ w.db.keyAt owner name = some r ∧
        pyInt r.latestVersion = .ok latest ∧ Fits r.id ∧ Fits (latest + 1) ∧
          (wrap.wrap (latest + 1)).run w = (.ok wrapped, w₁) ∧
            w' = { w₁ with
              db := w.db.rotatedKey r (latest + 1) now (newVersion versionId r.id (latest + 1) wrapped now) })) := by
  unfold rotateBody at h
  obtain ⟨row, _, hq, h⟩ := Prog.run_bind_eq_ok.mp h
  obtain ⟨hbind, -, rfl, rfl⟩ := run_query_eq_ok.mp hq
  refine ⟨(bindValue_str_iff owner).mp (bindAll_eq_ok hbind _ (by simp)),
    (bindValue_str_iff name).mp (bindAll_eq_ok hbind _ (by simp)), ?_⟩
  rw [Database.selectKey_eq] at h
  cases hr : w.db.keyAt owner name with
  | none =>
    simp only [hr, Prog.run_pure, Prod.mk.injEq, Except.ok.injEq] at h
    exact .inl ⟨h.1.symm, rfl, h.2.symm⟩
  | some r =>
    simp only [hr] at h
    obtain ⟨latest, _, hint, h⟩ := Prog.run_bind_eq_ok.mp h
    obtain ⟨hlatest, rfl⟩ := Prog.run_done_eq_ok.mp hint
    obtain ⟨_, _, hins, h⟩ := Prog.run_bind_eq_ok.mp h
    obtain ⟨hid, hversion, wrapped, w₁, versionId, hpublic, hw, rfl⟩ := run_insertVersion_eq_ok hins
    obtain ⟨_, _, hup, h⟩ := Prog.run_bind_eq_ok.mp h
    obtain ⟨-, db, hdb, rfl⟩ := run_execute_eq_ok.mp hup
    obtain ⟨-, rfl⟩ := Prod.mk.inj (Except.ok.inj hdb)
    simp only [Prog.run_pure, Prod.mk.injEq, Except.ok.injEq] at h
    obtain ⟨rfl, rfl⟩ := h
    have hdb₁ := (hwrap (latest + 1)).run w
    rw [hw] at hdb₁
    refine .inr ⟨rfl, r, latest, versionId, wrapped, w₁, hpublic, rfl, hlatest, hid, hversion, hw, ?_⟩
    simp only [Database.rotatedKey, show w₁.db = w.db from hdb₁]
    rfl

end NamedKeyRepository

namespace TransitService

variable {owner name : PyStr} {kind : KeyKind} {coins : KeyCoins} {w w' : World}

/-- **What a wrapper does**: the material is encrypted under the key of the vault, for
owner, name, kind and number. -/
theorem run_wrapFor_eq_ok {version : ℤ} {wrapped : Wrapped} :
    ((wrapFor kind owner name coins).wrap version).run w = (.ok wrapped, w') ↔
      ∃ dek associatedData encrypted, w.dek = some dek ∧
        keyAad (.str owner) (.str name) (.str kind.usage) kind.algorithm version = .ok associatedData ∧
          Platform.aesGcmEncrypt dek coins.nonce coins.material associatedData = .ok encrypted ∧
            let blob := EncryptedBlob.split coins.nonce encrypted
            wrapped = ⟨encodeB64 blob.nonce, encodeB64 blob.ciphertext, encodeB64 blob.tag,
              publicKeyOf kind coins.material⟩ ∧
              w' = { w with sealed := w.sealed ++ [⟨dek, associatedData, coins.material, blob⟩] } := by
  unfold wrapFor
  constructor
  · intro h
    obtain ⟨dek, _, hget, h⟩ := Prog.run_bind_eq_ok.mp h
    obtain ⟨hdek, rfl⟩ := run_getDek_eq_ok.mp hget
    obtain ⟨associatedData, _, hdone, h⟩ := Prog.run_bind_eq_ok.mp h
    obtain ⟨haad, rfl⟩ := Prog.run_done_eq_ok.mp hdone
    obtain ⟨blob, _, hrun, h⟩ := Prog.run_bind_eq_ok.mp h
    obtain ⟨-, encrypted, henc, rfl, rfl⟩ := run_encryptAesGcm_eq_ok.mp hrun
    simp only [Prog.run_pure, Prod.mk.injEq, Except.ok.injEq] at h
    exact ⟨dek, associatedData, encrypted, hdek, haad, henc, h.1.symm, h.2.symm⟩
  · rintro ⟨dek, associatedData, encrypted, hdek, haad, henc, rfl, rfl⟩
    refine Prog.run_bind_eq_ok.mpr ⟨dek, w, run_getDek_eq_ok.mpr ⟨hdek, rfl⟩, ?_⟩
    refine Prog.run_bind_eq_ok.mpr ⟨associatedData, w, by rw [haad]; rfl, ?_⟩
    exact Prog.run_bind_eq_ok.mpr
      ⟨_, _, run_encryptAesGcm_eq_ok.mpr ⟨dek.2, encrypted, henc, rfl, rfl⟩, rfl⟩

/-- A wrapper changes nothing but the record of what was encrypted. -/
theorem wrapFor_keeps {γ : Type} {f : World → γ} (hf : ∀ (w : World) sealed, f { w with sealed := sealed } = f w)
    (version : ℤ) : Keeps f ((wrapFor kind owner name coins).wrap version) :=
  .bind .getDek fun _ => .bind (.done _) fun _ => .bind (encryptAesGcm_keeps hf) fun _ => .pure _

/-- The row with what a wrapper returns holds the material. -/
theorem wraps_newVersion (hgcm : GcmCorrect) {dek : Key} {id keyId version : ℤ} {now : PyStr} {associatedData encrypted : Bytes}
    (haad : keyAad (.str owner) (.str name) (.str kind.usage) kind.algorithm version = .ok associatedData)
    (henc : Platform.aesGcmEncrypt dek coins.nonce coins.material associatedData = .ok encrypted) :
    let blob := EncryptedBlob.split coins.nonce encrypted
    Wraps dek owner name kind (NamedKeyRepository.newVersion id keyId version ⟨encodeB64 blob.nonce,
      encodeB64 blob.ciphertext, encodeB64 blob.tag, publicKeyOf kind coins.material⟩ now) coins.material := by
  intro blob
  refine ⟨version, blob, associatedData, rfl, ?_, haad, hgcm.opens dek.2 henc, rfl⟩
  simp [blobOf, NamedKeyRepository.newVersion]

end TransitService

/-! ### Tables that are in order -/

/-- The key tables are in order, and what a query is given of them fits into a cell. -/
structure KeysFit (db : Database) : Prop where
  /-- The tables are in order. -/
  sound : db.KeySound
  /-- An identifier fits. -/
  ids : ∀ r ∈ db.namedKeys.rows, Fits r.id
  /-- A number does. -/
  numbers : ∀ u k, Fits (db.keyVersionsAt u k).length

namespace KeysFit

variable {db : Database} {owner name usage now : PyStr} {algorithm : Value} {r : NamedKey}

omit [Platform] in
theorem fresh : KeysFit .fresh where
  sound := .fresh
  ids := by simp [Database.fresh, Table.empty]
  numbers _ _ := fits_zero

omit [Platform] in
/-- It is about the key tables. -/
theorem of_tables (h : KeysFit db) {db' : Database} (hkeys : db'.namedKeys = db.namedKeys)
    (hversions : db'.namedKeyVersions = db.namedKeyVersions) : KeysFit db' := by
  refine ⟨⟨?_, hkeys ▸ h.sound.keyCells, hversions ▸ h.sound.versionCells⟩, by rw [hkeys]; exact h.ids, fun u k => ?_⟩
  · rw [hkeys, hversions]
    exact h.sound.toSound
  · have hversionsAt : db'.keyVersionsAt = db.keyVersionsAt := by
      unfold Database.keyVersionsAt
      rw [hkeys, hversions]
    rw [hversionsAt]
    exact h.numbers u k

omit [Platform] in
/-- A key is created with an identifier that fits. -/
theorem create (h : KeysFit db) {id versionId : ℤ} {wrapped : Wrapped} (halgorithm : algorithm.decodes)
    (hpublic : wrapped.publicKeyB64.decodes) (hnone : db.keyAt owner name = none)
    (hid : ∀ r ∈ db.namedKeys.rows, r.id < id) (hfits : Fits id) :
    KeysFit (db.createdKey (NamedKeyRepository.newKey id owner name usage algorithm now)
      (NamedKeyRepository.newVersion versionId id 1 wrapped now)) := by
  obtain ⟨hsound, -, -, hversions⟩ := Database.createdKey_sound h.sound
    (NamedKeyRepository.newKey id owner name usage algorithm now)
    (NamedKeyRepository.newVersion versionId id 1 wrapped now) hnone hid rfl rfl rfl rfl rfl
    (NamedKeyRepository.fetchable_newKey halgorithm) (NamedKeyRepository.fetchable_newVersion hpublic)
  refine ⟨hsound, fun r hr => ?_, fun u k => ?_⟩
  · rcases List.mem_append.mp hr with hr | hr
    · exact h.ids r hr
    · rw [List.mem_singleton.mp hr]
      exact hfits
  · rw [hversions]
    split_ifs
    · exact fits_one
    · exact h.numbers u k

omit [Platform] in
/-- A key is rotated to a number that fits. -/
theorem rotate (h : KeysFit db) {latest versionId : ℤ} {wrapped : Wrapped} (hpublic : wrapped.publicKeyB64.decodes)
    (hr : db.keyAt owner name = some r)
    (hlatest : r.latestVersion = .int latest) (hfits : Fits (latest + 1)) :
    KeysFit (db.rotatedKey r (latest + 1) now
      (NamedKeyRepository.newVersion versionId r.id (latest + 1) wrapped now)) := by
  obtain ⟨hsound, -, -, hversions⟩ := Database.rotatedKey_sound h.sound
    (NamedKeyRepository.newVersion versionId r.id (latest + 1) wrapped now) now hr hlatest rfl rfl
    (NamedKeyRepository.fetchable_newVersion hpublic)
  have hlen : latest = (db.keyVersionsAt owner name).length :=
    Value.int.inj (hlatest.symm.trans (Database.keyAt_latest h.sound hr).1)
  refine ⟨hsound, fun r' hr' => ?_, fun u k => ?_⟩
  · obtain ⟨g, hg, rfl⟩ := List.mem_map.mp hr'
    split_ifs <;> exact h.ids g hg
  · rw [hversions]
    split_ifs with hu
    · obtain ⟨rfl, rfl⟩ := hu
      rw [List.length_append, List.length_singleton]
      push_cast
      rwa [← hlen]
    · exact h.numbers u k

omit [Platform] in
theorem delete (h : KeysFit db) (owner name : PyStr) : KeysFit (db.deleteKey owner name).2 := by
  obtain ⟨hsound, -, -, -, hversions⟩ := Database.deleteKey_spec h.sound owner name
  refine ⟨hsound, fun r hr => h.ids r (List.mem_of_mem_filter hr), fun u k => ?_⟩
  rw [hversions]
  split_ifs
  · exact fits_zero
  · exact h.numbers u k

/-- The latest number of a key, as an integer. -/
theorem latest (h : KeysFit db) (hr : db.keyAt owner name = some r) {n : ℤ} (hn : pyInt r.latestVersion = .ok n) :
    r.latestVersion = .int n := by
  have hlen := (Database.keyAt_latest h.sound hr).1
  rw [hlen, pyInt_int] at hn
  rw [hlen, Except.ok.inj hn]

end KeysFit

/-! ### The tables keep to a keyring -/

namespace Stores

variable {dek : Key} {db : Database} {K : Keyring} {owner name now : PyStr} {kind : KeyKind} {r : NamedKey}

/-- What is stored is in order. -/
theorem keysFit (h : Stores dek db K) : KeysFit db := ⟨h.sound, h.fits, h.numbers⟩

/-- An empty vault stores no keys. -/
theorem fresh (dek : Key) : Stores dek Database.fresh fun _ _ => none where
  sound := .fresh
  fits := by simp [Database.fresh, Table.empty]
  numbers _ _ := fits_zero
  named := by simp [Database.fresh, Table.empty]
  holds _ _ := .none

/-- What is stored is about the key tables. -/
theorem of_tables (h : Stores dek db K) {db' : Database} (hkeys : db'.namedKeys = db.namedKeys)
    (hversions : db'.namedKeyVersions = db.namedKeyVersions) : Stores dek db' K := by
  have hat : db'.keyAt = db.keyAt := by
    unfold Database.keyAt
    rw [hkeys]
  have hversionsAt : db'.keyVersionsAt = db.keyVersionsAt := by
    unfold Database.keyVersionsAt
    rw [hkeys, hversions]
  obtain ⟨hsound, hids, hnumbers⟩ := h.keysFit.of_tables hkeys hversions
  refine ⟨hsound, hids, hnumbers, by rw [hkeys]; exact h.named, fun u k => ?_⟩
  · rw [hat]
    exact holdsKey_congr (by rw [hversionsAt]) (h.holds u k)

/-- There is a row exactly where there is a key. -/
theorem keyAt_eq_none (h : Stores dek db K) : db.keyAt owner name = none ↔ K owner name = none := by
  have hrel := h.holds owner name
  revert hrel
  cases db.keyAt owner name <;> cases K owner name <;> intro hrel <;> cases hrel <;> simp

/-- The key of a row. -/
theorem holdsKey (h : Stores dek db K) (hr : db.keyAt owner name = some r) :
    ∃ key, K owner name = some key ∧ HoldsKey dek db owner name r key := by
  have hrel := h.holds owner name
  rw [hr] at hrel
  cases hK : K owner name with
  | none => rw [hK] at hrel; cases hrel
  | some key =>
    rw [hK] at hrel
    cases hrel with
    | some hold => exact ⟨key, rfl, hold⟩

/-- A key that is created is stored. -/
theorem create (h : Stores dek db K) {material : Key} {id versionId : ℤ} {wrapped : Wrapped}
    (hnone : db.keyAt owner name = none) (hid : ∀ r ∈ db.namedKeys.rows, r.id < id) (hfits : Fits id)
    (hwraps : Wraps dek owner name kind (NamedKeyRepository.newVersion versionId id 1 wrapped now) material) :
    Stores dek (db.createdKey (NamedKeyRepository.newKey id owner name kind.usage kind.algorithm now)
      (NamedKeyRepository.newVersion versionId id 1 wrapped now)) (K.set owner name (some (kind, [material]))) := by
  obtain ⟨-, -, hat, hversions⟩ := Database.createdKey_sound h.sound
    (NamedKeyRepository.newKey id owner name kind.usage kind.algorithm now)
    (NamedKeyRepository.newVersion versionId id 1 wrapped now) hnone hid rfl rfl rfl rfl rfl
    (NamedKeyRepository.fetchable_newKey kind.decodes_algorithm) (NamedKeyRepository.fetchable_newVersion hwraps.decodes)
  obtain ⟨hsound, hids, hnumbers⟩ := h.keysFit.create kind.decodes_algorithm hwraps.decodes hnone hid hfits
  refine ⟨hsound, hids, hnumbers, fun r hr => ?_, fun u k => ?_⟩
  · rcases List.mem_append.mp hr with hr | hr
    · exact h.named r hr
    · rw [List.mem_singleton.mp hr]
      exact ⟨owner, name, rfl, rfl⟩
  · rw [hat, Keyring.set]
    by_cases hu : owner = u ∧ name = k
    · obtain ⟨rfl, rfl⟩ := hu
      simp only [and_self, ↓reduceIte]
      refine .some ⟨rfl, rfl, ?_⟩
      rw [hversions, if_pos ⟨rfl, rfl⟩]
      exact .cons hwraps .nil
    · rw [if_neg hu, if_neg fun he => hu ⟨he.1.symm, he.2.symm⟩]
      exact holdsKey_congr (by rw [hversions, if_neg hu]) (h.holds u k)

/-- A key that is rotated is stored with one more version. -/
theorem rotate (h : Stores dek db K) {material : Key} {key : KeyKind × List Key} {latest versionId : ℤ}
    {wrapped : Wrapped} (hr : db.keyAt owner name = some r) (hK : K owner name = some key)
    (hlatest : pyInt r.latestVersion = .ok latest) (hfits : Fits (latest + 1))
    (hwraps : Wraps dek owner name key.1 (NamedKeyRepository.newVersion versionId r.id (latest + 1) wrapped now) material) :
    Stores dek (db.rotatedKey r (latest + 1) now (NamedKeyRepository.newVersion versionId r.id (latest + 1) wrapped now))
      (K.rotated owner name material) := by
  have hl := h.keysFit.latest hr hlatest
  obtain ⟨-, -, hat, hversions⟩ := Database.rotatedKey_sound h.sound
    (NamedKeyRepository.newVersion versionId r.id (latest + 1) wrapped now) now hr hl rfl rfl
    (NamedKeyRepository.fetchable_newVersion hwraps.decodes)
  obtain ⟨hsound, hids, hnumbers⟩ := h.keysFit.rotate hwraps.decodes hr hl hfits
  have hrow : ∀ r' ∈ (db.rotatedKey r (latest + 1) now
      (NamedKeyRepository.newVersion versionId r.id (latest + 1) wrapped now)).namedKeys.rows,
      ∃ g ∈ db.namedKeys.rows, r'.ownerEmail = g.ownerEmail ∧ r'.keyName = g.keyName := by
    intro r' hr'
    obtain ⟨g, hg, rfl⟩ := List.mem_map.mp hr'
    refine ⟨g, hg, ?_⟩
    split_ifs <;> exact ⟨rfl, rfl⟩
  refine ⟨hsound, hids, hnumbers, fun r' hr' => ?_, fun u k => ?_⟩
  · obtain ⟨g, hg, ho, hn⟩ := hrow r' hr'
    rw [ho, hn]
    exact h.named g hg
  · rw [hat, Keyring.rotated, Keyring.set]
    by_cases hu : owner = u ∧ name = k
    · obtain ⟨rfl, rfl⟩ := hu
      obtain ⟨key', hK', hold⟩ := h.holdsKey hr
      obtain rfl : key = key' := Option.some.inj (hK.symm.trans hK')
      simp only [and_self, ↓reduceIte, hK, Option.map_some]
      refine .some ⟨hold.usage, hold.algorithm, ?_⟩
      rw [hversions, if_pos ⟨rfl, rfl⟩]
      exact List.rel_append hold.wraps (.cons hwraps .nil)
    · rw [if_neg hu, if_neg fun he => hu ⟨he.1.symm, he.2.symm⟩]
      exact holdsKey_congr (by rw [hversions, if_neg hu]) (h.holds u k)

/-- A key that is deleted is gone. -/
theorem delete (h : Stores dek db K) (owner name : PyStr) :
    Stores dek (db.deleteKey owner name).2 (K.set owner name none) := by
  obtain ⟨-, -, -, hat, hversions⟩ := Database.deleteKey_spec h.sound owner name
  obtain ⟨hsound, hids, hnumbers⟩ := h.keysFit.delete owner name
  refine ⟨hsound, hids, hnumbers, fun r hr => h.named r (List.mem_of_mem_filter hr), fun u k => ?_⟩
  · rw [hat, Keyring.set]
    split_ifs with hu
    · exact .none
    · exact holdsKey_congr (by rw [hversions, if_neg hu]) (h.holds u k)

/-! ### What is stored is found -/

/-- There are as many versions as materials. -/
theorem length_eq (h : Stores dek db K) {key : KeyKind × List Key} (hr : db.keyAt owner name = some r)
    (hK : K owner name = some key) : (db.keyVersionsAt owner name).length = key.2.length := by
  obtain ⟨key', hK', hold⟩ := h.holdsKey hr
  obtain rfl : key = key' := Option.some.inj (hK.symm.trans hK')
  exact hold.wraps.length_eq

/-- The query for a version finds its row, which is unwrapped to its material; and where
there is no such material it finds nothing. -/
theorem selectKeyVersion (h : Stores dek db K) {key : KeyKind × List Key} (hr : db.keyAt owner name = some r)
    (hK : K owner name = some key) (i : ℕ) :
    (∃ v m, db.selectKeyVersion r.id (i + 1) = some v ∧ key.2[i]? = some m ∧ v.version = .int (i + 1) ∧
        TransitService.openVersion dek r v = .ok m ∧ v.publicKeyB64 = TransitService.publicKeyOf key.1 m) ∨
      (db.selectKeyVersion r.id (i + 1) = none ∧ key.2[i]? = none) := by
  obtain ⟨key', hK', hold⟩ := h.holdsKey hr
  obtain rfl : key = key' := Option.some.inj (hK.symm.trans hK')
  have hlen := hold.wraps.length_eq
  obtain ⟨-, howner, hname⟩ := Database.keyAt_mem hr
  by_cases hi : i < (db.keyVersionsAt owner name).length
  · have hv := List.getElem?_eq_getElem hi
    obtain ⟨n, blob, associatedData, hn, hblob, haad, hopens, hpublic⟩ := hold.wraps.get hi (hlen ▸ hi)
    have hopens' : decryptAesGcm dek blob associatedData = .ok _ := hopens
    refine .inl ⟨_, _, (Database.selectKeyVersion_eq_some h.sound hr).mpr ⟨i, rfl, hv⟩,
      List.getElem?_eq_getElem (hlen ▸ hi), Database.keyVersionsAt_number h.sound hv, ?_, hpublic⟩
    simp only [List.get_eq_getElem] at hn hblob hopens'
    unfold TransitService.openVersion
    rw [howner, hname, hold.usage, hold.algorithm]
    simp only [hblob, hn, pyInt_int, haad, ok_bind, hopens']
  · refine .inr ⟨?_, List.getElem?_eq_none (by omega)⟩
    rw [Option.eq_none_iff_forall_ne_some]
    intro v hv
    obtain ⟨j, hj, hget⟩ := (Database.selectKeyVersion_eq_some h.sound hr).mp hv
    have hlt := (List.getElem?_eq_some_iff.mp hget).1
    omega

/-- A version that is found is one of the key's, and is unwrapped to its material. -/
theorem opened (h : Stores dek db K) {key : KeyKind × List Key} (hr : db.keyAt owner name = some r)
    (hK : K owner name = some key) {n : ℤ} {v : NamedKeyVersion} (hv : db.selectKeyVersion r.id n = some v) :
    ∃ (i : ℕ) (m : Key), n = i + 1 ∧ key.2[i]? = some m ∧ v.version = .int n ∧
      TransitService.openVersion dek r v = .ok m ∧ v.publicKeyB64 = TransitService.publicKeyOf key.1 m := by
  obtain ⟨i, rfl, -⟩ := (Database.selectKeyVersion_eq_some h.sound hr).mp hv
  rcases h.selectKeyVersion hr hK i with ⟨v', m, hv', hm, hversion, hopen, hpublic⟩ | ⟨hnone, -⟩
  · obtain rfl : v = v' := Option.some.inj (hv.symm.trans hv')
    exact ⟨i, m, rfl, hm, hversion, hopen, hpublic⟩
  · rw [hnone] at hv
    cases hv

end Stores

end MiniVault
