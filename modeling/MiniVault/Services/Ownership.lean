import MiniVault.Services.Isolation

/-!
# What is whose

Every row that the services store is a user's: a record stands under a path that names its
owner, a key under its owner's email. No request made for somebody else changes it.

## The model

* `Placed` — the rows are where the checks of the services allow them to be.
* `SameStores u` — the records and keys of the user, with all their versions, are the same in
  two states.

## What is proved

* `Change.placed`, `Change.others` — what one transaction does to the rows of its user and of
  all others.
* `rows_placed` — in every state that an interleaving of requests reaches, the rows are placed.
* `others_leave_stores` — whatever a user has is left as it is for as long as only requests of
  others take their turns, in whatever order, and wherever those requests had got to before.
-/

namespace MiniVault

open Foundations

section Ownership

variable [Platform]

/-! ### Where a row may be -/

/-- Each record is under a path that names its owner; each key has a name of the form a token can hold, and is for what
its kind is for. -/
structure Placed (db : Database) : Prop where
  /-- The records. -/
  records : ∀ r ∈ db.kvRecords.rows, ∃ owner path : PyStr, r.ownerEmail = .str owner ∧ r.path = .str path ∧
    extractOwnerEmailFromPath path = .ok owner
  /-- The keys. -/
  keys : ∀ r ∈ db.namedKeys.rows, ∃ (owner name : PyStr) (kind : KeyKind), r.ownerEmail = .str owner ∧
    r.keyName = .str name ∧ keyNamePattern name ∧ r.keyUsage = .str kind.usage ∧ r.signingAlgorithm = kind.algorithm

namespace Placed

variable {db db' : Database} {owner : PyStr}

theorem fresh : Placed .fresh := ⟨fun _ hr => absurd hr List.not_mem_nil, fun _ hr => absurd hr List.not_mem_nil⟩

/-- It is about two tables. -/
theorem of_rows (h : Placed db) (hrecords : db'.kvRecords.rows = db.kvRecords.rows)
    (hkeys : db'.namedKeys.rows = db.namedKeys.rows) : Placed db' :=
  ⟨hrecords ▸ h.records, hkeys ▸ h.keys⟩

theorem of_besideAccounts (h : Placed db) (heq : db'.besideAccounts = db.besideAccounts) : Placed db' := by
  obtain ⟨hrecords, hkeys, -⟩ := Database.parts_of_besideAccounts heq
  simp only [Database.recordPart, Database.keyTables, Prod.mk.injEq] at hrecords hkeys
  exact h.of_rows (congrArg Table.rows hrecords.1) (congrArg Table.rows hkeys.1)

end Placed

section Transaction

variable {db db' : Database} {owner u : PyStr}

/-- **A transaction places what it adds.** -/
theorem Change.placed (hchange : Change owner db db') (h : Placed db) : Placed db' := by
  cases hchange with
  | @created path now nonce ciphertext tag id db₁ db₂ hpath hins hversion =>
    obtain ⟨-, -, rfl⟩ := Database.insertRecord_eq_ok hins
    obtain ⟨vid, rfl⟩ := Database.insertKvVersion_eq_ok hversion
    refine ⟨fun r hr => ?_, h.keys⟩
    rcases List.mem_append.mp hr with hr | hr
    · exact h.records r hr
    · rw [List.mem_singleton.mp hr]
      exact ⟨owner, path, rfl, rfl, hpath⟩
  | @appended path now nonce ciphertext tag r latest db₂ hr hlatest hfits hversion =>
    obtain ⟨vid, rfl⟩ := Database.insertKvVersion_eq_ok hversion
    refine ⟨fun g hg => ?_, h.keys⟩
    obtain ⟨g₀, hg₀, rfl⟩ := List.mem_map.mp hg
    obtain ⟨o, p, howner, hpath, hnames⟩ := h.records g₀ hg₀
    exact ⟨o, p, by split_ifs <;> exact howner, by split_ifs <;> exact hpath, hnames⟩
  | deleted path => exact ⟨fun g hg => h.records g (List.mem_filter.mp hg).1, h.keys⟩
  | @keyCreated name now nonce material tag kind publicKey id db₁ db₂ hname _ hins hversion =>
    obtain ⟨-, -, rfl⟩ := Database.insertKey_eq_ok hins
    obtain ⟨vid, rfl⟩ := Database.insertKeyVersion_eq_ok hversion
    refine ⟨h.records, fun r hr => ?_⟩
    rcases List.mem_append.mp hr with hr | hr
    · exact h.keys r hr
    · rw [List.mem_singleton.mp hr]
      exact ⟨owner, name, kind, rfl, rfl, hname, rfl, rfl⟩
  | @keyRotated name now nonce material tag publicKey r latest db₁ hpublic hr hlatest hfits hversion =>
    obtain ⟨vid, rfl⟩ := Database.insertKeyVersion_eq_ok hversion
    refine ⟨h.records, fun g hg => ?_⟩
    obtain ⟨g₀, hg₀, rfl⟩ := List.mem_map.mp hg
    obtain ⟨o, n, kind, howner, hname, hpattern, husage, halgorithm⟩ := h.keys g₀ hg₀
    exact ⟨o, n, kind, by split_ifs <;> exact howner, by split_ifs <;> exact hname, hpattern,
      by split_ifs <;> exact husage, by split_ifs <;> exact halgorithm⟩
  | keyDeleted name => exact ⟨h.records, fun g hg => h.keys g (List.mem_filter.mp hg).1⟩
  | @logged o now head sequence entryHash db₁ _ hhead hsequence hhash hins =>
    obtain ⟨id, rfl⟩ := Database.insertLog_logs hins
    exact h.of_rows rfl rfl

/-! ### What is another user's -/

/-- The records and keys of the user, with their versions, are the same. -/
structure SameStores (u : PyStr) (db db' : Database) : Prop where
  /-- The records. -/
  records : ∀ path, db'.recordAt u path = db.recordAt u path
  /-- Their versions. -/
  versions : ∀ path, db'.versionsAt u path = db.versionsAt u path
  /-- The keys. -/
  keys : ∀ name, db'.keyAt u name = db.keyAt u name
  /-- Their versions. -/
  keyVersions : ∀ name, db'.keyVersionsAt u name = db.keyVersionsAt u name

namespace SameStores

omit [Platform] in
theorem refl (u : PyStr) (db : Database) : SameStores u db db := ⟨fun _ => rfl, fun _ => rfl, fun _ => rfl, fun _ => rfl⟩

omit [Platform] in
theorem trans {db'' : Database} (h : SameStores u db db') (h' : SameStores u db' db'') : SameStores u db db'' :=
  ⟨fun path => (h'.records path).trans (h.records path), fun path => (h'.versions path).trans (h.versions path),
    fun name => (h'.keys name).trans (h.keys name), fun name => (h'.keyVersions name).trans (h.keyVersions name)⟩

omit [Platform] in
/-- It is about the rows of four tables. -/
theorem of_rows (hrecords : db'.kvRecords.rows = db.kvRecords.rows) (hversions : db'.kvVersions.rows = db.kvVersions.rows)
    (hkeys : db'.namedKeys.rows = db.namedKeys.rows)
    (hkeyVersions : db'.namedKeyVersions.rows = db.namedKeyVersions.rows) : SameStores u db db' := by
  refine ⟨fun path => ?_, fun path => ?_, fun name => ?_, fun name => ?_⟩
  · simp only [Database.recordAt, hrecords]
  · simp only [Database.versionsAt, hrecords, hversions]
  · simp only [Database.keyAt, hkeys]
  · simp only [Database.keyVersionsAt, hkeys, hkeyVersions]

omit [Platform] in
theorem of_besideAccounts (heq : db'.besideAccounts = db.besideAccounts) : SameStores u db db' := by
  obtain ⟨hrecords, hkeys, -⟩ := Database.parts_of_besideAccounts heq
  simp only [Database.recordPart, Database.keyTables, Prod.mk.injEq] at hrecords hkeys
  exact .of_rows (congrArg Table.rows hrecords.1) (congrArg Table.rows hrecords.2) (congrArg Table.rows hkeys.1)
    (congrArg Table.rows hkeys.2)

end SameStores

omit [Platform] in
/-- A record of another user is not the one that a pointer moves on in. -/
theorem recordAt_bumped (hs : db.KvSound) {path : PyStr} {r : KvRecord} (hr : db.recordAt owner path = some r) (hne : owner ≠ u)
    (number : ℤ) (now p : PyStr) : (db.updateRecord number now r.id).recordAt u p = db.recordAt u p := by
  obtain ⟨hmem, hkey⟩ := Versioning.mem_of_headOf hr
  have hrows : (db.updateRecord number now r.id).kvRecords.rows = kvTables.bumped db.kvRecords.rows r fun g =>
      { g with latestVersion := .int number, updatedAt := .str now } := Database.updateRecord_rows _ _ _ _
  unfold Database.recordAt
  rw [hrows, Versioning.headOf_bumped (f := fun g : KvRecord => { g with latestVersion := .int number, updatedAt := .str now })
    (fun _ => rfl)]
  cases hg : kvTables.headOf db.kvRecords.rows (.str u, .str p) with
  | none => rfl
  | some g =>
    obtain ⟨hgmem, hgkey⟩ := Versioning.mem_of_headOf hg
    have hids : kvTables.id g ≠ kvTables.id r := by
      intro heq
      obtain rfl := hs.eq_of_id hgmem hmem heq
      exact hne (Value.str.inj (Prod.mk.inj (hkey.symm.trans hgkey)).1)
    rw [Option.map_some, if_neg hids]

/-- **A transaction leaves what is another user's.** -/
theorem Change.others (hchange : Change owner db db') (hs : db.KvSound) (hk : db.KeySound) (hne : owner ≠ u) :
    SameStores u db db' := by
  have hother : ∀ {x y : PyStr}, ¬ (owner = u ∧ x = y) := fun h => hne h.1
  have hother' : ∀ {x y : PyStr}, ¬ (u = owner ∧ x = y) := fun h => hne h.1.symm
  cases hchange with
  | @created path now nonce ciphertext tag id db₁ db₂ _ hins hversion =>
    obtain ⟨hnone, hlt, rfl⟩ := Database.insertRecord_eq_ok hins
    obtain ⟨-, -, -, row, -, -, -, hversions⟩ := Database.Allocated.append (.created id hnone hlt) hs hversion
    obtain ⟨vid, rfl⟩ := Database.insertKvVersion_eq_ok hversion
    refine ⟨fun p => ?_, fun p => (hversions u p).trans (if_neg hother), fun _ => rfl, fun _ => rfl⟩
    have hkeys := Versioning.headOf_eq_none.mp hnone
    refine (Versioning.headOf_create (S := kvTables) (h := ⟨id, .str owner, .str path, .int 1, .str now, .str now⟩) hkeys
      (.str u, .str p)).trans (if_neg ?_)
    exact fun heq => hne (Value.str.inj (Prod.mk.inj heq).1)
  | @appended path now nonce ciphertext tag r latest db₂ hr hlatest hfits hversion =>
    obtain ⟨-, -, -, row, -, -, -, hversions⟩ := Database.Allocated.append (.bumped r latest hr hlatest hfits) hs hversion
    obtain ⟨vid, rfl⟩ := Database.insertKvVersion_eq_ok hversion
    exact ⟨fun p => recordAt_bumped hs hr hne _ _ p, fun p => (hversions u p).trans (if_neg hother), fun _ => rfl, fun _ => rfl⟩
  | deleted path =>
    obtain ⟨-, -, -, hversions⟩ := Database.deleteRecord_spec hs owner path
    refine ⟨fun p => ?_, fun p => (hversions u p).trans (if_neg hother'), fun _ => rfl, fun _ => rfl⟩
    unfold Database.recordAt
    rw [(Database.deleteRecord_rows db owner path).1]
    refine (Versioning.headOf_keptHeads (S := kvTables) (Value.str owner, Value.str path) (Value.str u, Value.str p)).trans
      (if_neg ?_)
    exact fun heq => hne (Value.str.inj (Prod.mk.inj heq).1).symm
  | @keyCreated name now nonce material tag kind publicKey id db₁ db₂ _ hpublic hins hversion =>
    obtain ⟨hnone, hlt, rfl⟩ := Database.insertKey_eq_ok hins
    obtain ⟨vid, rfl⟩ := Database.insertKeyVersion_eq_ok hversion
    obtain ⟨-, -, hkeys, hversions⟩ := Database.createdKey_sound hk
      (NamedKeyRepository.newKey id owner name kind.usage kind.algorithm now)
      (NamedKeyRepository.newVersion vid id 1 ⟨nonce, material, tag, publicKey⟩ now) hnone hlt rfl rfl rfl rfl rfl
      (NamedKeyRepository.fetchable_newKey kind.decodes_algorithm)
      (NamedKeyRepository.fetchable_newVersion hpublic)
    exact ⟨fun _ => rfl, fun _ => rfl, fun n => (hkeys u n).trans (if_neg hother), fun n => (hversions u n).trans (if_neg hother)⟩
  | @keyRotated name now nonce material tag publicKey r latest db₁ hpublic hr hlatest hfits hversion =>
    obtain ⟨hl, -⟩ := Database.keyAt_latest hk hr
    rw [hl, pyInt_int] at hlatest
    obtain rfl := Except.ok.inj hlatest
    obtain ⟨vid, rfl⟩ := Database.insertKeyVersion_eq_ok hversion
    obtain ⟨-, -, hkeys, hversions⟩ := Database.rotatedKey_sound hk
      (NamedKeyRepository.newVersion vid r.id ((db.keyVersionsAt owner name).length + 1)
        ⟨nonce, material, tag, publicKey⟩ now)
      now hr hl rfl rfl (NamedKeyRepository.fetchable_newVersion hpublic)
    exact ⟨fun _ => rfl, fun _ => rfl, fun n => (hkeys u n).trans (if_neg hother), fun n => (hversions u n).trans (if_neg hother)⟩
  | keyDeleted name =>
    obtain ⟨-, -, -, hkeys, hversions⟩ := Database.deleteKey_spec hk owner name
    exact ⟨fun _ => rfl, fun _ => rfl, fun n => (hkeys u n).trans (if_neg hother'),
      fun n => (hversions u n).trans (if_neg hother')⟩
  | @logged o now head sequence entryHash db₁ _ hhead hsequence hhash hins =>
    obtain ⟨id, rfl⟩ := Database.insertLog_logs hins
    exact .of_rows rfl rfl rfl rfl

end Transaction

/-! ### Interleavings -/

/-- **What a step of an operation does to the services**: nothing, or a transaction for the user it is made for; the tables
stay in order. -/
theorem AppOp.exec_guarantees (op : AppOp) : op.exec.Sat (fun _ => True) fun _ w w' =>
    ((w.db.KvSound → w'.db.KvSound) ∧ (KeysFit w.db → KeysFit w'.db)) ∧
      (w'.db.besideAccounts = w.db.besideAccounts ∨ ∃ owner, op.requester = some owner ∧ Change owner w.db w'.db) := by
  have hchanges : op.exec.Sat (fun _ => True) fun _ w w' =>
      w'.db.besideAccounts = w.db.besideAccounts ∨ ∃ owner, op.requester = some owner ∧ Change owner w.db w'.db := by
    cases hrequester : op.requester with
    | none => exact Prog.Sat.mono (op.exec_besideAccounts hrequester) (fun _ => id) fun _ _ _ h => .inl h
    | some owner =>
      exact Prog.Sat.mono (op.exec_changes hrequester) (fun _ => id) fun _ _ _ h => h.imp_right fun h => ⟨owner, rfl, h⟩
  exact ((op.exec_keepsSound.both op.exec_keepsFit).both hchanges).mono (fun _ _ => ⟨⟨trivial, trivial⟩, trivial⟩)
    fun _ _ _ => id

/-- **Every record is under a path that names its owner, and every key under a name that is one**, in every state that an
interleaving of requests reaches. -/
theorem rows_placed (environ : PyStr → Option PyStr) (ops : List AppOp) (sched : List ℕ) :
    Placed ((requests (.fresh environ) ops).exec sched).state.db := by
  refine exec_preserves (fun p hp => ?_) Placed.fresh sched
  obtain ⟨op, -, rfl⟩ := List.mem_map.mp hp
  apply op.exec_guarantees.mono (fun _ => id)
  intro _ w w' h hplaced
  rcases h.2 with hsame | ⟨owner, -, hchange⟩
  · exact hplaced.of_besideAccounts hsame
  · exact hchange.placed hplaced

/-- **A user's records and keys stay as they are while only others take turns**: after any interleaving, turns of
requests that are made for others, or for nobody, leave every record and key of the user with all versions. -/
theorem others_leave_stores (u : PyStr) (environ : PyStr → Option PyStr) (ops : List AppOp) (before after : List ℕ)
    (hothers : ∀ x ∈ after, ∀ op ∈ ops[x]?, op.requester ≠ some u) :
    SameStores u ((requests (.fresh environ) ops).exec before).state.db
      ((requests (.fresh environ) ops).exec (before ++ after)).state.db := by
  have hsat : ∀ (x : ℕ) (p : Act Unit), (requests (.fresh environ) ops).procs[x]? = some p →
      p.Sat (fun _ => True) fun _ (w w' : World) => ∃ op : AppOp, ops[x]? = some op ∧
        ((w.db.KvSound → w'.db.KvSound) ∧ (KeysFit w.db → KeysFit w'.db)) ∧
        (w'.db.besideAccounts = w.db.besideAccounts ∨ ∃ owner, op.requester = some owner ∧ Change owner w.db w'.db) := by
    intro x p hp
    simp only [requests, List.getElem?_map, Option.map_eq_some_iff] at hp
    obtain ⟨op, hop, rfl⟩ := hp
    exact op.exec_guarantees.mono (fun _ => id) fun _ w w' h => ⟨op, hop, h⟩
  obtain ⟨hsound, hfit⟩ : ((requests (.fresh environ) ops).exec before).state.db.KvSound ∧
      KeysFit ((requests (.fresh environ) ops).exec before).state.db := by
    refine ⟨exec_preserves (fun p hp => ?_) Database.KvSound.fresh before, exec_preserves (fun p hp => ?_) KeysFit.fresh before⟩
    · obtain ⟨op, -, rfl⟩ := List.mem_map.mp hp
      exact op.exec_keepsSound
    · obtain ⟨op, -, rfl⟩ := List.mem_map.mp hp
      exact op.exec_keepsFit
  rw [Config.exec_append]
  generalize hc : (requests (.fresh environ) ops).exec before = c at hsound hfit ⊢
  refine (Config.exec_turns (J := fun w : World => w.db.KvSound ∧ KeysFit w.db ∧ SameStores u c.state.db w.db)
    (I := fun _ _ => True) (fun x _ => (hc ▸ Config.exec_sat hsat before) x) (fun _ _ _ _ _ => trivial) ?_
    ⟨hsound, hfit, .refl u _⟩).2.2
  rintro x hx l w w' ⟨hkv, hkeys, hsame⟩ ⟨op, hop, ⟨hkv', hkeys'⟩, hstep⟩
  refine ⟨hkv' hkv, hkeys' hkeys, hsame.trans ?_⟩
  rcases hstep with hbeside | ⟨owner, howner, hchange⟩
  · exact .of_besideAccounts hbeside
  · apply hchange.others hkv hkeys.sound
    rintro rfl
    exact hothers x hx op hop howner

end Ownership

/-! ### An example -/

section Sample

attribute [local instance] samplePlatform

attribute [local irreducible] Config.exec

/-- Somebody else is refused, and the log is verified, once a write has been answered. -/
theorem others_leave_stores_sample : SameStores sampleOwner
    ((requests (.fresh fun _ => none) sampleNeighbours).exec [0, 0, 0, 0, 0, 0, 0, 0, 1, 1, 1, 1, 1, 1, 1, 2, 2, 2, 2]).state.db
    ((requests (.fresh fun _ => none) sampleNeighbours).exec
      ([0, 0, 0, 0, 0, 0, 0, 0, 1, 1, 1, 1, 1, 1, 1, 2, 2, 2, 2] ++ [3, 4, 3, 4])).state.db := by
  apply others_leave_stores sampleOwner (fun _ => none) sampleNeighbours _ [3, 4, 3, 4]
  intro x hx op hop
  have hrequesters : ∀ x ∈ [3, 4, 3, 4], (sampleNeighbours[x]?).bind AppOp.requester ≠ some sampleOwner := by
    decide +kernel
  intro heq
  rw [Option.mem_def] at hop
  apply hrequesters x hx
  rw [hop]
  exact heq

end Sample

end MiniVault
