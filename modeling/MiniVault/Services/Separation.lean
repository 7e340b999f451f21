import MiniVault.Foundations.Noninterference
import MiniVault.Foundations.Twins
import MiniVault.Services.Changes

/-!
# One user's part of the tables

Two worlds may be the same as far as one user can tell, though other users have worked in
one of them only: identifiers differ, since they are counted over all users, and so does
everything under the paths and keys of the others.

## The model

* `Layout` — the two tables of a service, with what a row shows besides its identifiers.
* `Paired` — two pairs of such tables with the same part for the user: the rows correspond,
  identifiers that correspond were given out, and there is room for more.
* `Related` — worlds with the same key in memory, files, environment and clock, and with the
  same part for the user in both services.

## What is proved

* `Paired.create`, `Paired.insert`, `Paired.update`, `Paired.drop` — the same change in both.
* `Related.aside` — a transaction of another user, in one of them, leaves them related.
* `transaction_alike`, `query_alike` — what the rules for programs become for transactions.
-/

namespace MiniVault

open Foundations

/-! ### The tables of a service -/

/-- The two tables of a service, and what their rows show besides identifiers. -/
structure Layout (H V : Type) where
  /-- The tables. -/
  tables : Versioning H V (Value × Value) Value Value
  /-- A head's identifier. -/
  headId : H → ℤ
  /-- A version's identifier. -/
  versionId : V → ℤ
  /-- What a head shows. -/
  showHead : H → H
  /-- What a version shows. -/
  showVersion : V → V
  /-- The identifier stands in its column. -/
  id_eq : ∀ h, tables.id h = .int (headId h)
  /-- A head shows its key. -/
  key_eq : ∀ h h', showHead h = showHead h' → tables.key h = tables.key h'

/-- A record without its identifier. -/
def KvRecord.shown (r : KvRecord) : KvRecord := { r with id := 0 }

/-- A version without identifiers. -/
def KvVersion.shown (v : KvVersion) : KvVersion := { v with id := 0, recordId := .none }

/-- A key without its identifier. -/
def NamedKey.shown (r : NamedKey) : NamedKey := { r with id := 0 }

/-- A version of a key without identifiers. -/
def NamedKeyVersion.shown (v : NamedKeyVersion) : NamedKeyVersion := { v with id := 0, keyId := .none }

/-- Records that show the same have the same key. -/
theorem kvTables_key_of_shown (r r' : KvRecord) (h : r.shown = r'.shown) : kvTables.key r = kvTables.key r' := by
  simp only [KvRecord.shown, KvRecord.mk.injEq, true_and] at h
  exact Prod.ext h.1 h.2.1

theorem keyTables_key_of_shown (r r' : NamedKey) (h : r.shown = r'.shown) : keyTables.key r = keyTables.key r' := by
  simp only [NamedKey.shown, NamedKey.mk.injEq, true_and] at h
  exact Prod.ext h.1 h.2.1

/-- The tables of the key-value store. -/
def kvLayout : Layout KvRecord KvVersion where
  tables := kvTables
  headId := KvRecord.id
  versionId := KvVersion.id
  showHead := KvRecord.shown
  showVersion := KvVersion.shown
  id_eq _ := rfl
  key_eq := kvTables_key_of_shown

/-- The tables of the named keys. -/
def keyLayout : Layout NamedKey NamedKeyVersion where
  tables := keyTables
  headId := NamedKey.id
  versionId := NamedKeyVersion.id
  showHead := NamedKey.shown
  showVersion := NamedKeyVersion.shown
  id_eq _ := rfl
  key_eq := keyTables_key_of_shown

/-- Whether a key is under the user. -/
abbrev Owned (u : PyStr) (k : Value × Value) : Prop := k.1 = .str u

/-- An identifier that the table has given out. -/
def Table.Given {ρ : Type} (t : Table ρ) (a : Value) : Prop := ∃ n, a = .int n ∧ 0 < n ∧ n ≤ t.seq

/-- **Two pairs of tables with the same part for the user**; each has room for `k` more heads and
`l` more versions. -/
structure Paired {H V : Type} (L : Layout H V) (u : PyStr) (ρ : Value → Value → Prop) (k l : ℕ) (hs : Table H) (vs : Table V)
    (hs' : Table H) (vs' : Table V) : Prop where
  /-- The rows correspond. -/
  twins : L.tables.Twins (Owned u) L.showHead L.showVersion ρ hs.rows vs.rows hs'.rows vs'.rows
  /-- What corresponds was given out. -/
  given : ∀ {a b}, ρ a b → hs.Given a ∧ hs'.Given b
  /-- Room in the first tables. -/
  heads : hs.Roomy L.headId k
  /-- For versions. -/
  versions : vs.Roomy L.versionId l
  /-- Room in the second tables. -/
  heads' : hs'.Roomy L.headId k
  /-- For versions. -/
  versions' : vs'.Roomy L.versionId l

namespace Paired

variable {H V : Type} {L : Layout H V} {u : PyStr} {ρ : Value → Value → Prop} {k l : ℕ} {hs hs' : Table H} {vs vs' : Table V}
  {h h' : H} {v v' : V} {key : Value × Value}

theorem empty (hk : k < 2 ^ 63) (hl : l < 2 ^ 63) : Paired L u (fun _ _ => False) k l .empty .empty .empty .empty :=
  ⟨.empty, fun h => h.elim, .empty hk, .empty hl, .empty hk, .empty hl⟩

theorem of_succ (hp : Paired L u ρ (k + 1) (l + 1) hs vs hs' vs') : Paired L u ρ k l hs vs hs' vs' :=
  ⟨hp.twins, hp.given, hp.heads.of_succ, hp.versions.of_succ, hp.heads'.of_succ, hp.versions'.of_succ⟩

theorem versions_of_succ (hp : Paired L u ρ k (l + 1) hs vs hs' vs') : Paired L u ρ k l hs vs hs' vs' :=
  ⟨hp.twins, hp.given, hp.heads, hp.versions.of_succ, hp.heads', hp.versions'.of_succ⟩

theorem heads_of_succ (hp : Paired L u ρ (k + 1) l hs vs hs' vs') : Paired L u ρ k l hs vs hs' vs' :=
  ⟨hp.twins, hp.given, hp.heads.of_succ, hp.versions, hp.heads'.of_succ, hp.versions'⟩

/-- The next identifier is none that was given out. -/
theorem not_given_next (hn : L.headId h = hs.seq + 1) : ¬ hs.Given (L.tables.id h) := by
  rintro ⟨n, heq, -, hle⟩
  rw [L.id_eq, Value.int.injEq] at heq
  omega

theorem id_ne_next (hr : hs.Roomy L.headId k) (hn : L.headId h = hs.seq + 1) : ∀ g ∈ hs.rows, L.tables.id g ≠ L.tables.id h := by
  intro g hg heq
  rw [L.id_eq, L.id_eq, Value.int.injEq] at heq
  have := (hr.ids g hg).2
  omega

theorem ref_ne_next (hr : hs.Roomy L.headId k) (hn : L.headId h = hs.seq + 1) (hS : L.tables.Sound hs.rows vs.rows) :
    ∀ v ∈ vs.rows, L.tables.ref v ≠ L.tables.id h := by
  intro v hv heq
  obtain ⟨g, hg, href⟩ := hS.refs v hv
  exact id_ne_next hr hn g hg (href.symm.trans heq)

/-- One more is given out. -/
theorem given_next {a : Value} (hg : hs.Given a) (rows : List H) : (⟨rows, hs.seq + 1⟩ : Table H).Given a := by
  obtain ⟨n, rfl, hpos, hle⟩ := hg
  exact ⟨n, rfl, hpos, le_trans hle (le_of_lt (Int.lt_succ _))⟩

/-- **A head of the user is created in both.** -/
theorem create (hp : Paired L u ρ (k + 1) l hs vs hs' vs') (hS : L.tables.Sound hs.rows vs.rows)
    (hS' : L.tables.Sound hs'.rows vs'.rows) (hu : Owned u (L.tables.key h)) (hshow : L.showHead h = L.showHead h')
    (hn : L.headId h = hs.seq + 1) (hn' : L.headId h' = hs'.seq + 1) :
    Paired L u (fun a b => ρ a b ∨ (a = L.tables.id h ∧ b = L.tables.id h')) k l ⟨hs.rows ++ [h], hs.seq + 1⟩ vs
      ⟨hs'.rows ++ [h'], hs'.seq + 1⟩ vs' where
  twins := hp.twins.create hu (L.key_eq _ _ hshow ▸ hu) hshow (fun b hb => not_given_next hn (hp.given hb).1)
    (fun a ha => not_given_next hn' (hp.given ha).2) (ref_ne_next hp.heads hn hS) (ref_ne_next hp.heads' hn' hS')
    (id_ne_next hp.heads hn) (id_ne_next hp.heads' hn')
  given := by
    rintro a b (hab | ⟨rfl, rfl⟩)
    · exact ⟨given_next (hp.given hab).1 _, given_next (hp.given hab).2 _⟩
    · have hpos := hp.heads.nonneg
      have hpos' := hp.heads'.nonneg
      refine ⟨⟨hs.seq + 1, by rw [L.id_eq, hn], by omega, le_refl _⟩, ⟨hs'.seq + 1, by rw [L.id_eq, hn'], by omega, le_refl _⟩⟩
  heads := hp.heads.push hn
  versions := hp.versions
  heads' := hp.heads'.push hn'
  versions' := hp.versions'

/-- **A version is added in both**, to heads that correspond. -/
theorem insert (hp : Paired L u ρ k (l + 1) hs vs hs' vs') (href : ρ (L.tables.ref v) (L.tables.ref v'))
    (hshow : L.showVersion v = L.showVersion v') (hn : L.versionId v = vs.seq + 1) (hn' : L.versionId v' = vs'.seq + 1) :
    Paired L u ρ k l hs ⟨vs.rows ++ [v], vs.seq + 1⟩ hs' ⟨vs'.rows ++ [v'], vs'.seq + 1⟩ :=
  ⟨hp.twins.insert href hshow, hp.given, hp.heads, hp.versions.push hn, hp.heads', hp.versions'.push hn'⟩

/-- A row that keeps its identifier. -/
theorem ids_of_map {t : Table H} {f : H → H} (hf : ∀ h, L.headId (f h) = L.headId h) :
    ∀ r ∈ t.rows.map f, ∃ r' ∈ t.rows, L.headId r = L.headId r' := by
  intro r hr
  obtain ⟨g, hg, rfl⟩ := List.mem_map.mp hr
  exact ⟨g, hg, hf g⟩

theorem headId_ite {f : H → H} (hf : ∀ h, L.headId (f h) = L.headId h) (a : Value) (h : H) :
    L.headId (if L.tables.id h = a then f h else h) = L.headId h := by
  split_ifs
  · exact hf h
  · rfl

theorem id_of_headId {f : H → H} (hf : ∀ h, L.headId (f h) = L.headId h) (h : H) : L.tables.id (f h) = L.tables.id h := by
  rw [L.id_eq, L.id_eq, hf]

/-- **A head is changed in both**, but for its identifier and its key. -/
theorem update (hp : Paired L u ρ k l hs vs hs' vs') {a b : Value} (hab : ρ a b) {f : H → H}
    (hid : ∀ h, L.headId (f h) = L.headId h) (hkey : ∀ h, L.tables.key (f h) = L.tables.key h)
    (hf : ∀ h h', L.showHead h = L.showHead h' → L.showHead (f h) = L.showHead (f h')) :
    Paired L u ρ k l ⟨hs.rows.map fun h => if L.tables.id h = a then f h else h, hs.seq⟩ vs
      ⟨hs'.rows.map fun h => if L.tables.id h = b then f h else h, hs'.seq⟩ vs' :=
  ⟨hp.twins.update hab (id_of_headId hid) (id_of_headId hid) hkey hkey hf, hp.given,
    hp.heads.of_ids (ids_of_map (headId_ite hid a)), hp.versions, hp.heads'.of_ids (ids_of_map (headId_ite hid b)), hp.versions'⟩

/-- Rows that are dropped. -/
theorem ids_of_filter {ρ : Type} {t : Table ρ} {id : ρ → ℤ} (p : ρ → Bool) :
    ∀ r ∈ t.rows.filter p, ∃ r' ∈ t.rows, id r = id r' :=
  fun r hr => ⟨r, (List.mem_filter.mp hr).1, rfl⟩

/-- **A key of the user is dropped in both.** -/
theorem drop (hp : Paired L u ρ k l hs vs hs' vs') (hu : Owned u key) :
    Paired L u ρ k l ⟨L.tables.keptHeads hs.rows key, hs.seq⟩ ⟨L.tables.keptVersions hs.rows vs.rows key, vs.seq⟩
      ⟨L.tables.keptHeads hs'.rows key, hs'.seq⟩ ⟨L.tables.keptVersions hs'.rows vs'.rows key, vs'.seq⟩ :=
  ⟨hp.twins.drop L.key_eq hu, hp.given, hp.heads.of_ids (ids_of_filter _), hp.versions.of_ids (ids_of_filter _),
    hp.heads'.of_ids (ids_of_filter _), hp.versions'.of_ids (ids_of_filter _)⟩

/-! #### A change that is another user's -/

theorem create_aside (hp : Paired L u ρ (k + 1) l hs vs hs' vs') (hu : ¬ Owned u (L.tables.key h)) (hn : L.headId h = hs.seq + 1) :
    Paired L u ρ k l ⟨hs.rows ++ [h], hs.seq + 1⟩ vs hs' vs' :=
  ⟨hp.twins.create_aside hu fun _ hb => not_given_next hn (hp.given hb).1,
    fun hab => ⟨given_next (hp.given hab).1 _, (hp.given hab).2⟩, hp.heads.push hn, hp.versions, hp.heads'.of_succ, hp.versions'⟩

theorem insert_aside (hp : Paired L u ρ k (l + 1) hs vs hs' vs') (href : ∀ b, ¬ ρ (L.tables.ref v) b)
    (hn : L.versionId v = vs.seq + 1) : Paired L u ρ k l hs ⟨vs.rows ++ [v], vs.seq + 1⟩ hs' vs' :=
  ⟨hp.twins.insert_aside href, hp.given, hp.heads, hp.versions.push hn, hp.heads', hp.versions'.of_succ⟩

theorem update_aside (hp : Paired L u ρ k l hs vs hs' vs') {a : Value} (ha : ∀ b, ¬ ρ a b) {f : H → H}
    (hid : ∀ h, L.headId (f h) = L.headId h) (hkey : ∀ h, L.tables.key (f h) = L.tables.key h) :
    Paired L u ρ k l ⟨hs.rows.map fun h => if L.tables.id h = a then f h else h, hs.seq⟩ vs hs' vs' :=
  ⟨hp.twins.update_aside ha (id_of_headId hid) hkey, hp.given, hp.heads.of_ids (ids_of_map (headId_ite hid a)), hp.versions,
    hp.heads', hp.versions'⟩

theorem drop_aside (hp : Paired L u ρ k l hs vs hs' vs') (hu : ¬ Owned u key) :
    Paired L u ρ k l ⟨L.tables.keptHeads hs.rows key, hs.seq⟩ ⟨L.tables.keptVersions hs.rows vs.rows key, vs.seq⟩ hs' vs' :=
  ⟨hp.twins.drop_aside hu, hp.given, hp.heads.of_ids (ids_of_filter _), hp.versions.of_ids (ids_of_filter _), hp.heads',
    hp.versions'⟩

/-- Identifiers that correspond fit into cells. -/
theorem fits (hp : Paired L u ρ k l hs vs hs' vs') {a b : ℤ} (hab : ρ (.int a) (.int b)) : Fits a ∧ Fits b := by
  obtain ⟨⟨n, hn, hpos, hle⟩, n', hn', hpos', hle'⟩ := hp.given hab
  obtain rfl := Value.int.inj hn
  obtain rfl := Value.int.inj hn'
  have hroom := hp.heads.room
  have hroom' := hp.heads'.room
  unfold Fits
  omega

/-- A head that is another user's corresponds to none. -/
theorem not_related (hp : Paired L u ρ k l hs vs hs' vs') (hh : h ∈ hs.rows) (hu : ¬ Owned u (L.tables.key h)) (b : Value) :
    ¬ ρ (L.tables.id h) b :=
  fun hb => hu (hp.twins.mine h hh b hb)

end Paired

/-! ### What the statements do to the tables -/

theorem updateRecord_table (db : Database) (version : ℤ) (now : PyStr) (id : ℤ) : (db.updateRecord version now id).kvRecords =
    ⟨db.kvRecords.rows.map fun r => if kvTables.id r = .int id then
      { r with latestVersion := .int version, updatedAt := .str now } else r, db.kvRecords.seq⟩ :=
  congrArg (fun rows => (⟨rows, db.kvRecords.seq⟩ : Table KvRecord)) (Database.updateRecord_rows db version now id)

theorem updateKey_table (db : Database) (version : ℤ) (now : PyStr) (id : ℤ) : (db.updateKey version now id).namedKeys =
    ⟨db.namedKeys.rows.map fun r => if keyTables.id r = .int id then Database.pointKey version now r else r, db.namedKeys.seq⟩ :=
  congrArg (fun rows => (⟨rows, db.namedKeys.seq⟩ : Table NamedKey)) (Database.updateKey_rows db version now id)

theorem deleteRecord_tables (db : Database) (owner path : PyStr) :
    (db.deleteRecord owner path).2.kvRecords =
        ⟨kvTables.keptHeads db.kvRecords.rows (.str owner, .str path), db.kvRecords.seq⟩ ∧
      (db.deleteRecord owner path).2.kvVersions =
        ⟨kvTables.keptVersions db.kvRecords.rows db.kvVersions.rows (.str owner, .str path), db.kvVersions.seq⟩ :=
  ⟨congrArg (fun rows => (⟨rows, db.kvRecords.seq⟩ : Table KvRecord)) (Database.deleteRecord_rows db owner path).1,
    congrArg (fun rows => (⟨rows, db.kvVersions.seq⟩ : Table KvVersion)) (Database.deleteRecord_rows db owner path).2⟩

theorem deleteKey_tables (db : Database) (owner name : PyStr) :
    (db.deleteKey owner name).2.namedKeys =
        ⟨keyTables.keptHeads db.namedKeys.rows (.str owner, .str name), db.namedKeys.seq⟩ ∧
      (db.deleteKey owner name).2.namedKeyVersions =
        ⟨keyTables.keptVersions db.namedKeys.rows db.namedKeyVersions.rows (.str owner, .str name), db.namedKeyVersions.seq⟩ :=
  ⟨congrArg (fun rows => (⟨rows, db.namedKeys.seq⟩ : Table NamedKey)) (Database.deleteKey_rows db owner name).1,
    congrArg (fun rows => (⟨rows, db.namedKeyVersions.seq⟩ : Table NamedKeyVersion)) (Database.deleteKey_rows db owner name).2⟩

/-- An entry changes the log alone. -/
theorem Database.insertLog_logs {db db' : Database} {entry : Entry} {prevHash entryHash : Value}
    (h : db.insertLog entry prevHash entryHash = .ok db') : ∃ id, db' = { db with
      auditLogs := ⟨db.auditLogs.rows ++ [⟨id, entry, prevHash, entryHash⟩], id⟩ } := by
  unfold Database.insertLog at h
  split_ifs at h
  · cases h
  · obtain ⟨id, -, h⟩ := bind_eq_ok.mp h
    exact ⟨id, (Except.ok.inj h).symm⟩

/-! ### Two worlds -/

/-- What is under no user: the key in memory, the files, the environment, the clock, and the path of the configuration. -/
def World.common (w : World) : Option Key × Option ConfigFile × Option ConfigFile × (PyStr → Option PyStr) × ℕ × PyStr :=
  (w.dek, w.config, w.temporary, w.environ, w.clock, w.configPath)

/-- Which record, and which key, of the one world is which of the other, by identifiers. -/
abbrev Links := (Value → Value → Prop) × (Value → Value → Prop)

/-- The same part for the user, with room for `k` heads and `l` versions in each service. -/
structure Tied (u : PyStr) (i : Links) (k l : ℕ) (w t : World) : Prop where
  /-- What is under no user. -/
  common : w.common = t.common
  /-- The key-value store. -/
  records : Paired kvLayout u i.1 k l w.db.kvRecords w.db.kvVersions t.db.kvRecords t.db.kvVersions
  /-- The named keys. -/
  keys : Paired keyLayout u i.2 k l w.db.namedKeys w.db.namedKeyVersions t.db.namedKeys t.db.namedKeyVersions

/-- What was encrypted is not looked at. -/
theorem Tied.sealed {u : PyStr} {i : Links} {k l : ℕ} {w t : World} (h : Tied u i k l w t) (x y : List Sealing) :
    Tied u i k l { w with sealed := x } { t with sealed := y } :=
  ⟨h.common, h.records, h.keys⟩

section Related

variable [Platform]

/-- **The worlds are the same for the user**, with tables in order and room for `n` more steps. -/
structure Related (u : PyStr) (i : Links) (n : ℕ) (w t : World) : Prop where
  /-- The user's part. -/
  tied : Tied u i n n w t
  /-- The first is in order. -/
  ordered : Ordered n w.db
  /-- The second is. -/
  ordered' : Ordered n t.db

namespace Related

variable {u owner : PyStr} {i : Links} {n : ℕ} {w w' t t' : World}

theorem fresh (environ : PyStr → Option PyStr) (hn : n < 2 ^ 63) :
    Related u (fun _ _ => False, fun _ _ => False) n (.fresh environ) (.fresh environ) :=
  ⟨⟨rfl, .empty hn hn, .empty hn hn⟩, .fresh hn, .fresh hn⟩

theorem of_succ (h : Related u i (n + 1) w t) : Related u i n w t :=
  ⟨⟨h.tied.common, h.tied.records.of_succ, h.tied.keys.of_succ⟩, h.ordered.of_succ, h.ordered'.of_succ⟩

/-- What is common may change, in both alike. -/
theorem of_db (h : Related u i n w t) (hcommon : w'.common = t'.common) (hdb : w'.db = w.db) (hdb' : t'.db = t.db) :
    Related u i n w' t' := by
  refine ⟨⟨hcommon, ?_, ?_⟩, hdb ▸ h.ordered, hdb' ▸ h.ordered'⟩
  · rw [hdb, hdb']
    exact h.tied.records
  · rw [hdb, hdb']
    exact h.tied.keys

/-- The tables of the user are not among those of the accounts. -/
theorem of_besideAccounts (h : Related u i n w t) (hcommon : w'.common = w.common)
    (hbeside : w'.db.besideAccounts = w.db.besideAccounts) : Related u i n w' t := by
  obtain ⟨hrecords, hkeys, -⟩ := Database.parts_of_besideAccounts hbeside
  simp only [Database.recordPart, Database.keyTables, Prod.mk.injEq] at hrecords hkeys
  refine ⟨⟨hcommon.trans h.tied.common, ?_, ?_⟩, h.ordered.of_besideAccounts hbeside, h.ordered'⟩
  · rw [hrecords.1, hrecords.2]
    exact h.tied.records
  · rw [hkeys.1, hkeys.2]
    exact h.tied.keys

/-- **A transaction of another user**, in the first world, leaves them related. -/
theorem aside (h : Related u i (n + 1) w t) (hcommon : w'.common = w.common) (hchange : Change owner w.db w'.db)
    (hne : owner ≠ u) : Related u i n w' t := by
  have hother : ∀ x, ¬ Owned u (.str owner, x) := fun x hx => hne (Value.str.inj hx)
  have hrecords := h.tied.records
  have hkeys := h.tied.keys
  suffices hpair : Paired kvLayout u i.1 n n w'.db.kvRecords w'.db.kvVersions t.db.kvRecords t.db.kvVersions ∧
      Paired keyLayout u i.2 n n w'.db.namedKeys w'.db.namedKeyVersions t.db.namedKeys t.db.namedKeyVersions from
    ⟨⟨hcommon.trans h.tied.common, hpair.1, hpair.2⟩, h.ordered.change hchange, h.ordered'.of_succ⟩
  generalize w'.db = db' at hchange
  cases hchange with
  | @created path now nonce ciphertext tag id db₁ db₂ _ hins hversion =>
    have hid := Except.ok.inj ((Database.insertRecord_nextId hins).symm.trans hrecords.heads.nextId)
    obtain ⟨-, -, rfl⟩ := Database.insertRecord_eq_ok hins
    obtain ⟨vid, hvid, rfl⟩ := Database.insertKvVersion_row hversion
    obtain rfl := Except.ok.inj (hvid.symm.trans hrecords.versions.nextId)
    subst hid
    have hrow : ¬ Owned u (kvLayout.tables.key ⟨w.db.kvRecords.seq + 1, .str owner, .str path, .int 1, .str now, .str now⟩) :=
      hother (.str path)
    exact ⟨(hrecords.create_aside hrow rfl).insert_aside (fun b hb => Paired.not_given_next (L := kvLayout)
      (h := ⟨w.db.kvRecords.seq + 1, .str owner, .str path, .int 1, .str now, .str now⟩) rfl (hrecords.given hb).1) rfl,
      hkeys.of_succ⟩
  | @appended path now nonce ciphertext tag r latest db₂ hr hlatest hfits hversion =>
    obtain ⟨vid, hvid, rfl⟩ := Database.insertKvVersion_row hversion
    obtain rfl := Except.ok.inj (hvid.symm.trans hrecords.versions.nextId)
    obtain ⟨hmem, hkey⟩ := Versioning.mem_of_headOf hr
    have hnone : ∀ b, ¬ i.1 (.int r.id) b := hrecords.not_related hmem fun hu => hother (.str path) (hkey ▸ hu)
    have hupdate := hrecords.update_aside hnone
      (f := fun g => { g with latestVersion := .int (latest + 1), updatedAt := .str now }) (fun _ => rfl) fun _ => rfl
    rw [updateRecord_table]
    have hinsert := hupdate.insert_aside
      (v := KvVersion.mk _ (.int r.id) (.int (latest + 1)) (.str nonce) (.str ciphertext) (.str tag) (.str now)) hnone rfl
    exact ⟨hinsert.heads_of_succ, hkeys.of_succ⟩
  | deleted path =>
    rw [(deleteRecord_tables w.db owner path).1, (deleteRecord_tables w.db owner path).2]
    exact ⟨hrecords.of_succ.drop_aside (hother (.str path)), hkeys.of_succ⟩
  | @keyCreated name now nonce material tag kind publicKey id db₁ db₂ _ _ hins hversion =>
    have hid := Except.ok.inj ((Database.insertKey_nextId hins).symm.trans hkeys.heads.nextId)
    obtain ⟨-, -, rfl⟩ := Database.insertKey_eq_ok hins
    obtain ⟨vid, hvid, rfl⟩ := Database.insertKeyVersion_row hversion
    obtain rfl := Except.ok.inj (hvid.symm.trans hkeys.versions.nextId)
    subst hid
    have hrow : ¬ Owned u (keyLayout.tables.key (NamedKeyRepository.newKey (w.db.namedKeys.seq + 1) owner name kind.usage
      kind.algorithm now)) := hother (.str name)
    exact ⟨hrecords.of_succ, (hkeys.create_aside hrow rfl).insert_aside (fun b hb => Paired.not_given_next (L := keyLayout)
      (h := NamedKeyRepository.newKey (w.db.namedKeys.seq + 1) owner name kind.usage kind.algorithm now) rfl
        (hkeys.given hb).1) rfl⟩
  | @keyRotated name now nonce material tag publicKey r latest db₁ _ hr hlatest hfits hversion =>
    obtain ⟨vid, hvid, rfl⟩ := Database.insertKeyVersion_row hversion
    obtain rfl := Except.ok.inj (hvid.symm.trans hkeys.versions.nextId)
    obtain ⟨hmem, hkey⟩ := Versioning.mem_of_headOf hr
    have hnone : ∀ b, ¬ i.2 (.int r.id) b := hkeys.not_related hmem fun hu => hother (.str name) (hkey ▸ hu)
    have hupdate := hkeys.update_aside hnone (f := Database.pointKey (latest + 1) now) (fun _ => rfl) fun _ => rfl
    rw [updateKey_table]
    exact ⟨hrecords.of_succ, (hupdate.insert_aside
      (v := NamedKeyVersion.mk _ (.int r.id) (.int (latest + 1)) (.str nonce) (.str material) (.str tag) publicKey (.str now))
      hnone rfl).heads_of_succ⟩
  | keyDeleted name =>
    rw [(deleteKey_tables w.db owner name).1, (deleteKey_tables w.db owner name).2]
    exact ⟨hrecords.of_succ, hkeys.of_succ.drop_aside (hother (.str name))⟩
  | @logged o now head sequence entryHash db₁ _ hhead hsequence hhash hins =>
    obtain ⟨id, rfl⟩ := Database.insertLog_logs hins
    exact ⟨hrecords.of_succ, hkeys.of_succ⟩

end Related

/-! ### What the user finds -/

/-- A record in each world: the same one, to the user. -/
def SameRecord (i : Links) (r r' : KvRecord) : Prop := i.1 (.int r.id) (.int r'.id) ∧ r.shown = r'.shown

/-- A key in each world: the same one, to the user. -/
def SameKey (i : Links) (r r' : NamedKey) : Prop := i.2 (.int r.id) (.int r'.id) ∧ r.shown = r'.shown

omit [Platform] in
/-- Records that show the same differ in their identifiers. -/
theorem KvRecord.eq_of_shown {r r' : KvRecord} (h : r.shown = r'.shown) : r' = { r with id := r'.id } := by
  cases r
  cases r'
  simp only [shown, mk.injEq, true_and] at h ⊢
  exact ⟨h.1.symm, h.2.1.symm, h.2.2.1.symm, h.2.2.2.1.symm, h.2.2.2.2.symm⟩

omit [Platform] in
theorem NamedKey.eq_of_shown {r r' : NamedKey} (h : r.shown = r'.shown) : r' = { r with id := r'.id } := by
  cases r
  cases r'
  simp only [shown, mk.injEq, true_and] at h ⊢
  exact ⟨h.1.symm, h.2.1.symm, h.2.2.1.symm, h.2.2.2.1.symm, h.2.2.2.2.1.symm, h.2.2.2.2.2.1.symm, h.2.2.2.2.2.2.symm⟩

omit [Platform] in
theorem SameKey.later {i j : Links} {r r' : NamedKey} (hij : i ≤ j) (h : SameKey i r r') : SameKey j r r' := ⟨hij.2 _ _ h.1, h.2⟩

section Found

variable {u : PyStr} {i : Links} {n : ℕ} {w t : World}

theorem Related.selectRecord (h : Related u i n w t) (path : PyStr) :
    Option.Rel (SameRecord i) (w.db.selectRecord u path) (t.db.selectRecord u path) := by
  rw [Database.selectRecord_eq, Database.selectRecord_eq]
  exact h.tied.records.twins.headOf kvLayout.key_eq rfl

theorem Related.selectKey (h : Related u i n w t) (name : PyStr) :
    Option.Rel (SameKey i) (w.db.selectKey u name) (t.db.selectKey u name) := by
  rw [Database.selectKey_eq, Database.selectKey_eq]
  exact h.tied.keys.twins.headOf keyLayout.key_eq rfl

/-- A version with its record, as shown. -/
def shownPair (x : KvVersion × KvRecord) : KvVersion × KvRecord := (x.1.shown, x.2.shown)

/-- **The versions under a path of the user** show the same. -/
theorem Related.joinRecord (h : Related u i n w t) (path : PyStr) :
    (w.db.joinRecord u path).map shownPair = (t.db.joinRecord u path).map shownPair := by
  have hhead := h.tied.records.twins.headOf kvLayout.key_eq (k := (.str u, .str path)) rfl
  have hversions : (w.db.versionsAt u path).map KvVersion.shown = (t.db.versionsAt u path).map KvVersion.shown :=
    h.tied.records.twins.versionsOf kvLayout.key_eq rfl
  rw [Database.joinRecord_eq h.ordered.records, Database.joinRecord_eq h.ordered'.records]
  unfold Database.recordAt
  revert hhead
  show Option.Rel _ (kvTables.headOf _ _) (kvTables.headOf _ _) → _
  cases kvTables.headOf w.db.kvRecords.rows (.str u, .str path) <;>
    cases kvTables.headOf t.db.kvRecords.rows (.str u, .str path) <;> intro hhead
  · rfl
  · cases hhead
  · cases hhead
  · cases hhead with
    | some hr =>
      have hpair : ∀ (vs : List KvVersion) (r : KvRecord), (vs.map fun v => (v, r)).map shownPair =
          (vs.map KvVersion.shown).map fun v => (v, r.shown) := fun vs r => by
        rw [List.map_map, List.map_map]
        rfl
      have hshown := hr.2
      simp only [kvLayout] at hshown
      simp only [hpair, hversions, hshown]

/-- **The versions of a key of the user** show the same. -/
theorem Related.selectKeyVersion (h : Related u i n w t) {a b : ℤ} (hab : i.2 (.int a) (.int b)) (version : ℤ) :
    (w.db.selectKeyVersion a version).map NamedKeyVersion.shown = (t.db.selectKeyVersion b version).map NamedKeyVersion.shown := by
  have hfind := h.tied.keys.twins.find_version hab (p := fun v => v.version.sqlEq (.int version))
    (q := fun v => v.version.sqlEq (.int version)) fun _ => rfl
  unfold Database.selectKeyVersion
  simp only [Value.sqlEq_int] at hfind ⊢
  exact hfind

theorem Related.selectKeyVersions (h : Related u i n w t) {a b : ℤ} (hab : i.2 (.int a) (.int b)) :
    (w.db.selectKeyVersions a).map NamedKeyVersion.shown = (t.db.selectKeyVersions b).map NamedKeyVersion.shown := by
  have hsorted : ∀ (vs : List NamedKeyVersion), (vs.insertionSort fun a b => a.version.le b.version).map NamedKeyVersion.shown =
      (vs.map NamedKeyVersion.shown).insertionSort fun a b => a.version.le b.version :=
    fun vs => List.map_insertionSort _ _ _ _ fun _ _ _ _ => Iff.rfl
  have hversions := h.tied.keys.twins.versions _ _ hab
  unfold Database.selectKeyVersions
  rw [hsorted, hsorted]
  simp only [Value.sqlEq_int]
  exact congrArg (fun vs => List.insertionSort (fun a b : NamedKeyVersion => (a.version.le b.version : Prop)) vs) hversions

/-- **The keys of the user** correspond, in order. -/
theorem Related.selectOwned (h : Related u i n w t) : Corresponds (SameKey i) (w.db.selectOwned u) (t.db.selectOwned u) := by
  have hfilter : ∀ db : Database, (db.namedKeys.rows.filter fun r => r.ownerEmail.sqlEq (.str u)) =
      db.namedKeys.rows.filter fun r => Owned u (keyTables.key r) := by
    intro db
    apply List.filter_congr
    intro r _
    rw [Bool.eq_iff_iff, decide_eq_true_iff]
    simp [keyTables, Owned]
  unfold Database.selectOwned
  rw [hfilter, hfilter]
  apply Corresponds.insertionSort h.tied.keys.twins.heads
  intro r s r' s' hr hs
  rw [NamedKey.eq_of_shown hr.2, NamedKey.eq_of_shown hs.2]

end Found

/-! ### Transactions that two programs run -/

section Transactions

variable {α β γ δ : Type} {u : PyStr} {i : Links} {V : Links → α → β → Prop} {I : World → World → Prop}
  {Q : α → β → World → World → Prop}

omit [Platform] in
/-- A query in both. -/
theorem query_lockstep {params params' : List Value} {cells : α → List Value} {cells' : β → List Value} {f : Database → α}
    {g : Database → β} (hparams : ∀ s t, I s t → bindAll params = bindAll params')
    (hfetch : ∀ s t, I s t → Fetchable (cells (f s.db)) ∧ Fetchable (cells' (g t.db)))
    (h : ∀ s t, I s t → Q (f s.db) (g t.db) s t) :
    Prog.Lockstep I (query params cells f) (query params' cells' g) Q := by
  intro s t hI
  rw [run_query (hfetch s t hI).1, run_query (hfetch s t hI).2, ← hparams s t hI]
  rcases bindAll params with e | a
  · exact .inr ⟨e, s, t, rfl, rfl⟩
  · exact .inl ⟨_, _, s, t, rfl, rfl, h s t hI⟩

omit [Platform] in
/-- A statement in both: it raises the same error, or changes both. -/
theorem execute_lockstep {params params' : List Value} {f : Database → Except Exc (α × Database)}
    {g : Database → Except Exc (β × Database)} (hparams : ∀ s t, I s t → bindAll params = bindAll params')
    (h : ∀ s t, I s t → (∃ a db b db', f s.db = .ok (a, db) ∧ g t.db = .ok (b, db') ∧
      Q a b { s with db := db } { t with db := db' }) ∨ ∃ e, f s.db = .error e ∧ g t.db = .error e) :
    Prog.Lockstep I (execute params f) (execute params' g) Q := by
  intro s t hI
  rw [run_execute, run_execute, ← hparams s t hI]
  rcases bindAll params with e | a
  · exact .inr ⟨e, s, t, rfl, rfl⟩
  · rcases h s t hI with ⟨a, db, b, db', hf, hg, hQ⟩ | ⟨e, hf, hg⟩
    · simp only [hf, hg]
      exact .inl ⟨a, b, _, _, rfl, rfl, hQ⟩
    · simp only [hf, hg]
      exact .inr ⟨e, s, t, rfl, rfl⟩

/-- A look at the tables acts alike where it finds what is alike. -/
theorem query_alike {params params' : List Value} {cells : α → List Value} {cells' : β → List Value} {f : Database → α}
    {g : Database → β} (hf : ∀ {n db}, Ordered n db → Fetchable (cells (f db)))
    (hg : ∀ {n db}, Ordered n db → Fetchable (cells' (g db)))
    (h : ∀ j n s t, i ≤ j → Related u j (n + 1) s t → bindAll params = bindAll params' ∧ V j (f s.db) (g t.db)) :
    (connection .transaction (query params cells f)).Alike (Related u) V
      (connection .transaction (query params' cells' g)) i := by
  refine Prog.Alike.atomic (fun j n hj => query_lockstep (fun s t hR => (h j n s t hj hR).1)
    (fun s t hR => ⟨hf hR.ordered, hg hR.ordered'⟩) fun s t hR => ⟨j, le_rfl, (h j n s t hj hR).2, hR.of_succ⟩)
    fun j n s t hj hR => ?_
  rw [run_query (hf hR.ordered), run_query (hg hR.ordered')]
  exact hR.of_succ

/-- **A transaction of the user acts alike** where its body stays in step: what it does is in order, and
where it is rolled back nothing has happened. -/
theorem transaction_alike {label label' : Label} {body : Act α} {body' : Act β} (hcommon : Keeps World.common body)
    (hcommon' : Keeps World.common body')
    (hchange : ∀ w a w', body.run w = (.ok a, w') → w'.db.besideAccounts = w.db.besideAccounts ∨ Change u w.db w'.db)
    (hchange' : ∀ w a w', body'.run w = (.ok a, w') → w'.db.besideAccounts = w.db.besideAccounts ∨ Change u w.db w'.db)
    (h : ∀ j n, i ≤ j → Prog.Lockstep (Related u j (n + 1)) body body'
      fun a b s t => ∃ m, j ≤ m ∧ V m a b ∧ Tied u m n n s t) :
    (connection label body).Alike (Related u) V (connection label' body') i := by
  have hordered : ∀ {n : ℕ} {db db' : Database}, Ordered (n + 1) db →
      db'.besideAccounts = db.besideAccounts ∨ Change u db db' → Ordered n db' := by
    rintro n db db' hdb (hsame | hstep)
    · exact hdb.of_succ.of_besideAccounts hsame
    · exact hdb.change hstep
  refine Prog.Alike.atomic (fun j n hj s t hR => ?_) fun j n s t hj hR => ?_
  · rcases h j n hj s t hR with ⟨a, b, s', t', hs, ht, m, hm, hV, htied⟩ | hfail
    · exact .inl ⟨a, b, s', t', hs, ht, m, hm, hV, htied, hordered hR.ordered (hchange _ _ _ hs),
        hordered hR.ordered' (hchange' _ _ _ ht)⟩
    · exact .inr hfail
  · exact hR.of_succ.of_db ((hcommon.run s).trans (hR.tied.common.trans (hcommon'.run t).symm)) rfl rfl

end Transactions

end Related

end MiniVault
