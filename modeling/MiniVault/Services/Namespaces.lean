import MiniVault.Runtime.Timestamps
import MiniVault.Core.Sample
import MiniVault.Kv.AssociatedData
import MiniVault.Services.Runs

/-!
# Users and their paths

`api/auth_schemas.py` says which emails can be registered, and `kv/paths.py` who owns a
path. They were written apart: the pattern of an email excludes white space and a second
`@`, and the path is cut at its first slash, which the pattern does not exclude.

## What is proved

* `run_write_isOk_iff` — where a write of an owner succeeds: wherever the tables have room
  and the data can be encoded and encrypted.
* `namespace_usable_iff` — an email that can be registered owns the paths below it, and can
  use them, exactly where it has no slash.
-/

namespace MiniVault

open Foundations

/-! ### Where a write succeeds -/

namespace Database

variable {db db₁ : Database} {owner path : PyStr}

/-- The identifier of the record under an owner and a path: the one there is, or the next. -/
def recordId (db : Database) (owner path : PyStr) : Except Exc ℤ :=
  match db.recordAt owner path with
  | none => db.kvRecords.nextId KvRecord.id
  | some r => .ok r.id

/-- When the record under an owner and a path was created; `now` where there is none. -/
def recordCreatedAt (db : Database) (owner path now : PyStr) : Value :=
  match db.recordAt owner path with
  | none => .str now
  | some r => r.createdAt

/-- The row of the record under an owner and a path after one more version. -/
def recordRow (db : Database) (owner path now : PyStr) : List Value :=
  [.str owner, .str path, .int ((db.versionsAt owner path).length + 1), db.recordCreatedAt owner path now, .str now]

/-- There is room for one more version under an owner and a path. -/
structure Room (db : Database) (owner path now : PyStr) : Prop where
  /-- Its record has an identifier. -/
  record : ∃ id, db.recordId owner path = .ok id ∧ Fits id
  /-- Its row has an identifier. -/
  version : ∃ id, db.kvVersions.nextId KvVersion.id = .ok id
  /-- Its number fits into a cell. -/
  number : Fits ((db.versionsAt owner path).length + 1)
  /-- Its record's row is not too long. -/
  row : recordLength (db.recordRow owner path now) ≤ maxLength

variable [Platform]

/-- No version stands under the number that was allocated. -/
theorem Allocated.unused {now : PyStr} {id version : ℤ} {createdAt : Value}
    (h : db.Allocated owner path now id version createdAt db₁) (hs : db.KvSound) {v : KvVersion}
    (hv : v ∈ db.kvVersions.rows) : ¬ (v.recordId = .int id ∧ v.version = .int version) := by
  rintro ⟨href, hnumber⟩
  cases h with
  | created id hnone hid =>
    obtain ⟨g, hg, hgid⟩ := hs.refs v hv
    have hlt := hid g hg
    have heq : Value.int id = .int g.id := href.symm.trans hgid
    rw [Value.int.inj heq] at hlt
    omega
  | bumped r latest hr hlatest _ =>
    obtain ⟨hl, -⟩ := recordAt_latest hs hr
    rw [hl, pyInt_int] at hlatest
    have hmem : v ∈ db.versionsAt owner path := by
      have hat : db.versionsAt owner path = kvTables.belonging db.kvVersions.rows r := by
        have hhead : kvTables.headOf db.kvRecords.rows (.str owner, .str path) = some r := hr
        simp only [versionsAt, Versioning.versionsOf, hhead]
      rw [hat]
      exact List.mem_filter.mpr ⟨hv, decide_eq_true href⟩
    obtain ⟨i, hi⟩ := List.getElem?_of_mem hmem
    have hlt := (List.getElem?_eq_some_iff.mp hi).1
    have heq := (versionsAt_number hs hi).symm.trans hnumber
    have := Value.int.inj heq
    have := Except.ok.inj hlatest
    omega

theorem Allocated.createdAt_eq {now : PyStr} {id version : ℤ} {createdAt : Value}
    (h : db.Allocated owner path now id version createdAt db₁) : createdAt = db.recordCreatedAt owner path now := by
  unfold recordCreatedAt
  cases h with
  | created id hnone _ => rw [hnone]
  | bumped r latest hr _ _ => rw [hr]

/-- The version that was allocated is stored where its row has an identifier. -/
theorem Allocated.insert_iff {now nonce ciphertext tag : PyStr} {id version : ℤ} {createdAt : Value}
    (h : db.Allocated owner path now id version createdAt db₁) (hs : db.KvSound) :
    (∃ db₂, db₁.insertKvVersion id version nonce ciphertext tag now = .ok db₂) ↔
      ∃ vid, db.kvVersions.nextId KvVersion.id = .ok vid := by
  have hversions : db₁.kvVersions = db.kvVersions := by cases h <;> rfl
  have hfree : ¬ (db.kvVersions.rows.any fun v => v.recordId.sqlEq (.int id) && v.version.sqlEq (.int version)) := by
    intro hany
    obtain ⟨v, hv, heq⟩ := List.any_eq_true.mp hany
    simp only [Bool.and_eq_true, Value.sqlEq_int, decide_eq_true_eq] at heq
    exact h.unused hs hv heq
  have hrecord : db₁.kvRecords.rows.any fun r => r.id = id := by
    rw [List.any_eq_true]
    cases h with
    | created id => exact ⟨_, List.mem_append_right _ (List.mem_singleton_self _), by simp⟩
    | bumped r latest hr _ _ =>
      obtain ⟨hmem, -⟩ := Versioning.mem_of_headOf hr
      exact ⟨_, List.mem_map_of_mem hmem, by simp⟩
  unfold insertKvVersion
  rw [hversions]
  simp only [hfree, Bool.false_eq_true, ↓reduceIte, hrecord, Bool.not_true]
  cases db.kvVersions.nextId KvVersion.id with
  | error e => simp
  | ok n => simp

end Database

section Namespaces

variable [Platform]

namespace KvService

variable {owner path : PyStr} {w w' : World}

/-- Where there is room, a number is allocated. -/
theorem run_allocate_ok (hs : w.db.KvSound) (howner : Encodable owner) (hpath : Encodable path) {now : PyStr}
    (hnow : Bindable now) (hroom : w.db.Room owner path now) : ∃ id createdAt db,
      (KvRepository.allocate owner path now).run w =
        (.ok (id, (w.db.versionsAt owner path).length + 1, createdAt), { w with db := db }) ∧ Fits id ∧
          w.db.Allocated owner path now id ((w.db.versionsAt owner path).length + 1) createdAt db := by
  have howner : Bindable owner := bindable_of_row hroom.row (by simp [Database.recordRow]) howner
  have hpath : Bindable path := bindable_of_row hroom.row (by simp [Database.recordRow]) hpath
  have hselect := Database.selectRecord_eq w.db owner path
  have hfind : (query [.str owner, .str path] (fetchone KvRecord.pointerCells) fun db => db.selectRecord owner path).run w =
      (.ok (w.db.recordAt owner path), w) :=
    run_query_eq_ok.mpr
      ⟨bindAll_ok (by simp [bindValue_str howner, bindValue_str hpath]), hs.fetchable_selectRecord, hselect, rfl⟩
  obtain ⟨id, hid, hfits⟩ := hroom.record
  have hnumber := hroom.number
  have hlimit := hroom.row
  unfold Database.recordRow Database.recordCreatedAt at hlimit
  unfold KvRepository.allocate
  rw [Prog.run_bind_ok hfind]
  cases hr : w.db.recordAt owner path with
  | none =>
    have hlen : (w.db.versionsAt owner path).length = 0 := by rw [(Database.versionsAt_eq_nil hs).mpr hr]; rfl
    simp only [Database.recordId, hr] at hid
    have hcount : ((w.db.versionsAt owner path).length : ℤ) + 1 = 1 := by rw [hlen]; rfl
    rw [hr, hcount] at hlimit
    let db : Database := { w.db with
      kvRecords := ⟨w.db.kvRecords.rows ++ [⟨id, .str owner, .str path, .int 1, .str now, .str now⟩], id⟩ }
    have hinsert : w.db.insertRecord owner path 1 now = .ok (id, db) := by
      simp only [Database.insertRecord, hselect, hr, Option.isSome_none, Bool.false_eq_true, ↓reduceIte, hid, ok_bind]
      rfl
    have hone : Fits 1 := by decide
    have hbind : bindAll [.str owner, .str path, .int 1, .str now, .str now] = .ok () :=
      bindAll_ok (by simp [bindValue_str howner, bindValue_str hpath, bindValue_int hone, bindValue_str hnow])
    rw [hcount]
    exact ⟨id, .str now, db, Prog.run_bind_eq_ok.mpr ⟨id, { w with db := db },
      run_execute_eq_ok.mpr ⟨hbind, db, limitRow_eq_ok.mpr ⟨hlimit, hinsert⟩, rfl⟩, rfl⟩, hfits,
        .created id hr (Table.lt_nextId hid)⟩
  | some r =>
    simp only [Database.recordId, hr, Except.ok.injEq] at hid
    subst hid
    rw [hr] at hlimit
    have hlatest : pyInt r.latestVersion = .ok ((w.db.versionsAt owner path).length : ℤ) := by
      rw [(Database.recordAt_latest hs hr).1, pyInt_int]
    refine ⟨r.id, r.createdAt, _, ?_, hfits, .bumped r _ hr hlatest hnumber⟩
    refine Prog.run_bind_eq_ok.mpr ⟨_, w, by rw [hlatest]; rfl, ?_⟩
    refine Prog.run_bind_eq_ok.mpr ⟨(), _, run_execute_eq_ok.mpr
      ⟨bindAll_ok ?_, _, limitRow_eq_ok.mpr ⟨hlimit, rfl⟩, rfl⟩, rfl⟩
    simp [bindValue_int hnumber, bindValue_str hnow, bindValue_int hfits]

/-- The identifier an allocation reports is the record's. -/
theorem run_allocate_recordId {now : PyStr} {id version : ℤ} {createdAt : Value}
    (h : (KvRepository.allocate owner path now).run w = (.ok (id, version, createdAt), w')) :
    w.db.recordId owner path = .ok id := by
  unfold KvRepository.allocate at h
  obtain ⟨record, _, hq, h⟩ := Prog.run_bind_eq_ok.mp h
  obtain ⟨-, -, rfl, rfl⟩ := run_query_eq_ok.mp hq
  rw [Database.selectRecord_eq] at h
  cases hr : w.db.recordAt owner path with
  | none =>
    simp only [hr] at h
    obtain ⟨id', _, hins, h⟩ := Prog.run_bind_eq_ok.mp h
    obtain ⟨-, db, hdb, rfl⟩ := run_execute_eq_ok.mp hins
    obtain ⟨-, hdb⟩ := limitRow_eq_ok.mp hdb
    simp only [Prog.run_pure, Prod.mk.injEq, Except.ok.injEq] at h
    obtain ⟨⟨rfl, -⟩, -⟩ := h
    simp only [Database.insertRecord, Database.selectRecord_eq, hr, Option.isSome_none, Bool.false_eq_true,
      ↓reduceIte] at hdb
    simp only [Database.recordId, hr]
    cases hid : w.db.kvRecords.nextId KvRecord.id with
    | error e => simp [hid] at hdb
    | ok n =>
      simp only [hid, ok_bind] at hdb
      rw [(Prod.mk.inj (Except.ok.inj hdb)).1]
  | some r =>
    simp only [hr] at h
    obtain ⟨latest, _, -, h⟩ := Prog.run_bind_eq_ok.mp h
    obtain ⟨_, _, -, h⟩ := Prog.run_bind_eq_ok.mp h
    simp only [Prog.run_pure, Prod.mk.injEq, Except.ok.injEq] at h
    simp only [Database.recordId, hr, h.1.1]

/-- The row of a version. -/
def versionRow (id version : ℤ) (blob : EncryptedBlob) (now : PyStr) : List Value :=
  [.int id, .int version, .str (encodeB64 blob.nonce), .str (encodeB64 blob.ciphertext), .str (encodeB64 blob.tag),
    .str now]

/-- The data can be encoded, and encrypted for the next number, and what comes out is not too long for a row. -/
def Sealable (w : World) (owner path : PyStr) (data : Data) (nonce : Nonce) : Prop :=
  ∃ dek plaintext associatedData encrypted, w.dek = some dek ∧ encodeData data = .ok plaintext ∧
    aad owner path ((w.db.versionsAt owner path).length + 1) = .ok associatedData ∧
      Platform.aesGcmEncrypt dek nonce plaintext associatedData = .ok encrypted ∧
        ∃ id, w.db.recordId owner path = .ok id ∧ recordLength (versionRow id ((w.db.versionsAt owner path).length + 1)
          (.split nonce encrypted) (isoformat w.clock)) ≤ maxLength

/-- **Where a write of an owner succeeds**: wherever there is room for one more version, and the
data can be encoded and encrypted. -/
theorem run_write_isOk_iff (hs : w.db.KvSound) (hown : extractOwnerEmailFromPath path = .ok owner)
    (howner : Encodable owner) (hpath : Encodable path) {data : Data} {nonce : Nonce} :
    ((write owner path data nonce).run w).1.isOk ↔
      w.db.Room owner path (isoformat w.clock) ∧ Sealable w owner path data nonce := by
  constructor
  · intro hok
    rcases hrun : (write owner path data nonce).run w with ⟨e | a, w'⟩
    · rw [hrun] at hok
      cases hok
    · obtain ⟨-, dek, plaintext, hdek, hdata, hbody⟩ := run_write_iff.mp hrun
      obtain ⟨⟨id, version, createdAt⟩, _, halloc, hbody⟩ := Prog.run_bind_eq_ok.mp hbody
      obtain ⟨-, -, hrecord, db, hallocated, rfl⟩ := run_allocate_eq_ok halloc
      obtain ⟨⟨n, c, t⟩, _, hencrypt, hbody⟩ := Prog.run_bind_eq_ok.mp hbody
      obtain ⟨associatedData, encrypted, haad, henc, rfl, rfl, rfl, rfl⟩ := run_encryptFor_eq_ok.mp hencrypt
      obtain ⟨_, _, hinsert, -⟩ := Prog.run_bind_eq_ok.mp hbody
      obtain ⟨hbind, _, hins, -⟩ := run_execute_eq_ok.mp hinsert
      obtain ⟨hlimit, hins⟩ := limitRow_eq_ok.mp hins
      cases hrow : db.insertKvVersion id version (encodeB64 (EncryptedBlob.split nonce encrypted).nonce)
          (encodeB64 (EncryptedBlob.split nonce encrypted).ciphertext)
          (encodeB64 (EncryptedBlob.split nonce encrypted).tag) (isoformat w.clock) with
      | error e => simp [hrow, Except.map] at hins
      | ok db₂ =>
        obtain ⟨-, -, hversion, -⟩ := hallocated.append hs hrow
        have hfits := hallocated.fits
        have hid := run_allocate_recordId halloc
        rw [hversion] at hfits haad hlimit
        rw [hversion, hallocated.createdAt_eq] at hrecord
        refine ⟨⟨⟨id, hid, ?_⟩, (hallocated.insert_iff hs).mp ⟨db₂, hrow⟩, hfits, hrecord⟩, dek, plaintext,
          associatedData, encrypted, hdek, hdata, haad, henc, id, hid, hlimit⟩
        exact (bindValue_int_iff id).mp (bindAll_eq_ok hbind _ (by simp))
  · rintro ⟨hroom, dek, plaintext, associatedData, encrypted, hdek, hdata, haad, henc, id', hid', hlimit⟩
    obtain ⟨id, createdAt, db, halloc, hfits, hallocated⟩ :=
      run_allocate_ok hs howner hpath (bindable_isoformat w.clock) hroom
    obtain rfl : id = id' := Except.ok.inj ((run_allocate_recordId halloc).symm.trans hid')
    have hinsert : ∃ db₂, db.insertKvVersion id ((w.db.versionsAt owner path).length + 1)
        (encodeB64 (EncryptedBlob.split nonce encrypted).nonce)
        (encodeB64 (EncryptedBlob.split nonce encrypted).ciphertext)
        (encodeB64 (EncryptedBlob.split nonce encrypted).tag) (isoformat w.clock) = .ok db₂ :=
      (hallocated.insert_iff hs).mpr hroom.version
    obtain ⟨db₂, hrow⟩ := hinsert
    have hbody : ∃ w', (appendBody owner path (isoformat w.clock) (encryptFor dek plaintext owner path nonce)).run w =
        (.ok ⟨createdAt, .str (isoformat w.clock), (w.db.versionsAt owner path).length + 1⟩, w') := by
      refine ⟨_, Prog.run_bind_eq_ok.mpr ⟨_, _, halloc, Prog.run_bind_eq_ok.mpr ⟨_, _, run_encryptFor_eq_ok.mpr
        ⟨associatedData, encrypted, haad, henc, rfl, rfl, rfl, rfl⟩, Prog.run_bind_eq_ok.mpr ⟨(), _,
          run_execute_eq_ok.mpr ⟨bindAll_ok ?_, db₂, limitRow_eq_ok.mpr ⟨hlimit, ?_⟩, rfl⟩, rfl⟩⟩⟩⟩
      · have hbindable : ∀ {s : PyStr}, .str s ∈ versionRow id ((w.db.versionsAt owner path).length + 1)
            (.split nonce encrypted) (isoformat w.clock) → Encodable s → bindValue (.str s) = .ok () :=
          fun hmem hencodable => bindValue_str (bindable_of_row hlimit hmem hencodable)
        simp only [List.mem_cons, List.not_mem_nil, or_false, forall_eq_or_imp, forall_eq]
        exact ⟨bindValue_int hfits, bindValue_int hroom.number, hbindable (by simp [versionRow]) (encodable_encodeB64 _),
          hbindable (by simp [versionRow]) (encodable_encodeB64 _), hbindable (by simp [versionRow]) (encodable_encodeB64 _),
          bindValue_str (bindable_isoformat _)⟩
      · rw [hrow]
        rfl
    obtain ⟨w', hbody⟩ := hbody
    rw [run_write_iff.mpr ⟨hown, dek, plaintext, hdek, hdata, hbody⟩]
    rfl

/-- **What was written last is read**, where the tables are in order. -/
theorem write_read (hgcm : GcmCorrect) (hs : w.db.KvSound) {data : Data} {nonce : Nonce} {a : Appended}
    (hjson : JsonFaithful data) (hrun : (write owner path data nonce).run w = (.ok a, w')) : ∃ createdAt,
      (read owner path none).run w' = (.ok ⟨data, a.version, a.version, createdAt⟩, w') := by
  obtain ⟨hown, howner, hpath, dek, plaintext, associatedData, encrypted, hdek, hdata, haad, henc, now, id, db₁, db₂,
    halloc, hins, rfl⟩ := run_write_eq_ok hrun
  obtain ⟨hsound, -, hversion, row, hn, hc, ht, hrows⟩ := halloc.append hs hins
  have hat : db₂.versionsAt owner path = w.db.versionsAt owner path ++ [row] := by rw [hrows, if_pos ⟨rfl, rfl⟩]
  have hlen : ((db₂.versionsAt owner path).length : ℤ) = a.version := by
    rw [hat, hversion, List.length_append, List.length_singleton]
    push_cast
    rfl
  obtain ⟨record, hrecord⟩ : ∃ record, db₂.recordAt owner path = some record := by
    apply Option.ne_none_iff_exists'.mp
    intro hnone
    have hnil := (Database.versionsAt_eq_nil hsound).mpr hnone
    simp [hat] at hnil
  have hsel : selected db₂ owner path none = some (row, record) := by
    apply (Database.selectLatest_eq hsound).trans
    simp [hrecord, hat]
  have hnumber : row.version = .int a.version := by
    have hget : (db₂.versionsAt owner path)[(w.db.versionsAt owner path).length]? = some row := by simp [hat]
    rw [Database.versionsAt_number hsound hget, hversion]
  have hholds : Holds dek owner path row data :=
    ⟨a.version, .split nonce encrypted, associatedData, plaintext, hnumber,
      by simp [blobOf, hn, hc, ht], haad, hdata, hgcm.opens dek.2 henc⟩
  refine ⟨row.createdAt, run_read_found hown howner hpath rfl (by simp) hdek hsel (selected_fetchable hsound _ hsel)
    (hholds.openRow hjson)
    (by rw [hnumber, pyInt_int]) ?_⟩
  rw [(Database.recordAt_latest hsound hrecord).1, pyInt_int, hlen]

end KvService

/-! ### The emails that can be registered -/

/-- `[^@\s]+`. -/
def isEmailWord (s : PyStr) : Bool := s ≠ [] && s.all fun c => c ≠ .scalar '@' && !c.isSpace

/-- `EMAIL_PATTERN.fullmatch`: a word, `@`, a word, a point, and a word. -/
def emailPattern (s : PyStr) : Bool :=
  (cuts (.scalar '@') s).any fun (user, host) =>
    isEmailWord user && (cuts (.scalar '.') host).any fun (domain, top) => isEmailWord domain && isEmailWord top

namespace RegisterRequest

/-- `RegisterRequest.validate_email`. -/
def validateEmail (value : PyStr) : Except Exc PyStr :=
  let normalized := Platform.lower (strip value)
  if emailPattern normalized then .ok normalized else .error (.valueError "Invalid email format")

/-- The email of a request with `value` for it: text, with `min_length=3` and `max_length=254`, and
valid. There is none where the request is rejected. -/
def email (value : PyStr) : Option PyStr :=
  if Encodable value ∧ 3 ≤ value.length ∧ value.length ≤ 254 then (validateEmail value).toOption else none

end RegisterRequest

omit [Platform] in
/-- What matches the pattern has no white space. -/
theorem emailPattern_noSpace {s : PyStr} (h : emailPattern s) : ∀ c ∈ s, c.isSpace = false := by
  have hword : ∀ {t : PyStr}, isEmailWord t → ∀ c ∈ t, c.isSpace = false := by
    intro t ht c hc
    simp only [isEmailWord, Bool.and_eq_true, List.all_eq_true] at ht
    simpa using (ht.2 c hc).2
  obtain ⟨⟨user, host⟩, hcut, hmatch⟩ := List.any_eq_true.mp h
  simp only [Bool.and_eq_true, List.any_eq_true] at hmatch
  obtain ⟨huser, ⟨domain, top⟩, hcut', hdomain, htop⟩ := hmatch
  rw [mem_cuts] at hcut hcut'
  rw [hcut, hcut']
  simp only [List.mem_append, List.mem_cons]
  rintro c (hc | rfl | hc | rfl | hc)
  · exact hword huser c hc
  · decide
  · exact hword hdomain c hc
  · decide
  · exact hword htop c hc

omit [Platform] in
/-- Text without white space is stripped of nothing. -/
theorem strip_of_noSpace {s : PyStr} (h : ∀ c ∈ s, c.isSpace = false) : strip s = s := by
  have hdrop : s.dropWhile PyChar.isSpace = s := by
    cases s with
    | nil => rfl
    | cons c s => rw [List.dropWhile_cons, h c List.mem_cons_self]; rfl
  unfold strip
  rw [hdrop, List.rdropWhile_eq_self_iff]
  exact fun hne => by simp [h _ (List.getLast_mem hne)]

/-- What is assumed of lowercasing besides: it is idempotent, and text stays text. -/
structure LowerRegular : Prop where
  /-- It is idempotent. -/
  idempotent : ∀ s : PyStr, Platform.lower (Platform.lower s) = Platform.lower s
  /-- It brings no lone surrogate into a text. -/
  encodable : ∀ s : PyStr, Encodable s → Encodable (Platform.lower s)

/-- An email that can be registered is normalized and matches the pattern. -/
theorem RegisterRequest.email_eq_some {value email : PyStr} (h : RegisterRequest.email value = some email) :
    Encodable value ∧ email = Platform.lower (strip value) ∧ emailPattern email := by
  unfold RegisterRequest.email at h
  split_ifs at h with hvalue
  unfold validateEmail at h
  cases hpattern : emailPattern (Platform.lower (strip value)) with
  | false => simp [hpattern, Except.toOption] at h
  | true =>
    simp only [hpattern, ↓reduceIte, Except.toOption, Option.some.injEq] at h
    exact ⟨hvalue.1, h.symm, h ▸ hpattern⟩

/-- It has UTF-8 bytes, and is its own normal form. -/
theorem RegisterRequest.email_normal (hlower : LowerRegular) {value email : PyStr}
    (h : RegisterRequest.email value = some email) :
    Encodable email ∧ Platform.lower (strip email) = email := by
  obtain ⟨hvalue, rfl, hpattern⟩ := email_eq_some h
  refine ⟨hlower.encodable _ hvalue.strip, ?_⟩
  rw [strip_of_noSpace (emailPattern_noSpace hpattern), hlower.idempotent]

/-! ### The paths below an email -/

/-- The requester is authorized for the path, whatever else there is. -/
def Authorized (email path : PyStr) : Prop := ∀ w, (KvService.authorize email path).run w = (.ok (), w)

theorem authorized_iff {email path : PyStr} : Authorized email path ↔ extractOwnerEmailFromPath path = .ok email :=
  ⟨fun h => (KvService.run_authorize_eq_ok.mp (h (.fresh fun _ => none))).1, fun h w => KvService.run_authorize_owner h w⟩

/-- The path is usable for the email: it is authorized, and in every state that a run of the services
reaches, while the vault is unlocked, a write succeeds wherever there is room and the data can be
encoded and encrypted, and the read that follows returns the data. -/
structure UsablePath (email path : PyStr) : Prop where
  /-- It is authorized. -/
  authorized : Authorized email path
  /-- It can be written, and read back. -/
  stores : ∀ (environ : PyStr → Option PyStr) (passphrase : PyStr) (coins : VaultService.InitCoins)
    (ops : List ServiceOp) (data : Data) (nonce : Nonce),
      let w := (serviceSession passphrase (serviceStart environ passphrase coins) ops).2
      let written := (KvService.write email path data nonce).run w
      w.dek ≠ none → JsonFaithful data →
        (written.1.isOk ↔ w.db.Room email path (isoformat w.clock) ∧ KvService.Sealable w email path data nonce) ∧
          ∀ a, written.1 = .ok a → ∃ createdAt,
            ((KvService.read email path none).run written.2).1 = .ok ⟨data, a.version, a.version, createdAt⟩

/-- **Who can use the paths below their email**: an email that can be registered owns a path below it,
and can use it, exactly where the email has no slash. And no path is owned by two. -/
theorem namespace_usable_iff (hgcm : GcmCorrect) (hslash : LowerKeepsSlash) (hlower : LowerRegular)
    {value email name : PyStr} (haccepted : RegisterRequest.email value = some email) (hname : name ≠ [])
    (hencodable : Encodable name) :
    (UsablePath email (pathBelow email name) ↔ PyChar.scalar '/' ∉ email) ∧
      ∀ path e e', Authorized e path → Authorized e' path → e = e' := by
  obtain ⟨hemail, hnormal⟩ := RegisterRequest.email_normal hlower haccepted
  refine ⟨⟨fun h => (extractOwnerEmailFromPath_eq_ok hslash (authorized_iff.mp h.authorized)).2, fun h => ?_⟩,
    fun path e e' he he' => Except.ok.inj ((authorized_iff.mp he).symm.trans (authorized_iff.mp he'))⟩
  have hne : email ≠ [] := by
    rintro rfl
    obtain ⟨-, -, hpattern⟩ := RegisterRequest.email_eq_some haccepted
    cases hpattern
  have hown : extractOwnerEmailFromPath (pathBelow email name) = .ok email := by
    rw [extractOwnerEmailFromPath_below hne hname h, hnormal]
  have hpath : Encodable (pathBelow email name) := by
    simp only [pathBelow, pathPrefix, encodable_append, encodable_py, hemail, true_and]
    rintro c (_ | ⟨_, hc⟩)
    · rfl
    · exact hencodable c hc
  refine ⟨authorized_iff.mpr hown, fun environ passphrase coins ops data nonce => ?_⟩
  intro w written hunlocked hjson
  have hsound := kvSound_session environ passphrase coins ops
  refine ⟨KvService.run_write_isOk_iff hsound hown hemail hpath, fun a ha => ?_⟩
  obtain ⟨createdAt, hread⟩ := KvService.write_read hgcm hsound hjson (Prod.ext ha rfl)
  exact ⟨createdAt, by rw [hread]⟩

end Namespaces

/-! ### Two emails on the sample platform -/

section Sample

attribute [local instance] samplePlatform

/-- The sample platform lowercases ASCII letters only. -/
theorem samplePlatform_lowerRegular : @LowerRegular samplePlatform where
  idempotent s := by
    have htwice : ∀ c : Char, c.toLower.toLower = c.toLower := by
      intro c
      rcases toLower_cases c with ⟨hupper, hlow⟩ | ⟨-, hstays⟩
      · -- 32 on, there is no capital letter
        have hge : 65 ≤ c.val.toNat := hupper.1
        have hle : c.val.toNat ≤ 90 := hupper.2
        rcases toLower_cases c.toLower with ⟨hagain, -⟩ | ⟨-, hstays⟩
        · exfalso
          have hle' := hagain.2
          rw [hlow] at hle'
          have hnat : (c.val.toNat + 32) % 2 ^ 32 ≤ 90 := hle'
          omega
        · exact hstays
      · rw [hstays, hstays]
    show (s.map (mapScalar Char.toLower)).map (mapScalar Char.toLower) = s.map (mapScalar Char.toLower)
    rw [List.map_map]
    apply List.map_congr_left
    intro c _
    cases c with
    | scalar c => exact congrArg PyChar.scalar (htwice c)
    | surrogate k => rfl
  encodable s hs := by
    intro d hd
    obtain ⟨c, hc, rfl⟩ := List.mem_map.mp hd
    have hscalar := hs c hc
    cases c with
    | scalar c => rfl
    | surrogate k => cases hscalar

/-- A user with an ordinary email can use the paths below it. -/
theorem namespace_usable_sample : UsablePath sampleOwner (pathBelow sampleOwner (py "x")) := by
  have haccepted : RegisterRequest.email (py " A@b.c") = some sampleOwner := by decide +kernel
  exact (namespace_usable_iff samplePlatform_gcmCorrect samplePlatform_lowerKeepsSlash samplePlatform_lowerRegular
    haccepted (by decide) (by decide)).1.mpr (by decide)

/-- A user with a slash in the email can be registered, and cannot. -/
theorem namespace_slash_sample :
    RegisterRequest.email (py "a/b@c.d") = some (py "a/b@c.d") ∧
      ¬ Authorized (py "a/b@c.d") (pathBelow (py "a/b@c.d") (py "x")) := by
  refine ⟨by decide +kernel, fun h => ?_⟩
  have hpath : extractOwnerEmailFromPath (pathBelow (py "a/b@c.d") (py "x")) = .ok (py "a") := by decide +kernel
  exact absurd (Except.ok.inj ((authorized_iff.mp h).symm.trans hpath)) (by decide)

end Sample

end MiniVault
