import MiniVault.Kv.Tables

/-!
# What the key-value operations do

One lemma for each operation of `KvService`: what a call that succeeds found and
did, and what a call that fails leaves.

* `run_write_iff`, `run_write_eq_ok` — a write that succeeds was the owner's, found the vault
  unlocked, and stored one new version with the data encrypted under its number.
* `run_delete_eq_ok` — a delete that succeeds removed what there was.
* `run_read_found`, `run_read_notFound` — what a read answers.
* `write_failKeeps`, `delete_failKeeps`, `read_keeps`, `versions_keeps` — everything else
  leaves the tables, the key and the configuration as they were.
-/

namespace MiniVault

open Foundations

variable [Platform]

/-! ### What is left alone -/

/-- The part of the world the key-value store works on: its tables, the key in memory
and the configuration that the key comes from. -/
structure KvPart where
  /-- `kv_records`. -/
  kvRecords : Table KvRecord
  /-- `kv_versions`. -/
  kvVersions : Table KvVersion
  /-- The key in memory. -/
  dek : Option Key
  /-- The configuration. -/
  config : Option ConfigFile

/-- The world's part. -/
def World.kvPart (w : World) : KvPart := ⟨w.db.kvRecords, w.db.kvVersions, w.dek, w.config⟩

omit [Platform] in
theorem World.kvPart_restore {w w' : World} (h : w'.vaultPart = w.vaultPart) :
    World.kvPart { w' with db := w.db } = w.kvPart := by
  simp only [vaultPart, Prod.mk.injEq] at h
  simp only [kvPart, h.1, h.2]

omit [Platform] in
theorem World.kvPart_of_besideLog {w w' : World} (h : w'.besideLog = w.besideLog) : w'.kvPart = w.kvPart := by
  have hpart := congrArg World.kvPart h
  exact hpart

/-! ### The paths below an email -/

/-- The path of a name below an email. -/
def pathBelow (email name : PyStr) : PyStr := pathPrefix ++ (email ++ .scalar '/' :: name)

/-- An email without a slash owns the paths below it. -/
theorem extractOwnerEmailFromPath_below {email name : PyStr} (hemail : email ≠ []) (hname : name ≠ [])
    (hslash : PyChar.scalar '/' ∉ email) :
    extractOwnerEmailFromPath (pathBelow email name) = .ok (Platform.lower (strip email)) := by
  have htake : (pathBelow email name).take pathPrefix.length = pathPrefix := List.take_left
  have hdrop : (pathBelow email name).drop pathPrefix.length = email ++ .scalar '/' :: name := List.drop_left
  have hsplit : splitMax (.scalar '/') 1 (email ++ .scalar '/' :: name) = [email, name] := by
    rw [splitMax_append hslash]
    cases name with
    | nil => exact absurd rfl hname
    | cons c s => rfl
  simp only [extractOwnerEmailFromPath, htake, hdrop, hsplit, hemail, hname, ne_eq, not_true_eq_false, ↓reduceIte,
    or_self]

namespace KvService

variable {owner path : PyStr} {w w' : World}

/-! ### Authorization -/

theorem run_authorize_owner (h : extractOwnerEmailFromPath path = .ok owner) (w : World) :
    (authorize owner path).run w = (.ok (), w) := by
  simp [authorize, h, Except.toOption]

theorem run_authorize_eq_ok {u : Unit} :
    (authorize owner path).run w = (.ok u, w') ↔ extractOwnerEmailFromPath path = .ok owner ∧ w = w' := by
  constructor
  · intro h
    cases hx : extractOwnerEmailFromPath path with
    | error e =>
      simp only [authorize, hx, Except.toOption, ne_eq, reduceCtorEq, not_false_eq_true, ↓reduceIte, Prog.run_bind]
        at h
      split at h <;> simp at h
    | ok o =>
      by_cases ho : o = owner
      · subst ho
        rw [run_authorize_owner hx] at h
        exact ⟨rfl, (Prod.mk.inj h).2⟩
      · simp only [authorize, hx, Except.toOption, ne_eq, Option.some.injEq, ho, not_false_eq_true, ↓reduceIte,
          Prog.run_bind] at h
        split at h <;> simp at h
  · rintro ⟨h, rfl⟩
    exact run_authorize_owner h _

theorem authorize_keeps (owner path : PyStr) : Keeps World.besideLog (authorize owner path) := by
  unfold authorize
  exact Prog.Sat.ite (fun _ => .bind (AuditRepository.log_keeps _) fun _ => .throw _) fun _ => .pure _

/-! ### Writing -/

/-- What the first half of a transaction of `append_version` does. -/
theorem run_allocate_eq_ok {now : PyStr} {id version : ℤ} {createdAt : Value}
    (h : (KvRepository.allocate owner path now).run w = (.ok (id, version, createdAt), w')) :
    Bindable owner ∧ Bindable path ∧
      recordLength [.str owner, .str path, .int version, createdAt, .str now] ≤ maxLength ∧
        ∃ db, w.db.Allocated owner path now id version createdAt db ∧ w' = { w with db := db } := by
  unfold KvRepository.allocate at h
  obtain ⟨record, _, hq, h⟩ := Prog.run_bind_eq_ok.mp h
  obtain ⟨hbind, -, rfl, rfl⟩ := run_query_eq_ok.mp hq
  have howner := (bindValue_str_iff owner).mp (bindAll_eq_ok hbind _ (by simp))
  have hpath := (bindValue_str_iff path).mp (bindAll_eq_ok hbind _ (by simp))
  refine ⟨howner, hpath, ?_⟩
  rw [Database.selectRecord_eq] at h
  cases hr : w.db.recordAt owner path with
  | none =>
    simp only [hr] at h
    obtain ⟨id', _, hins, h⟩ := Prog.run_bind_eq_ok.mp h
    obtain ⟨-, db, hdb, rfl⟩ := run_execute_eq_ok.mp hins
    simp only [Prog.run_pure, Prod.mk.injEq, Except.ok.injEq] at h
    obtain ⟨⟨rfl, rfl, rfl⟩, rfl⟩ := h
    obtain ⟨hrow, hdb⟩ := limitRow_eq_ok.mp hdb
    obtain ⟨-, hid, rfl⟩ := Database.insertRecord_eq_ok hdb
    exact ⟨hrow, _, .created _ hr hid, rfl⟩
  | some r =>
    simp only [hr] at h
    obtain ⟨latest, _, hint, h⟩ := Prog.run_bind_eq_ok.mp h
    obtain ⟨_, _, hup, h⟩ := Prog.run_bind_eq_ok.mp h
    obtain ⟨hl, rfl⟩ := Prog.run_done_eq_ok.mp hint
    obtain ⟨hbind, db, hdb, rfl⟩ := run_execute_eq_ok.mp hup
    simp only [Prog.run_pure, Prod.mk.injEq, Except.ok.injEq] at h
    obtain ⟨⟨rfl, rfl, rfl⟩, rfl⟩ := h
    obtain ⟨hrow, hdb⟩ := limitRow_eq_ok.mp hdb
    obtain ⟨-, rfl⟩ := Prod.mk.inj (Except.ok.inj hdb)
    have hfits := (bindValue_int_iff (latest + 1)).mp (bindAll_eq_ok hbind _ (by simp))
    exact ⟨hrow, _, .bumped r latest hr hl hfits, rfl⟩

/-- What the encryption of a write does. -/
theorem run_encryptFor_eq_ok {dek : Key} {plaintext : Bytes} {nonce : Nonce} {version : ℤ} {n c t : PyStr} :
    (encryptFor dek plaintext owner path nonce version).run w = (.ok (n, c, t), w') ↔
      ∃ associatedData encrypted, aad owner path version = .ok associatedData ∧
        Platform.aesGcmEncrypt dek nonce plaintext associatedData = .ok encrypted ∧
          let blob := EncryptedBlob.split nonce encrypted
          n = encodeB64 blob.nonce ∧ c = encodeB64 blob.ciphertext ∧ t = encodeB64 blob.tag ∧
            w' = { w with sealed := w.sealed ++ [⟨dek, associatedData, plaintext, blob⟩] } := by
  unfold encryptFor
  constructor
  · intro h
    obtain ⟨associatedData, _, hdone, h⟩ := Prog.run_bind_eq_ok.mp h
    obtain ⟨haad, rfl⟩ := Prog.run_done_eq_ok.mp hdone
    obtain ⟨blob, _, hrun, h⟩ := Prog.run_bind_eq_ok.mp h
    obtain ⟨-, encrypted, henc, rfl, rfl⟩ := run_encryptAesGcm_eq_ok.mp hrun
    simp only [Prog.run_pure, Prod.mk.injEq, Except.ok.injEq] at h
    obtain ⟨⟨rfl, rfl, rfl⟩, rfl⟩ := h
    exact ⟨associatedData, encrypted, haad, henc, rfl, rfl, rfl, rfl⟩
  · rintro ⟨associatedData, encrypted, haad, henc, rfl, rfl, rfl, rfl⟩
    refine Prog.run_bind_eq_ok.mpr ⟨associatedData, w, by rw [haad]; rfl, ?_⟩
    exact Prog.run_bind_eq_ok.mpr
      ⟨_, _, run_encryptAesGcm_eq_ok.mpr ⟨dek.2, encrypted, henc, rfl, rfl⟩, rfl⟩

/-- An encryption keeps all but the record of what was encrypted. -/
theorem encryptFor_keeps {γ : Type} {f : World → γ} (hf : ∀ (w : World) sealed, f { w with sealed := sealed } = f w)
    (dek : Key) (plaintext : Bytes) (owner path : PyStr) (nonce : Nonce) (version : ℤ) :
    Keeps f (encryptFor dek plaintext owner path nonce version) :=
  .bind (.done _) fun _ => .bind (encryptAesGcm_keeps hf) fun _ => .pure _

/-- The transaction of a write. -/
def appendBody (owner path now : PyStr) (encrypt : ℤ → Act (PyStr × PyStr × PyStr)) : Act Appended := do
  let (recordId, version, createdAt) ← KvRepository.allocate owner path now
  let (nonce, ciphertext, tag) ← encrypt version
  let row : List Value := [.int recordId, .int version, .str nonce, .str ciphertext, .str tag, .str now]
  execute row <| limitRow row fun db =>
    (db.insertKvVersion recordId version nonce ciphertext tag now).map fun db => ((), db)
  return ⟨createdAt, .str now, version⟩

theorem appendVersion_eq (owner path : PyStr) (encrypt : ℤ → Act (PyStr × PyStr × PyStr)) :
    KvRepository.appendVersion owner path encrypt =
      now >>= fun now => connection .transaction (appendBody owner path now encrypt) := rfl

/-- What the statements and the encryption keep, the transaction keeps. -/
theorem appendBody_keeps {γ : Type} {f : World → γ} {now : PyStr} {encrypt : ℤ → Act (PyStr × PyStr × PyStr)}
    (hencrypt : ∀ v, Keeps f (encrypt v)) (hf : ∀ (w : World) db, f { w with db := db } = f w) :
    Keeps f (appendBody owner path now encrypt) := by
  refine .bind (.bind (.query _ _) fun record => ?_) fun ⟨id, version, createdAt⟩ => .bind (hencrypt version)
    fun ⟨n, c, t⟩ => .bind (.execute fun w _ _ _ => hf w _) fun _ => .pure _
  cases record with
  | none => exact .bind (.execute fun w _ _ _ => hf w _) fun _ => .pure _
  | some r => exact .bind (.done _) fun _ => .bind (.execute fun w _ _ _ => hf w _) fun _ => .pure _

/-- What a transaction of a write that commits did. -/
theorem run_appendBody_eq_ok {dek : Key} {plaintext : Bytes} {nonce : Nonce} {now : PyStr} {a : Appended}
    (h : (appendBody owner path now (encryptFor dek plaintext owner path nonce)).run w = (.ok a, w')) :
    Bindable owner ∧ Bindable path ∧ ∃ associatedData encrypted, aad owner path a.version = .ok associatedData ∧
      Platform.aesGcmEncrypt dek nonce plaintext associatedData = .ok encrypted ∧
        let blob := EncryptedBlob.split nonce encrypted
        ∃ id db db', w.db.Allocated owner path now id a.version a.createdAt db ∧
          db.insertKvVersion id a.version (encodeB64 blob.nonce) (encodeB64 blob.ciphertext)
            (encodeB64 blob.tag) now = .ok db' ∧
            w' = { w with db := db', sealed := w.sealed ++ [⟨dek, associatedData, plaintext, blob⟩] } := by
  obtain ⟨⟨id, version, createdAt⟩, _, halloc, h⟩ := Prog.run_bind_eq_ok.mp h
  obtain ⟨howner, hpath, -, db, hdb, rfl⟩ := run_allocate_eq_ok halloc
  obtain ⟨⟨n, c, t⟩, _, hencrypt, h⟩ := Prog.run_bind_eq_ok.mp h
  obtain ⟨associatedData, encrypted, haad, henc, rfl, rfl, rfl, rfl⟩ := run_encryptFor_eq_ok.mp hencrypt
  obtain ⟨_, _, hinsert, h⟩ := Prog.run_bind_eq_ok.mp h
  obtain ⟨-, db', hdb', rfl⟩ := run_execute_eq_ok.mp hinsert
  obtain ⟨-, hdb'⟩ := limitRow_eq_ok.mp hdb'
  simp only [Prog.run_pure, Prod.mk.injEq, Except.ok.injEq] at h
  obtain ⟨rfl, rfl⟩ := h
  cases hi : db.insertKvVersion id version (encodeB64 (EncryptedBlob.split nonce encrypted).nonce)
      (encodeB64 (EncryptedBlob.split nonce encrypted).ciphertext)
      (encodeB64 (EncryptedBlob.split nonce encrypted).tag) now with
  | error e => simp [hi, Except.map] at hdb'
  | ok db'' =>
    simp only [hi, Except.map, Except.ok.injEq, Prod.mk.injEq, true_and] at hdb'
    subst hdb'
    exact ⟨howner, hpath, associatedData, encrypted, haad, henc, id, db, db'', hdb, hi, rfl⟩

/-- A write is the transaction that appends a version, for the owner of the path and while the vault is
unlocked. -/
theorem run_write_iff {data : List (PyStr × Json)} {nonce : Nonce} {a : Appended} :
    (write owner path data nonce).run w = (.ok a, w') ↔
      extractOwnerEmailFromPath path = .ok owner ∧ ∃ dek plaintext, w.dek = some dek ∧ encodeData data = .ok plaintext ∧
        (appendBody owner path (isoformat w.clock) (encryptFor dek plaintext owner path nonce)).run w = (.ok a, w') := by
  unfold write
  constructor
  · intro h
    obtain ⟨_, _, hauth, h⟩ := Prog.run_bind_eq_ok.mp h
    obtain ⟨hown, rfl⟩ := run_authorize_eq_ok.mp hauth
    obtain ⟨_, _, hunlocked, h⟩ := Prog.run_bind_eq_ok.mp h
    obtain ⟨-, rfl⟩ := run_getDek_eq_ok.mp hunlocked
    obtain ⟨plaintext, _, hencode, h⟩ := Prog.run_bind_eq_ok.mp h
    obtain ⟨hdata, rfl⟩ := Prog.run_done_eq_ok.mp hencode
    obtain ⟨dek, _, hget, h⟩ := Prog.run_bind_eq_ok.mp h
    obtain ⟨hdek, rfl⟩ := run_getDek_eq_ok.mp hget
    rw [appendVersion_eq, Prog.run_bind_ok (run_now w)] at h
    exact ⟨hown, dek, plaintext, hdek, hdata, run_connection_eq_ok.mp h⟩
  · rintro ⟨hown, dek, plaintext, hdek, hdata, h⟩
    have hget := run_getDek_eq_ok.mpr ⟨hdek, rfl⟩
    have hencode : (Prog.done (encodeData data) : Act Bytes).run w = (.ok plaintext, w) := by rw [hdata]; rfl
    rw [Prog.run_bind_ok (run_authorize_owner hown w), Prog.run_bind_ok hget, Prog.run_bind_ok hencode,
      Prog.run_bind_ok hget, appendVersion_eq, Prog.run_bind_ok (run_now w)]
    exact run_connection_eq_ok.mpr h

/-- **What a write that succeeds did**: the path is the owner's, the vault was
unlocked, and under the number it allocated it stored the data encrypted under
owner, path and number. -/
theorem run_write_eq_ok {data : List (PyStr × Json)} {nonce : Nonce} {a : Appended}
    (h : (write owner path data nonce).run w = (.ok a, w')) :
    extractOwnerEmailFromPath path = .ok owner ∧ Bindable owner ∧ Bindable path ∧
      ∃ dek plaintext associatedData encrypted, w.dek = some dek ∧ encodeData data = .ok plaintext ∧
        aad owner path a.version = .ok associatedData ∧
          Platform.aesGcmEncrypt dek nonce plaintext associatedData = .ok encrypted ∧
            let blob := EncryptedBlob.split nonce encrypted
            ∃ now id db db', w.db.Allocated owner path now id a.version a.createdAt db ∧
              db.insertKvVersion id a.version (encodeB64 blob.nonce) (encodeB64 blob.ciphertext)
                (encodeB64 blob.tag) now = .ok db' ∧
                w' = { w with db := db', sealed := w.sealed ++ [⟨dek, associatedData, plaintext, blob⟩] } := by
  obtain ⟨hown, dek, plaintext, hdek, hdata, h⟩ := run_write_iff.mp h
  obtain ⟨howner, hpath, associatedData, encrypted, haad, henc, id, db, db', halloc, hins, rfl⟩ :=
    run_appendBody_eq_ok h
  exact ⟨hown, howner, hpath, dek, plaintext, associatedData, encrypted, hdek, hdata, haad, henc, _, id, db, db',
    halloc, hins, rfl⟩

/-- A write that fails leaves the tables, the key and the configuration as they were. -/
theorem write_failKeeps (owner path : PyStr) (data : List (PyStr × Json)) (nonce : Nonce) :
    FailKeeps World.kvPart (write owner path data nonce) := by
  have hauth : Keeps World.kvPart (authorize owner path) := (authorize_keeps owner path).weaken World.kvPart_of_besideLog
  refine .bind hauth fun _ => .bind .getDek fun _ => .bind (.done _) fun plaintext => .bind .getDek fun dek =>
    .bind .now fun now => .connection (g := World.vaultPart) ?_ fun _ _ => World.kvPart_restore
  exact appendBody_keeps (fun v => encryptFor_keeps (fun _ _ => rfl) dek plaintext owner path nonce v) fun _ _ => rfl

/-- Writing changes nothing but the database and the record of what was encrypted. -/
theorem write_keeps {γ : Type} {f : World → γ} (owner path : PyStr) (data : List (PyStr × Json)) (nonce : Nonce)
    (hf : ∀ (w : World) db sealed, f { w with db := db, sealed := sealed } = f w) :
    Keeps f (write owner path data nonce) := by
  have hbody : ∀ dek plaintext now, Keeps f (appendBody owner path now (encryptFor dek plaintext owner path nonce)) :=
    fun dek plaintext now => appendBody_keeps (fun v => encryptFor_keeps (fun w sealed => hf w w.db sealed) dek plaintext
      owner path nonce v) fun w db => hf w db w.sealed
  refine .bind ((authorize_keeps owner path).aside fun w => (hf w _ w.sealed).symm) fun _ => .bind .getDek fun _ =>
    .bind (.done _) fun plaintext => .bind .getDek fun dek => .bind .now fun now =>
      .connection (hbody dek plaintext now) fun w w' hw => ?_
  exact (hf w' w.db w'.sealed).trans hw

/-- A write encrypts under the associated data of its owner and path only. -/
theorem write_sealsAad (owner path : PyStr) (data : List (PyStr × Json)) (nonce : Nonce) :
    Seals (fun s => ∃ v, aad owner path v = .ok s.aad) (write owner path data nonce) := by
  refine .bind ((authorize_keeps owner path).aside fun _ => rfl).seals fun _ => .bind Keeps.getDek.seals fun _ =>
    .bind (.done _) fun plaintext => .bind Keeps.getDek.seals fun dek => .bind Keeps.now.seals fun now => .connection ?_
  refine .bind (Keeps.seals (.bind (.query _ _) fun record => ?_)) fun ⟨id, version, createdAt⟩ => .bind ?_
    fun ⟨n, c, t⟩ => Keeps.seals (.bind (.execute fun _ _ _ _ => rfl) fun _ => .pure _)
  · cases record with
    | none => exact .bind (.execute fun _ _ _ _ => rfl) fun _ => .pure _
    | some r => exact .bind (.done _) fun _ => .bind (.execute fun _ _ _ _ => rfl) fun _ => .pure _
  · exact Prog.Sat.bind_done fun associatedData haad => .bind (encryptAesGcm_seals fun _ _ _ => ⟨version, haad⟩)
      fun _ => .pure _

/-! ### Deleting -/

/-- What a delete that succeeds did. -/
theorem run_delete_eq_ok {u : Unit} (h : (delete owner path).run w = (.ok u, w')) :
    extractOwnerEmailFromPath path = .ok owner ∧ Bindable owner ∧ Bindable path ∧ w.dek ≠ none ∧
      0 < (w.db.deleteRecord owner path).1 ∧ w' = { w with db := (w.db.deleteRecord owner path).2 } := by
  unfold delete at h
  obtain ⟨_, _, hauth, h⟩ := Prog.run_bind_eq_ok.mp h
  obtain ⟨hown, rfl⟩ := run_authorize_eq_ok.mp hauth
  obtain ⟨dek, _, hget, h⟩ := Prog.run_bind_eq_ok.mp h
  obtain ⟨hdek, rfl⟩ := run_getDek_eq_ok.mp hget
  obtain ⟨deleted, _, hdel, h⟩ := Prog.run_bind_eq_ok.mp h
  obtain ⟨rowcount, _, hexec, hdel⟩ := Prog.run_bind_eq_ok.mp (run_connection_eq_ok.mp hdel)
  obtain ⟨hbind, db, hdb, rfl⟩ := run_execute_eq_ok.mp hexec
  simp only [Prog.run_pure, Prod.mk.injEq, Except.ok.injEq] at hdel hdb
  obtain ⟨rfl, rfl⟩ := hdel
  cases hpos : decide (rowcount > 0) with
  | false => simp [hpos] at h
  | true =>
    simp only [hpos, Bool.not_true, Bool.false_eq_true, ↓reduceIte, Prog.run_pure, Prod.mk.injEq] at h
    refine ⟨hown, (bindValue_str_iff owner).mp (bindAll_eq_ok hbind _ (by simp)),
      (bindValue_str_iff path).mp (bindAll_eq_ok hbind _ (by simp)), by simp [hdek], ?_, ?_⟩
    · rw [hdb]
      exact of_decide_eq_true hpos
    · rw [← h.2, hdb]

/-- A delete that fails leaves the tables, the key and the configuration as they were. -/
theorem delete_failKeeps (owner path : PyStr) : FailKeeps World.kvPart (delete owner path) := by
  have hauth : Keeps World.kvPart (authorize owner path) := (authorize_keeps owner path).weaken World.kvPart_of_besideLog
  refine .bind hauth fun _ => .bind .getDek fun _ => ?_
  intro w e w' h
  rcases Prog.run_bind_eq_error.mp h with h | ⟨deleted, w₁, hdel, h⟩
  · refine FailKeeps.connection (g := World.vaultPart) ?_ (fun _ _ => World.kvPart_restore) w e w' h
    exact .bind (.execute fun _ _ _ _ => rfl) fun _ => .pure _
  · obtain ⟨rowcount, _, hexec, hdel⟩ := Prog.run_bind_eq_ok.mp (run_connection_eq_ok.mp hdel)
    obtain ⟨-, db, hdb, rfl⟩ := run_execute_eq_ok.mp hexec
    simp only [Prog.run_pure, Prod.mk.injEq, Except.ok.injEq] at hdel hdb
    obtain ⟨rfl, rfl⟩ := hdel
    cases hpos : decide (rowcount > 0) with
    | true => simp [hpos] at h
    | false =>
      -- nothing was there to delete
      simp only [hpos, Bool.not_false, ↓reduceIte, Prog.run_throw, Prod.mk.injEq] at h
      have hzero : (w.db.deleteRecord owner path).1 = 0 := by
        rw [hdb]
        simpa using hpos
      have hsame : db = w.db := by
        rw [← Database.deleteRecord_none hzero, hdb]
      rw [← h.2, hsame]

/-- Deleting changes nothing but the database. -/
theorem delete_keeps {γ : Type} {f : World → γ} (owner path : PyStr) (hf : ∀ (w : World) db, f { w with db := db } = f w) :
    Keeps f (delete owner path) := by
  refine .bind ((authorize_keeps owner path).aside fun w => (hf w _).symm) fun _ => .bind .getDek fun _ => .bind ?_
    fun deleted => Prog.Sat.ite (fun _ => .throw _) fun _ => .pure _
  exact .connection (.bind (.execute fun w _ _ _ => hf w _) fun _ => .pure _) fun w w' hw => (hf w' w.db).trans hw

/-! ### Reading -/

/-- Reading and listing change the log at most. -/
theorem read_keeps (owner path : PyStr) (version : Option ℤ) : Keeps World.besideLog (read owner path version) := by
  unfold read
  refine .bind (authorize_keeps _ _) fun _ => .bind (.done _) fun requested => .bind .getDek fun _ =>
    .bind (.connection ?_ fun _ _ => World.besideLog_restore) fun record => ?_
  · cases requested <;> exact .query _ _
  · rcases record with - | ⟨row, record⟩
    · exact .throw _
    · refine .bind (.mapExc (.bind .getDek fun _ => .done _)) fun decoded => ?_
      cases decoded <;>
        first
        | exact .throw _
        | exact .bind (.done _) fun _ => .bind (.done _) fun _ => .pure _

theorem versions_keeps (owner path : PyStr) : Keeps World.besideLog (versions owner path) := by
  unfold versions
  refine .bind (authorize_keeps _ _) fun _ => .bind .getDek fun _ =>
    .bind (.connection (.query _ _) fun _ _ => World.besideLog_restore) fun rows => ?_
  rcases rows.getLast? with - | ⟨row, record⟩
  · exact .throw _
  · exact .bind (.done _) fun _ => .bind (.done _) fun _ => .pure _

/-- The row a read that asks for `requested` finds. -/
def selected (db : Database) (owner path : PyStr) : Option ℤ → Option (KvVersion × KvRecord)
  | none => db.selectLatest owner path
  | some v => db.selectVersion owner path v

omit [Platform] in
theorem run_getVersion (howner : Bindable owner) (hpath : Bindable path) {requested : Option ℤ}
    (hfits : ∀ v ∈ requested, Fits v)
    (hfetch : ∀ row ∈ selected w.db owner path requested, Fetchable (KvVersion.joinedCells row)) :
    (KvRepository.getVersion owner path requested).run w = (.ok (selected w.db owner path requested), w) := by
  have hb₁ := bindValue_str howner
  have hb₂ := bindValue_str hpath
  apply run_connection_eq_ok.mpr
  cases requested with
  | none =>
    exact run_query_eq_ok.mpr ⟨bindAll_ok (by simp [hb₁, hb₂]), fetchable_fetchone.mpr hfetch, rfl, rfl⟩
  | some v =>
    exact run_query_eq_ok.mpr
      ⟨bindAll_ok (by simp [hb₁, hb₂, bindValue_int (hfits v rfl)]), fetchable_fetchone.mpr hfetch, rfl, rfl⟩

omit [Platform] in
/-- What is selected under an owner and a path, in tables that are in order, is one of
the rows there. -/
theorem selected_mem {db : Database} (h : db.KvSound) {requested : Option ℤ} {row : KvVersion} {record : KvRecord}
    (hsel : selected db owner path requested = some (row, record)) : row ∈ db.versionsAt owner path := by
  have hjoin : (row, record) ∈ db.joinRecord owner path := by
    cases requested <;> exact List.mem_of_find?_eq_some hsel
  rw [Database.joinRecord_eq h] at hjoin
  split at hjoin
  · cases hjoin
  · obtain ⟨v, hv, heq⟩ := List.mem_map.mp hjoin
    rwa [← (Prod.mk.inj heq).1]

omit [Platform] in
/-- What is selected in tables that are in order can be fetched. -/
theorem selected_fetchable {db : Database} (h : db.KvSound) {requested : Option ℤ} :
    ∀ row ∈ selected db owner path requested, Fetchable (KvVersion.joinedCells row) := by
  cases requested with
  | none => exact fetchable_fetchone.mp h.fetchable_selectLatest
  | some v => exact fetchable_fetchone.mp h.fetchable_selectVersion

/-- A row that opens holds a blob that opens under the row's number. -/
theorem openRow_eq_ok {dek : Key} {row : KvVersion} {json : Json} :
    openRow dek owner path row = .ok json ↔ ∃ blob n associatedData plaintext, blobOf row = .ok blob ∧
      pyInt row.version = .ok n ∧ aad owner path n = .ok associatedData ∧ Opens dek associatedData blob plaintext ∧
        decodeData plaintext = .ok json := by
  unfold openRow Opens
  simp only [bind_eq_ok]
  constructor
  · rintro ⟨blob, hblob, n, hn, associatedData, haad, plaintext, hopens, hdec⟩
    exact ⟨blob, n, associatedData, plaintext, hblob, hn, haad, hopens, hdec⟩
  · rintro ⟨blob, n, associatedData, plaintext, hblob, hn, haad, hopens, hdec⟩
    exact ⟨blob, hblob, n, hn, associatedData, haad, plaintext, hopens, hdec⟩

/-- A read of a version that is there, and opens. -/
theorem run_read_found {version requested : Option ℤ} {dek : Key} {row : KvVersion} {record : KvRecord}
    {data : List (PyStr × Json)} {n m : ℤ} (hown : extractOwnerEmailFromPath path = .ok owner)
    (howner : Bindable owner) (hpath : Bindable path) (hnorm : normalizeVersion version = .ok requested)
    (hfits : ∀ v ∈ requested, Fits v) (hdek : w.dek = some dek)
    (hsel : selected w.db owner path requested = some (row, record))
    (hfetch : Fetchable (KvVersion.joinedCells (row, record)))
    (hopen : openRow dek owner path row = .ok (.obj data)) (hn : pyInt row.version = .ok n)
    (hm : pyInt record.latestVersion = .ok m) :
    (read owner path version).run w = (.ok ⟨data, n, m, row.createdAt⟩, w) := by
  have hget := run_getVersion howner hpath hfits (by rw [hsel]; rintro _ ⟨⟩; exact hfetch)
  unfold read
  simp only [Prog.run_bind, run_authorize_owner hown, Prog.run_done, hnorm, run_getDek, hdek, hget, hsel, run_mapExc, hopen,
    hn, hm, Prog.run_pure]

/-- A read of a version that is not there. -/
theorem run_read_notFound {version requested : Option ℤ} {dek : Key}
    (hown : extractOwnerEmailFromPath path = .ok owner) (howner : Bindable owner) (hpath : Bindable path)
    (hnorm : normalizeVersion version = .ok requested) (hfits : ∀ v ∈ requested, Fits v) (hdek : w.dek = some dek)
    (hsel : selected w.db owner path requested = none) :
    (read owner path version).run w = (.error .recordNotFoundError, w) := by
  have hget := run_getVersion howner hpath hfits (w := w) (by simp [hsel])
  unfold read
  simp only [Prog.run_bind, run_authorize_owner hown, Prog.run_done, hnorm, run_getDek, hdek, hget, hsel, Prog.run_throw]

/-- A request for a version below one is refused. -/
theorem run_read_invalid {v : ℤ} (hown : extractOwnerEmailFromPath path = .ok owner) (hv : v < 1) :
    (read owner path (some v)).run w = (.error .invalidVersionError, w) := by
  unfold read
  simp only [Prog.run_bind, run_authorize_owner hown, Prog.run_done, normalizeVersion, hv, ↓reduceIte]

/-- **What a read that succeeds found**: the row the query selects opens, under its own
number, to what is returned. -/
theorem run_read_eq_ok {version : Option ℤ} {r : ReadResult} (h : (read owner path version).run w = (.ok r, w')) :
    w = w' ∧ extractOwnerEmailFromPath path = .ok owner ∧ Bindable owner ∧ Bindable path ∧
      ∃ dek requested row record, w.dek = some dek ∧ normalizeVersion version = .ok requested ∧
        selected w.db owner path requested = some (row, record) ∧ Fetchable (KvVersion.joinedCells (row, record)) ∧
          openRow dek owner path row = .ok (.obj r.data) ∧ pyInt row.version = .ok r.version ∧
            pyInt record.latestVersion = .ok r.latestVersion := by
  unfold read at h
  obtain ⟨_, _, hauth, h⟩ := Prog.run_bind_eq_ok.mp h
  obtain ⟨hown, rfl⟩ := run_authorize_eq_ok.mp hauth
  obtain ⟨requested, _, hdone, h⟩ := Prog.run_bind_eq_ok.mp h
  obtain ⟨hnorm, rfl⟩ := Prog.run_done_eq_ok.mp hdone
  obtain ⟨dek, _, hget, h⟩ := Prog.run_bind_eq_ok.mp h
  obtain ⟨hdek, rfl⟩ := run_getDek_eq_ok.mp hget
  obtain ⟨found, w₁, hver, h⟩ := Prog.run_bind_eq_ok.mp h
  have hq := run_connection_eq_ok.mp hver
  obtain ⟨howner, hpath, hfetch, hsel, rfl⟩ :
      Bindable owner ∧ Bindable path ∧ Fetchable (fetchone KvVersion.joinedCells (selected w.db owner path requested)) ∧
        selected w.db owner path requested = found ∧ w = w₁ := by
    cases requested <;>
    · obtain ⟨hbind, hfetch, hfound⟩ := run_query_eq_ok.mp hq
      exact ⟨(bindValue_str_iff owner).mp (bindAll_eq_ok hbind _ (by simp)),
        (bindValue_str_iff path).mp (bindAll_eq_ok hbind _ (by simp)), hfetch, hfound⟩
  rcases found with - | ⟨row, record⟩
  · simp at h
  · obtain ⟨decoded, _, hexc, h⟩ := Prog.run_bind_eq_ok.mp h
    obtain ⟨dek', _, hget', hrow⟩ := Prog.run_bind_eq_ok.mp (run_mapExc_eq_ok.mp hexc)
    obtain ⟨hdek', rfl⟩ := run_getDek_eq_ok.mp hget'
    obtain ⟨hopen, rfl⟩ := Prog.run_done_eq_ok.mp hrow
    obtain rfl : dek = dek' := Option.some.inj (hdek.symm.trans hdek')
    cases decoded with
    | obj data =>
      obtain ⟨n, _, hver, h⟩ := Prog.run_bind_eq_ok.mp h
      obtain ⟨hn, rfl⟩ := Prog.run_done_eq_ok.mp hver
      obtain ⟨m, _, hlatest, h⟩ := Prog.run_bind_eq_ok.mp h
      obtain ⟨hm, rfl⟩ := Prog.run_done_eq_ok.mp hlatest
      simp only [Prog.run_pure, Prod.mk.injEq, Except.ok.injEq] at h
      obtain ⟨rfl, rfl⟩ := h
      exact ⟨rfl, hown, howner, hpath, dek, requested, row, record, hdek, hnorm, hsel,
        fetchable_fetchone.mp hfetch _ hsel, hopen, hn, hm⟩
    | _ => simp at h

/-! ### Listing -/

/-- The listing of rows whose numbers are integers. -/
theorem versionEntries_ok (rows : List (KvVersion × KvRecord)) (numbers : List ℤ)
    (h : rows.map (·.1.version) = numbers.map .int) :
    ∃ entries, versionEntries rows = .ok entries ∧ entries.map Prod.fst = numbers := by
  induction rows generalizing numbers with
  | nil =>
    obtain rfl : numbers = [] := by simpa using h.symm
    exact ⟨[], rfl, rfl⟩
  | cons r rows ih =>
    obtain ⟨row, record⟩ := r
    cases numbers with
    | nil => simp at h
    | cons n numbers =>
      simp only [List.map_cons, List.cons.injEq] at h
      obtain ⟨entries, he, hn⟩ := ih numbers h.2
      exact ⟨(n, row.createdAt) :: entries, by simp [versionEntries, h.1, he, pure, Except.pure], by simp [hn]⟩

/-- A listing of versions that are there. -/
theorem run_versions_found {dek : Key} {row : KvVersion} {record : KvRecord} {m : ℤ} {entries : List (ℤ × Value)}
    (hown : extractOwnerEmailFromPath path = .ok owner) (howner : Bindable owner) (hpath : Bindable path)
    (hdek : w.dek = some dek) (hlast : (w.db.selectVersions owner path).getLast? = some (row, record))
    (hfetch : Fetchable (fetchall KvVersion.listedCells (w.db.selectVersions owner path)))
    (hm : pyInt record.latestVersion = .ok m)
    (hentries : versionEntries (w.db.selectVersions owner path) = .ok entries) :
    (versions owner path).run w = (.ok ⟨path, m, entries⟩, w) := by
  have hlist : (KvRepository.listVersions owner path).run w = (.ok (w.db.selectVersions owner path), w) :=
    run_connection_eq_ok.mpr (run_query_eq_ok.mpr
      ⟨bindAll_ok (by simp [bindValue_str howner, bindValue_str hpath]), hfetch, rfl, rfl⟩)
  unfold versions
  simp only [Prog.run_bind, run_authorize_owner hown, run_getDek, hdek, hlist, hlast, Prog.run_done, hm, hentries,
    Prog.run_pure]

/-- A listing where there is nothing. -/
theorem run_versions_notFound {dek : Key} (hown : extractOwnerEmailFromPath path = .ok owner)
    (howner : Bindable owner) (hpath : Bindable path) (hdek : w.dek = some dek)
    (hnil : w.db.selectVersions owner path = []) :
    (versions owner path).run w = (.error .recordNotFoundError, w) := by
  have hlist : (KvRepository.listVersions owner path).run w = (.ok [], w) :=
    run_connection_eq_ok.mpr (run_query_eq_ok.mpr
      ⟨bindAll_ok (by simp [bindValue_str howner, bindValue_str hpath]), by simp [hnil], hnil, rfl⟩)
  unfold versions
  simp only [Prog.run_bind, run_authorize_owner hown, run_getDek, hdek, hlist, List.getLast?_nil, Prog.run_throw]

end KvService

end MiniVault
