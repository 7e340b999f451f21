import MiniVault.Kv.AssociatedData
import MiniVault.Kv.History

/-!
# Rollback of the key-value tables

Someone who can write to the database, but has not the key, replaces the rows of
`kv_records` and `kv_versions` by others, as often as they like and between any two
operations. What they put into a row of `kv_versions` opens only if it was encrypted for
that owner, path and number. But which row is the current one is said by the pointer in
`kv_records`, which nothing authenticates.

## What is proved

* `read_current_iff` — in every state of every run with such replacements, a read without
  a version returns nothing but the data written last, exactly unless the row it selects
  holds a blob that was encrypted for the row with other data.
* `read_superseded_sample` — moving the pointer back makes it do so.
-/

namespace MiniVault

open Foundations

/-- A step of a run: an operation, or someone else's replacement of the two tables. -/
inductive StoreOp where
  /-- An operation of the store. -/
  | op (o : KvOp)
  /-- The rows are replaced. -/
  | tamper (records : Table KvRecord) (versions : Table KvVersion)

/-- The steps of a run with their answers. -/
abbrev StoreTrace := List (StoreOp × Except Exc KvAnswer)

/-- The data of the last write under an owner and a path. -/
def lastWritten (t : StoreTrace) (owner path : PyStr) : Option Data :=
  t.foldl
    (fun last e =>
      match e with
      | (.op (.write o p data _), .ok _) => if o = owner ∧ p = path then some data else last
      | _ => last)
    none

theorem lastWritten_append (t : StoreTrace) (e : StoreOp × Except Exc KvAnswer) (owner path : PyStr) :
    lastWritten (t ++ [e]) owner path =
      match e with
      | (.op (.write o p data _), .ok _) => if o = owner ∧ p = path then some data else lastWritten t owner path
      | _ => lastWritten t owner path := by
  simp [lastWritten]

/-- What was written last was written. -/
theorem mem_of_lastWritten {t : StoreTrace} {owner path : PyStr} {data : Data}
    (h : lastWritten t owner path = some data) :
    ∃ nonce, StoreOp.op (.write owner path data nonce) ∈ t.map Prod.fst := by
  induction t using List.reverseRecOn with
  | nil => cases h
  | append_singleton t e ih =>
    rw [lastWritten_append] at h
    rw [List.map_append]
    split at h
    · next o p d nonce a =>
      split_ifs at h with hop
      · obtain ⟨rfl, rfl⟩ := hop
        obtain rfl := Option.some.inj h
        exact ⟨nonce, by simp⟩
      · obtain ⟨nonce, hmem⟩ := ih h
        exact ⟨nonce, List.mem_append_left _ hmem⟩
    · obtain ⟨nonce, hmem⟩ := ih h
      exact ⟨nonce, List.mem_append_left _ hmem⟩

section Runs

variable [Platform]

/-- The program of a step. -/
def StoreOp.exec (passphrase : PyStr) : StoreOp → Act KvAnswer
  | .op o => o.exec passphrase
  | .tamper records versions => do
    Prog.change .statement fun w => { w with db := { w.db with kvRecords := records, kvVersions := versions } }
    return .nothing

/-- A run. -/
def storeSession (passphrase : PyStr) : World → List StoreOp → StoreTrace × World :=
  Prog.session (StoreOp.exec passphrase)

/-! ### What is encrypted -/

/-- What a step of the run may encrypt: a key, or the data of a write. It opens again. -/
def SealedByStep (steps : List StoreOp) (s : Sealing) : Prop :=
  Opens s.key s.aad s.blob s.plaintext ∧
    (s.aad = VaultService.dekWrapAad ∨
      ∃ owner path data nonce, StoreOp.op (.write owner path data nonce) ∈ steps ∧
        KvService.encodeData data = .ok s.plaintext)

theorem SealedByStep.append {steps : List StoreOp} {s : Sealing} (h : SealedByStep steps s) (more : List StoreOp) :
    SealedByStep (steps ++ more) s := by
  obtain ⟨hopens, haad⟩ := h
  refine ⟨hopens, haad.imp id ?_⟩
  rintro ⟨owner, path, data, nonce, hmem, hdata⟩
  exact ⟨owner, path, data, nonce, List.mem_append_left _ hmem, hdata⟩

/-- A write encrypts its data. -/
theorem KvService.write_seals (hgcm : GcmCorrect) (owner path : PyStr) (data : Data) (nonce : Nonce) :
    Seals (SealedByStep [.op (.write owner path data nonce)]) (KvService.write owner path data nonce) := by
  refine .bind ((authorize_keeps _ _).aside fun _ => rfl).seals fun _ => .bind Keeps.getDek.seals fun _ =>
    .bind_done fun plaintext hdata => .bind Keeps.getDek.seals fun dek => .bind Keeps.now.seals fun now =>
      Seals.connection ?_
  refine .bind ?_ fun ⟨id, version, createdAt⟩ => .bind ?_ fun ⟨n, c, t⟩ =>
    .bind (Keeps.execute fun _ _ _ _ => rfl).seals fun _ => .pure _
  · refine .bind (Keeps.query _ _).seals fun record => ?_
    cases record with
    | none => exact .bind (Keeps.execute fun _ _ _ _ => rfl).seals fun _ => .pure _
    | some r => exact .bind (.done _) fun _ => .bind (Keeps.execute fun _ _ _ _ => rfl).seals fun _ => .pure _
  · refine .bind (.done _) fun associatedData => .bind (encryptAesGcm_seals fun encrypted hlen henc => ?_)
      fun _ => .pure _
    exact ⟨hgcm.opens hlen henc, .inr ⟨owner, path, data, nonce, List.mem_singleton_self _, hdata⟩⟩

/-- Deleting encrypts nothing. -/
theorem KvService.delete_keepsSealed (owner path : PyStr) : Keeps World.sealed (KvService.delete owner path) := by
  refine .bind ((authorize_keeps _ _).aside fun _ => rfl) fun _ => .bind .getDek fun _ =>
    .bind (.connection ?_ fun _ _ h => h) fun deleted => ?_
  · exact .bind (.execute fun _ _ _ _ => rfl) fun _ => .pure _
  · exact Prog.Sat.ite (fun _ => .throw _) fun _ => .pure _

/-- A step encrypts nothing but the data it writes. -/
theorem StoreOp.exec_seals (hgcm : GcmCorrect) (passphrase : PyStr) (step : StoreOp) :
    Seals (SealedByStep [step]) (step.exec passphrase) := by
  cases step with
  | tamper records versions => exact .bind (Keeps.seals (.change fun _ => rfl)) fun _ => .pure _
  | op o =>
    cases o with
    | write owner path data nonce => exact (KvService.write_seals hgcm _ _ _ _).bind fun _ => .pure _
    | read owner path version => exact ((KvService.read_keeps _ _ _).aside fun _ => rfl).seals.bind fun _ => .pure _
    | versions owner path => exact ((KvService.versions_keeps _ _).aside fun _ => rfl).seals.bind fun _ => .pure _
    | delete owner path => exact (KvService.delete_keepsSealed _ _).seals.bind fun _ => .pure _
    | lock => exact .bind (.bind (Keeps.seals (.change fun _ => rfl)) fun _ => VaultService.status_keeps.seals) fun _ => .pure _
    | unlock => exact (VaultService.unlock_keeps fun _ _ => rfl).seals.bind fun _ => .pure _
    | restart => exact .bind (Keeps.seals (.change fun _ => rfl)) fun _ => .pure _
    | tick time => exact .bind (Keeps.seals (.change fun _ => rfl)) fun _ => .pure _

/-- What was encrypted in a run opens again, and was a key or the data of a write. -/
def SealedByRun (t : StoreTrace) (w : World) : Prop := ∀ s ∈ w.sealed, SealedByStep (t.map Prod.fst) s

theorem sealed_session (hgcm : GcmCorrect) {passphrase : PyStr} {w : World} (h : SealedByRun [] w)
    (steps : List StoreOp) :
    SealedByRun (storeSession passphrase w steps).1 (storeSession passphrase w steps).2 := by
  refine Prog.session_invariant h (fun t w step hw s hs => ?_) steps
  rw [List.map_append]
  rcases (step.exec_seals hgcm passphrase).mem hs with hs | hs
  · exact (hw s hs).append _
  · obtain ⟨hopens, haad⟩ := hs
    refine ⟨hopens, haad.imp id ?_⟩
    rintro ⟨owner, path, data, nonce, hmem, hdata⟩
    exact ⟨owner, path, data, nonce, List.mem_append_right _ hmem, hdata⟩

/-- Initialization encrypts the key. -/
theorem sealed_start (hgcm : GcmCorrect) {environ : PyStr → Option PyStr} {passphrase : PyStr}
    {coins : VaultService.InitCoins}
    (hinit : ((VaultService.initializeVault passphrase coins).run (.fresh environ)).1.isOk) :
    SealedByRun [] ((VaultService.initializeVault passphrase coins).run (.fresh environ)).2 := by
  rcases hrun : (VaultService.initializeVault passphrase coins).run (.fresh environ) with ⟨e | s, w⟩
  · rw [hrun] at hinit
    cases hinit
  · obtain ⟨-, -, wrappingKey, encrypted, -, hlen, henc, rfl⟩ := VaultService.run_initializeVault_eq_ok hrun
    intro s hs
    obtain rfl := List.mem_singleton.mp hs
    exact ⟨hgcm.opens hlen henc, .inl rfl⟩

/-! ### The current version -/

/-- The associated data and the blob that a row is opened with. -/
def KvService.sealedIn (owner path : PyStr) (row : KvVersion) : Except Exc (Bytes × EncryptedBlob) := do
  let blob ← blobOf row
  let version ← pyInt row.version
  let associatedData ← aad owner path version
  return (associatedData, blob)

/-- **What the read path trusts.** The row that a read without a version selects, by the
pointer in the record, holds a blob that was encrypted for the row with other data than
was written last. -/
def SelectsOutdated (dek : Key) (t : StoreTrace) (w : World) (owner path : PyStr) : Prop :=
  Bindable owner ∧ Bindable path ∧ ∃ row record n m blob associatedData plaintext,
    KvService.selected w.db owner path none = some (row, record) ∧ Fetchable (KvVersion.joinedCells (row, record)) ∧
      pyInt row.version = .ok n ∧ pyInt record.latestVersion = .ok m ∧ KvService.blobOf row = .ok blob ∧
        KvService.aad owner path n = .ok associatedData ∧ ⟨dek, associatedData, plaintext, blob⟩ ∈ w.sealed ∧
          ∀ data, lastWritten t owner path = some data → KvService.encodeData data ≠ .ok plaintext

/-- An ideal cipher, on what a read without a version decrypts. -/
def IdealForRead (dek : Key) (w : World) (owner path : PyStr) : Prop :=
  ∀ found ∈ KvService.selected w.db owner path none, ∀ opened ∈ (KvService.sealedIn owner path found.1).toOption,
    OpensOnly w dek opened.1 opened.2

instance (dek : Key) (w : World) (owner path : PyStr) : Decidable (IdealForRead dek w owner path) :=
  inferInstanceAs (Decidable (∀ found ∈ KvService.selected w.db owner path none,
    ∀ opened ∈ (KvService.sealedIn owner path found.1).toOption, OpensOnly w dek opened.1 opened.2))

/-- **A read without a version is current, exactly unless the pointer selects a row that is
outdated.** In every run of the store from an empty database and a vault that has just been
initialized, mixed with any replacements of the rows of the two tables. -/
theorem read_current_iff (hgcm : GcmCorrect) (environ : PyStr → Option PyStr) (passphrase : PyStr)
    (coins : VaultService.InitCoins) (steps : List StoreOp) (owner path : PyStr) (dek : Key) :
    let start := (VaultService.initializeVault passphrase coins).run (.fresh environ)
    let run := storeSession passphrase start.2 steps
    start.1.isOk → run.2.dek = some dek → extractOwnerEmailFromPath path = .ok owner →
      IdealForRead dek run.2 owner path →
        (∀ u p data nonce, StoreOp.op (.write u p data nonce) ∈ steps → JsonFaithful data) →
          ((∀ r w', (KvService.read owner path none).run run.2 = (.ok r, w') →
              lastWritten run.1 owner path = some r.data) ↔
            ¬ SelectsOutdated dek run.1 run.2 owner path) := by
  intro start run hinit hdek hown hideal hjson
  have hsealed : SealedByRun run.1 run.2 := sealed_session hgcm (sealed_start hgcm hinit) steps
  have hsteps : run.1.map Prod.fst = steps := Prog.session_map_fst _ _ _
  constructor
  · rintro hcurrent ⟨howner, hpath, row, record, n, m, blob, ad, plaintext, hsel, hfetch, hn, hm, hblob, haad, hmem, hother⟩
    obtain ⟨hopens, hkey | ⟨u, p, data, nonce, hwrite, hdata⟩⟩ := hsealed _ hmem
    · exact KvService.aad_ne_dekWrapAad haad hkey
    · rw [hsteps] at hwrite
      have hopen : KvService.openRow dek owner path row = .ok (.obj data) :=
        KvService.openRow_eq_ok.mpr
          ⟨blob, n, ad, plaintext, hblob, hn, haad, hopens, (hjson u p data nonce hwrite).decodeData hdata⟩
      have hread := KvService.run_read_found hown howner hpath
        (show KvService.normalizeVersion none = .ok none from rfl) (by simp) hdek hsel hfetch hopen hn hm
      exact hother data (hcurrent _ _ hread) hdata
  · intro hnot r w' hread
    obtain ⟨-, -, howner, hpath, k, requested, row, record, hk, hnorm, hsel, hfetch, hopen, hn, hm⟩ :=
      KvService.run_read_eq_ok hread
    obtain rfl := Option.some.inj (hdek.symm.trans hk)
    obtain rfl := Except.ok.inj hnorm
    obtain ⟨blob, n, ad, plaintext, hblob, hn', haad, hopens, hdec⟩ := KvService.openRow_eq_ok.mp hopen
    have hopened : (KvService.sealedIn owner path row).toOption = some (ad, blob) := by
      simp only [KvService.sealedIn, hblob, hn', haad, ok_bind]
      rfl
    have hmem := hideal (row, record) hsel (ad, blob) hopened plaintext hopens
    by_contra hne
    refine hnot ⟨howner, hpath, row, record, n, _, blob, ad, plaintext, hsel, hfetch, hn', hm, hblob, haad, hmem, ?_⟩
    -- data that was written last and encrypts to this plaintext would have been returned
    intro data hlast hdata
    obtain ⟨nonce, hwrite⟩ := mem_of_lastWritten hlast
    rw [hsteps] at hwrite
    rw [(hjson owner path data nonce hwrite).decodeData hdata] at hdec
    obtain rfl := Json.obj.inj (Except.ok.inj hdec)
    exact hne hlast

end Runs

/-! ### A rollback on the sample platform -/

section Sample

attribute [local instance] samplePlatform

/-- A path that is written twice. -/
def sampleWrites : List StoreOp :=
  [.op .unlock, .op (.write sampleOwner samplePath [] (sampleNonce 3)),
    .op (.write sampleOwner samplePath [(py "a", .null)] (sampleNonce 4))]

/-- The database after the two writes. -/
def sampleWritten : Database := (storeSession samplePassphrase sampleStart.2 sampleWrites).2.db

/-- Someone moves the pointer back to the first version. -/
def sampleRollback : List StoreOp :=
  sampleWrites ++
    [.tamper
      { sampleWritten.kvRecords with
        rows := sampleWritten.kvRecords.rows.map fun r => { r with latestVersion := .int 1 } }
      sampleWritten.kvVersions]

/-- The run. -/
def sampleRolledBack : StoreTrace × World := storeSession samplePassphrase sampleStart.2 sampleRollback

/-- The equivalence, in the state that is reached. -/
theorem read_current_iff_sample :
    (∀ r w', (KvService.read sampleOwner samplePath none).run sampleRolledBack.2 = (.ok r, w') →
        lastWritten sampleRolledBack.1 sampleOwner samplePath = some r.data) ↔
      ¬ SelectsOutdated sampleCoins.dek sampleRolledBack.1 sampleRolledBack.2 sampleOwner samplePath := by
  refine read_current_iff samplePlatform_gcmCorrect (fun _ => none) samplePassphrase sampleCoins sampleRollback
    sampleOwner samplePath sampleCoins.dek (by decide +kernel) (by decide +kernel) (by decide +kernel)
    (by decide +kernel) ?_
  intro u p data nonce hmem
  have hdata : data = [] ∨ data = [(py "a", .null)] := by
    simp only [sampleRollback, sampleWrites, List.cons_append, List.nil_append, List.mem_cons, StoreOp.op.injEq,
      KvOp.write.injEq, reduceCtorEq, List.not_mem_nil, or_false, false_or] at hmem
    exact hmem.imp (fun h => h.2.2.1) fun h => h.2.2.1
  exact sampleJsonFaithful hdata

/-- The run reads the empty object, which was written first, although an object with one
member was written last. -/
theorem read_superseded_sample :
    sampleStart.1.isOk ∧ extractOwnerEmailFromPath samplePath = .ok sampleOwner ∧
      ((KvService.read sampleOwner samplePath none).run sampleRolledBack.2).1.toOption.map
          (fun r => (r.version, r.data.length)) = some (1, 0) ∧
        (lastWritten sampleRolledBack.1 sampleOwner samplePath).map List.length = some 1 := by
  refine ⟨by decide +kernel, by decide +kernel, by decide +kernel, by decide +kernel⟩

end Sample

end MiniVault
