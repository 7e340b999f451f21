import MiniVault.Core.Vault
import MiniVault.Kv.Operations

/-!
# The key-value history

A run of the key-value store is any sequence of its operations, by any users on any
paths, mixed with `lock`, `unlock` and restarts of the process. What it should
remember is said without tables: under an owner and a path, the list of the data of
the writes that succeeded since the last delete that did (`history`).

## What is proved

* `refines_session` — every run keeps the two tables, the configuration and the key
  in memory to `Refines`: the rows under an owner and a path, in order, hold the
  elements of the history, each sealed under its own number.
* `reads_history` — so in every state a run reaches, while the vault is unlocked,
  `read` and `versions` answer from the history and from nothing else.
-/

namespace MiniVault

open Foundations

section Runs

variable [Platform]

/-! ### Runs -/

/-- What is written: a JSON object. -/
abbrev Data := List (PyStr × Json)

/-- An operation of a run. -/
inductive KvOp where
  /-- `KvService.write`. -/
  | write (owner path : PyStr) (data : Data) (nonce : Nonce)
  /-- `KvService.read`. -/
  | read (owner path : PyStr) (version : Option ℤ)
  /-- `KvService.versions`. -/
  | versions (owner path : PyStr)
  /-- `KvService.delete`. -/
  | delete (owner path : PyStr)
  /-- `VaultService.lock`. -/
  | lock
  /-- `VaultService.unlock`, with the passphrase of the run. -/
  | unlock
  /-- The process restarts. -/
  | restart
  /-- The clock shows another time. -/
  | tick (time : ℕ)

/-- What an operation answers. -/
inductive KvAnswer where
  /-- Of a write. -/
  | appended (a : Appended)
  /-- Of a read. -/
  | record (r : ReadResult)
  /-- Of a listing. -/
  | listing (r : VersionsResult)
  /-- Of the vault. -/
  | status (s : VaultService.Status)
  /-- Of an operation that answers nothing. -/
  | nothing
  deriving DecidableEq

/-- The program of an operation. -/
def KvOp.exec (passphrase : PyStr) : KvOp → Act KvAnswer
  | .write owner path data nonce => do return .appended (← KvService.write owner path data nonce)
  | .read owner path version => do return .record (← KvService.read owner path version)
  | .versions owner path => do return .listing (← KvService.versions owner path)
  | .delete owner path => do
    KvService.delete owner path
    return .nothing
  | .lock => do return .status (← VaultService.lock)
  | .unlock => do return .status (← VaultService.unlock passphrase)
  | .restart => do
    VaultService.restart
    return .nothing
  | .tick time => do
    Prog.change .clock fun w => { w with clock := time }
    return .nothing

/-- The operations of a run with their answers. -/
abbrev KvTrace := List (KvOp × Except Exc KvAnswer)

/-- A run. -/
def kvSession (passphrase : PyStr) : World → List KvOp → KvTrace × World := Prog.session (KvOp.exec passphrase)

/-- What the writes and deletes that succeeded make of a history. -/
def recordKv (h : PyStr → PyStr → List Data) : KvOp × Except Exc KvAnswer → PyStr → PyStr → List Data
  | (.write o p data _, .ok _) => fun u q => if o = u ∧ p = q then h u q ++ [data] else h u q
  | (.delete o p, .ok _) => fun u q => if u = o ∧ q = p then [] else h u q
  | _ => h

/-- The data of the writes under an owner and a path since the last delete, oldest first. -/
def history (t : KvTrace) : PyStr → PyStr → List Data := t.foldl recordKv fun _ _ => []

omit [Platform] in
theorem history_append (t : KvTrace) (e : KvOp × Except Exc KvAnswer) :
    history (t ++ [e]) = recordKv (history t) e := by
  simp [history]

omit [Platform] in
/-- What is in the history was written. -/
theorem mem_history {t : KvTrace} {u p : PyStr} {d : Data} (h : d ∈ history t u p) :
    ∃ nonce a, (KvOp.write u p d nonce, Except.ok a) ∈ t := by
  induction t using List.reverseRecOn with
  | nil => cases h
  | append_singleton t e ih =>
    have hold : d ∈ history t u p → ∃ nonce a, (KvOp.write u p d nonce, Except.ok a) ∈ t ++ [e] := by
      intro h
      obtain ⟨nonce, a, hmem⟩ := ih h
      exact ⟨nonce, a, List.mem_append_left _ hmem⟩
    rw [history_append] at h
    unfold recordKv at h
    split at h
    · next o q data nonce a =>
      split_ifs at h with ho
      · obtain ⟨rfl, rfl⟩ := ho
        rcases List.mem_append.mp h with h | h
        · exact hold h
        · obtain rfl := List.mem_singleton.mp h
          exact ⟨nonce, a, by simp⟩
      · exact hold h
    · split_ifs at h
      · cases h
      · exact hold h
    · exact hold h

/-! ### The invariant -/

/-- The row holds the data, sealed under owner, path and the row's number. -/
def Holds (dek : Key) (owner path : PyStr) (row : KvVersion) (data : Data) : Prop :=
  ∃ (n : ℤ) (blob : EncryptedBlob) (associatedData plaintext : Bytes),
    row.version = .int n ∧ KvService.blobOf row = .ok blob ∧ KvService.aad owner path n = .ok associatedData ∧
      KvService.encodeData data = .ok plaintext ∧ Opens dek associatedData blob plaintext

/-- **The refinement**: the tables hold the history. -/
structure Refines (passphrase : PyStr) (dek : Key) (t : KvTrace) (w : World) : Prop where
  /-- The configuration wraps the key under the passphrase. -/
  config : Unlocks passphrase dek w.config
  /-- There is no other key in memory. -/
  memory : ∀ k ∈ w.dek, k = dek
  /-- The tables are in order. -/
  sound : w.db.KvSound
  /-- The rows hold the elements of the history. -/
  holds : ∀ u p, List.Forall₂ (Holds dek u p) (w.db.versionsAt u p) (history t u p)
  /-- The numbers fit into a cell. -/
  fits : ∀ u p, Fits (history t u p).length

/-- The refinement is about the key-value part of the world. -/
theorem Refines.of_kvPart {passphrase : PyStr} {dek : Key} {t t' : KvTrace} {w w' : World}
    (h : Refines passphrase dek t w) (hpart : w'.kvPart = w.kvPart) (ht : history t' = history t) :
    Refines passphrase dek t' w' := by
  simp only [World.kvPart, KvPart.mk.injEq] at hpart
  obtain ⟨hrecords, hversions, hdek, hconfig⟩ := hpart
  refine ⟨hconfig ▸ h.config, hdek ▸ h.memory,
    ⟨?_, hrecords ▸ h.sound.recordCells, hversions ▸ h.sound.versionCells⟩, fun u p => ?_, fun u p => ht ▸ h.fits u p⟩
  · rw [hrecords, hversions]
    exact h.sound.toSound
  · have hat : w'.db.versionsAt u p = w.db.versionsAt u p := by
      unfold Database.versionsAt
      rw [hrecords, hversions]
    rw [hat, ht]
    exact h.holds u p

/-- A write that succeeds keeps the refinement: its data is added to the history, and
the row that holds it to the rows. -/
theorem Refines.write (hgcm : GcmCorrect) {passphrase : PyStr} {dek : Key} {t : KvTrace} {w w' : World}
    {owner path : PyStr} {data : Data} {nonce : Nonce} {a : Appended} (h : Refines passphrase dek t w)
    (hrun : (KvService.write owner path data nonce).run w = (.ok a, w')) {answer : KvAnswer} :
    Refines passphrase dek (t ++ [(.write owner path data nonce, .ok answer)]) w' := by
  obtain ⟨-, -, -, k, plaintext, associatedData, encrypted, hk, hdata, haad, henc, now, id, db₁, db₂, halloc, hins,
    rfl⟩ := KvService.run_write_eq_ok hrun
  obtain rfl := h.memory k hk
  obtain ⟨hsound, -, hversion, row, hn, hc, ht, hrows⟩ := halloc.append h.sound hins
  have hlen : (w.db.versionsAt owner path).length = (history t owner path).length :=
    (h.holds owner path).length_eq
  have hblob : KvService.blobOf row = .ok (.split nonce encrypted) := by
    simp [KvService.blobOf, hn, hc, ht, pure, Except.pure]
  refine ⟨h.config, h.memory, hsound, fun u p => ?_, fun u p => ?_⟩
  · show List.Forall₂ _ (db₂.versionsAt u p) _
    rw [hrows, history_append]
    simp only [recordKv]
    split_ifs with hup
    · obtain ⟨rfl, rfl⟩ := hup
      have hat : (db₂.versionsAt owner path)[(w.db.versionsAt owner path).length]? = some row := by
        rw [hrows]
        simp
      refine List.rel_append (h.holds owner path) (.cons ⟨a.version, _, associatedData, plaintext, ?_, hblob, haad,
        hdata, hgcm.opens k.2 henc⟩ .nil)
      rw [Database.versionsAt_number hsound hat, hversion]
    · exact h.holds u p
  · rw [history_append]
    simp only [recordKv]
    split_ifs with hup
    · obtain ⟨rfl, rfl⟩ := hup
      rw [List.length_append, List.length_singleton, ← hlen]
      push_cast
      rw [← hversion]
      exact halloc.fits
    · exact h.fits u p

/-- A delete that succeeds keeps the refinement: nothing is left under its path, in the
tables and in the history. -/
theorem Refines.delete {passphrase : PyStr} {dek : Key} {t : KvTrace} {w w' : World} {owner path : PyStr} {u : Unit}
    (h : Refines passphrase dek t w) (hrun : (KvService.delete owner path).run w = (.ok u, w')) {answer : KvAnswer} :
    Refines passphrase dek (t ++ [(.delete owner path, .ok answer)]) w' := by
  obtain ⟨-, -, -, -, -, rfl⟩ := KvService.run_delete_eq_ok hrun
  obtain ⟨hsound, -, -, hrows⟩ := Database.deleteRecord_spec h.sound owner path
  refine ⟨h.config, h.memory, hsound, fun u p => ?_, fun u p => ?_⟩
  · show List.Forall₂ _ ((w.db.deleteRecord owner path).2.versionsAt u p) _
    rw [hrows, history_append]
    simp only [recordKv]
    split_ifs
    · exact .nil
    · exact h.holds u p
  · rw [history_append]
    simp only [recordKv]
    split_ifs
    · decide
    · exact h.fits u p

/-- Every operation keeps the refinement. -/
theorem Refines.step (hgcm : GcmCorrect) {passphrase : PyStr} {dek : Key} {t : KvTrace} {w : World} (op : KvOp)
    (h : Refines passphrase dek t w) :
    Refines passphrase dek (t ++ [(op, ((op.exec passphrase).run w).1)]) ((op.exec passphrase).run w).2 := by
  cases op with
  | write owner path data nonce =>
    simp only [KvOp.exec, run_answer]
    rcases hrun : (KvService.write owner path data nonce).run w with ⟨e | a, w'⟩
    · exact h.of_kvPart (KvService.write_failKeeps owner path data nonce w e w' hrun) (history_append _ _)
    · exact h.write hgcm hrun
  | delete owner path =>
    simp only [KvOp.exec, Prog.run_bind]
    rcases hrun : (KvService.delete owner path).run w with ⟨e | u, w'⟩
    · exact h.of_kvPart (KvService.delete_failKeeps owner path w e w' hrun) (history_append _ _)
    · exact h.delete hrun
  | read owner path version =>
    have hkeep := World.kvPart_of_besideLog ((KvService.read_keeps owner path version).run w)
    simp only [KvOp.exec, run_answer]
    rcases hrun : (KvService.read owner path version).run w with ⟨e | a, w'⟩ <;> rw [hrun] at hkeep <;>
      exact h.of_kvPart hkeep (history_append _ _)
  | versions owner path =>
    have hkeep := World.kvPart_of_besideLog ((KvService.versions_keeps owner path).run w)
    simp only [KvOp.exec, run_answer]
    rcases hrun : (KvService.versions owner path).run w with ⟨e | a, w'⟩ <;> rw [hrun] at hkeep <;>
      exact h.of_kvPart hkeep (history_append _ _)
  | lock =>
    simp only [KvOp.exec, run_answer, VaultService.run_lock]
    exact { h.of_kvPart rfl (history_append _ _) with memory := by simp }
  | unlock =>
    obtain ⟨salt, parameters, wrappingKey, wrapped, hconfig, hderive, hopens⟩ := h.config
    simp only [KvOp.exec, run_answer, VaultService.run_unlock_configOf hconfig hderive hopens]
    exact { h.of_kvPart rfl (history_append _ _) with memory := by simp }
  | restart =>
    simp only [KvOp.exec, VaultService.run_restart, Prog.run_bind, Prog.run_pure]
    exact { h.of_kvPart rfl (history_append _ _) with memory := by simp }
  | tick time =>
    simp only [KvOp.exec, Prog.run_bind, Prog.run_change, Prog.run_pure]
    exact h.of_kvPart rfl (history_append _ _)

/-- A vault that has just been initialized, over an empty database. -/
theorem Refines.start (hgcm : GcmCorrect) {environ : PyStr → Option PyStr} {passphrase : PyStr} {coins : VaultService.InitCoins}
    (hinit : ((VaultService.initializeVault passphrase coins).run (.fresh environ)).1.isOk) :
    Refines passphrase coins.dek [] ((VaultService.initializeVault passphrase coins).run (.fresh environ)).2 := by
  rcases hrun : (VaultService.initializeVault passphrase coins).run (.fresh environ) with ⟨e | s, w⟩
  · rw [hrun] at hinit
    cases hinit
  · obtain ⟨-, -, wrappingKey, encrypted, hderive, hlen, henc, rfl⟩ :=
      VaultService.run_initializeVault_eq_ok hrun
    exact ⟨⟨coins.salt, _, wrappingKey, _, rfl, hderive, hgcm.opens hlen henc⟩, by simp, .fresh,
      fun _ _ => .nil, fun u p => by simp [history, Fits]⟩

/-- **The tables hold the history**, after every run. -/
theorem refines_session (hgcm : GcmCorrect) {passphrase : PyStr} {dek : Key} {w : World}
    (h : Refines passphrase dek [] w) (ops : List KvOp) :
    Refines passphrase dek (kvSession passphrase w ops).1 (kvSession passphrase w ops).2 :=
  Prog.session_invariant h (fun _ _ op hs => hs.step hgcm op) ops

/-! ### What is read -/

/-- `json.loads` undoes `json.dumps` on the data. -/
def JsonFaithful (data : Data) : Prop :=
  ∀ text, dumps Platform.dumpsDepth (.obj data) = .ok text → Platform.jsonLoads text = .ok (.obj data)

/-- Data that `json.loads` reads back is read back from its encoding. -/
theorem JsonFaithful.decodeData {data : Data} (h : JsonFaithful data) {plaintext : Bytes}
    (hdata : KvService.encodeData data = .ok plaintext) : KvService.decodeData plaintext = .ok (.obj data) := by
  unfold KvService.encodeData at hdata
  cases htext : dumps Platform.dumpsDepth (.obj data) with
  | error e => simp [htext] at hdata
  | ok text =>
    cases hutf : utf8Encode text with
    | none => simp [htext, hutf] at hdata
    | some b =>
      simp only [htext, hutf, ok_bind] at hdata
      obtain rfl := Except.ok.inj hdata
      simp [KvService.decodeData, utf8Decode_utf8Encode hutf, h text htext]

/-- A row that holds data opens to it. -/
theorem Holds.openRow {dek : Key} {owner path : PyStr} {row : KvVersion} {data : Data}
    (h : Holds dek owner path row data) (hjson : JsonFaithful data) :
    KvService.openRow dek owner path row = .ok (.obj data) := by
  obtain ⟨n, blob, associatedData, plaintext, hn, hblob, haad, hdata, hopens⟩ := h
  have hdec : decryptAesGcm dek blob associatedData = .ok plaintext := hopens
  simp [KvService.openRow, hblob, hn, haad, hdec, hjson.decodeData hdata]

/-- `read` and `versions` answer from the list `W` of an owner's path. -/
structure ReadsHistory (w : World) (owner path : PyStr) (W : List Data) : Prop where
  /-- A read of a version that was written returns its data. -/
  version : ∀ (i : ℕ) (hi : i < W.length), ∃ createdAt,
    (KvService.read owner path (some (i + 1))).run w = (.ok ⟨W[i], i + 1, W.length, createdAt⟩, w)
  /-- A read without a version returns the data written last. -/
  latest : ∀ data, W.getLast? = some data → ∃ createdAt,
    (KvService.read owner path none).run w = (.ok ⟨data, W.length, W.length, createdAt⟩, w)
  /-- There is nothing to read exactly where nothing was written. -/
  notFound : ∀ v : Option ℤ, (∀ n ∈ v, 1 ≤ n ∧ Fits n) →
    (((KvService.read owner path v).run w).1 = .error .recordNotFoundError ↔
      W = [] ∨ ∃ n ∈ v, (W.length : ℤ) < n)
  /-- A version below one is refused. -/
  invalid : ∀ n : ℤ, n < 1 → (KvService.read owner path (some n)).run w = (.error .invalidVersionError, w)
  /-- The listing has the versions in order. -/
  listing : W ≠ [] → ∃ entries, (KvService.versions owner path).run w = (.ok ⟨path, W.length, entries⟩, w) ∧
    entries.map Prod.fst = (List.range W.length).map fun i : ℕ => (i : ℤ) + 1
  /-- There is no listing where nothing was written. -/
  noListing : W = [] → (KvService.versions owner path).run w = (.error .recordNotFoundError, w)

section Reading

variable {passphrase : PyStr} {dek : Key} {t : KvTrace} {w : World} {owner path : PyStr}

/-- The row at a place holds the element of the history at that place. -/
theorem Refines.row (h : Refines passphrase dek t w) {i : ℕ} (hi : i < (history t owner path).length) :
    ∃ row, (w.db.versionsAt owner path)[i]? = some row ∧ Holds dek owner path row (history t owner path)[i] := by
  have hlen := (h.holds owner path).length_eq
  exact ⟨_, List.getElem?_eq_getElem (hlen ▸ hi), (h.holds owner path).get (hlen ▸ hi) hi⟩

/-- Where there is a history there is a record, pointing at the last version. -/
theorem Refines.record (h : Refines passphrase dek t w) (hne : history t owner path ≠ []) :
    ∃ r, w.db.recordAt owner path = some r ∧ r.latestVersion = .int (history t owner path).length := by
  have hlen := (h.holds owner path).length_eq
  cases hr : w.db.recordAt owner path with
  | none =>
    rw [(Database.versionsAt_eq_nil h.sound).mpr hr] at hlen
    exact absurd (List.length_eq_zero_iff.mp hlen.symm) hne
  | some r => exact ⟨r, rfl, hlen ▸ (Database.recordAt_latest h.sound hr).1⟩

theorem Refines.noRecord (h : Refines passphrase dek t w) (hnil : history t owner path = []) :
    w.db.recordAt owner path = none := by
  have hlen := (h.holds owner path).length_eq
  rw [hnil] at hlen
  exact (Database.versionsAt_eq_nil h.sound).mp (List.length_eq_zero_iff.mp hlen)

/-- What the query for a version finds. -/
theorem Refines.selected (h : Refines passphrase dek t w) (i : ℕ) :
    KvService.selected w.db owner path (some (i + 1)) =
      (w.db.recordAt owner path).bind fun r => ((w.db.versionsAt owner path)[i]?).map fun v => (v, r) :=
  Database.selectVersion_eq h.sound i

/-- A version that was written is read. -/
theorem Refines.read_version (h : Refines passphrase dek t w) (hown : extractOwnerEmailFromPath path = .ok owner)
    (howner : Bindable owner) (hpath : Bindable path) (hdek : w.dek = some dek) {i : ℕ}
    (hi : i < (history t owner path).length) (hjson : JsonFaithful (history t owner path)[i]) : ∃ createdAt,
      (KvService.read owner path (some (i + 1))).run w =
        (.ok ⟨(history t owner path)[i], i + 1, (history t owner path).length, createdAt⟩, w) := by
  obtain ⟨row, hrow, hholds⟩ := h.row hi
  obtain ⟨r, hr, hlatest⟩ := h.record (List.ne_nil_of_length_pos (Nat.zero_lt_of_lt hi))
  have hversion : pyInt row.version = .ok ((i : ℤ) + 1) := by
    rw [Database.versionsAt_number h.sound hrow, pyInt_int]
  have hnorm : KvService.normalizeVersion (some ((i : ℤ) + 1)) = .ok (some ((i : ℤ) + 1)) := by
    have hpos : ¬ (i : ℤ) + 1 < 1 := by omega
    simp only [KvService.normalizeVersion, hpos, ↓reduceIte]
  have hsel : KvService.selected w.db owner path (some (i + 1)) = some (row, r) := by
    rw [h.selected, hr, Option.bind_some, hrow]
    rfl
  have hfits : ∀ v ∈ some ((i : ℤ) + 1), Fits v := by
    rintro v ⟨⟩
    have hlen := h.fits owner path
    unfold Fits at hlen ⊢
    omega
  exact ⟨row.createdAt, KvService.run_read_found hown howner hpath hnorm hfits hdek hsel
    (KvService.selected_fetchable h.sound _ hsel) (hholds.openRow hjson)
    hversion (by rw [hlatest, pyInt_int])⟩

/-- Without a version, what was written last is read. -/
theorem Refines.read_latest (h : Refines passphrase dek t w) (hown : extractOwnerEmailFromPath path = .ok owner)
    (howner : Bindable owner) (hpath : Bindable path) (hdek : w.dek = some dek) {data : Data}
    (hlast : (history t owner path).getLast? = some data) (hjson : JsonFaithful data) : ∃ createdAt,
      (KvService.read owner path none).run w =
        (.ok ⟨data, (history t owner path).length, (history t owner path).length, createdAt⟩, w) := by
  rw [List.getLast?_eq_getElem?] at hlast
  obtain ⟨hi, rfl⟩ := List.getElem?_eq_some_iff.mp hlast
  obtain ⟨row, hrow, hholds⟩ := h.row hi
  obtain ⟨r, hr, hlatest⟩ := h.record (List.ne_nil_of_length_pos (Nat.zero_lt_of_lt hi))
  have hlen := (h.holds owner path).length_eq
  have hversion : pyInt row.version = .ok ((history t owner path).length : ℤ) := by
    rw [Database.versionsAt_number h.sound hrow, pyInt_int]
    congr 1
    omega
  have hsel : KvService.selected w.db owner path none = some (row, r) := by
    apply (Database.selectLatest_eq h.sound).trans
    rw [hr, Option.bind_some, List.getLast?_eq_getElem?, hlen, hrow]
    rfl
  exact ⟨row.createdAt, KvService.run_read_found hown howner hpath rfl (by simp) hdek hsel
    (KvService.selected_fetchable h.sound _ hsel) (hholds.openRow hjson)
    hversion (by rw [hlatest, pyInt_int])⟩

/-- A read that finds no row finds nothing. -/
theorem Refines.read_none (h : Refines passphrase dek t w) (hown : extractOwnerEmailFromPath path = .ok owner)
    (howner : Bindable owner) (hpath : Bindable path) (hdek : w.dek = some dek) {v : Option ℤ}
    (hv : ∀ n ∈ v, 1 ≤ n ∧ Fits n)
    (hnone : history t owner path = [] ∨ ∃ n ∈ v, ((history t owner path).length : ℤ) < n) :
    (KvService.read owner path v).run w = (.error .recordNotFoundError, w) := by
  have hnorm : KvService.normalizeVersion v = .ok v := by
    cases v with
    | none => rfl
    | some n =>
      have hpos : ¬ n < 1 := not_lt.mpr (hv n rfl).1
      simp only [KvService.normalizeVersion, hpos, ↓reduceIte]
  refine KvService.run_read_notFound hown howner hpath hnorm (fun n hn => (hv n hn).2) hdek ?_
  rcases hnone with hnil | ⟨n, hn, hlt⟩
  · have hno := h.noRecord hnil
    cases v with
    | none => exact (Database.selectLatest_eq h.sound).trans (by rw [hno]; rfl)
    | some n =>
      obtain ⟨i, rfl⟩ : ∃ i : ℕ, n = i + 1 := ⟨(n - 1).toNat, by have := (hv n rfl).1; omega⟩
      rw [h.selected, hno, Option.bind_none]
  · obtain rfl : v = some n := hn
    obtain ⟨i, rfl⟩ : ∃ i : ℕ, n = i + 1 := ⟨(n - 1).toNat, by have := (hv n rfl).1; omega⟩
    rw [h.selected]
    cases w.db.recordAt owner path with
    | none => rfl
    | some r =>
      have hlen := (h.holds owner path).length_eq
      rw [Option.bind_some, List.getElem?_eq_none (by omega), Option.map_none]

/-- What the listing finds. -/
theorem Refines.selectVersions (h : Refines passphrase dek t w) :
    w.db.selectVersions owner path =
      match w.db.recordAt owner path with
      | none => []
      | some r => (w.db.versionsAt owner path).map fun v => (v, r) :=
  Database.selectVersions_eq h.sound

theorem Refines.versions_some (h : Refines passphrase dek t w) (hown : extractOwnerEmailFromPath path = .ok owner)
    (howner : Bindable owner) (hpath : Bindable path) (hdek : w.dek = some dek)
    (hne : history t owner path ≠ []) : ∃ entries,
      (KvService.versions owner path).run w = (.ok ⟨path, (history t owner path).length, entries⟩, w) ∧
        entries.map Prod.fst = (List.range (history t owner path).length).map fun i : ℕ => (i : ℤ) + 1 := by
  obtain ⟨r, hr, hlatest⟩ := h.record hne
  have hlen := (h.holds owner path).length_eq
  have hrows : w.db.selectVersions owner path = (w.db.versionsAt owner path).map fun v => (v, r) := by
    rw [h.selectVersions, hr]
  have hnumbers : (w.db.selectVersions owner path).map (·.1.version) =
      ((List.range (history t owner path).length).map fun i : ℕ => (i : ℤ) + 1).map .int := by
    rw [hrows, List.map_map, ← hlen]
    exact Database.versionsAt_numbers h.sound
  obtain ⟨entries, hentries, hfst⟩ := KvService.versionEntries_ok _ _ hnumbers
  have hlast : ∃ row, (w.db.selectVersions owner path).getLast? = some (row, r) := by
    rw [hrows, List.getLast?_map]
    have hvs : w.db.versionsAt owner path ≠ [] := by
      intro hnil
      rw [hnil] at hlen
      exact hne (List.length_eq_zero_iff.mp hlen.symm)
    exact ⟨_, by rw [List.getLast?_eq_some_getLast hvs]; rfl⟩
  obtain ⟨row, hlast⟩ := hlast
  exact ⟨entries, KvService.run_versions_found hown howner hpath hdek hlast h.sound.fetchable_selectVersions
    (by rw [hlatest, pyInt_int]) hentries, hfst⟩

/-- **The operations answer from the history** in every state that refines it, while
the vault is unlocked. -/
theorem Refines.reads (h : Refines passphrase dek t w) (hown : extractOwnerEmailFromPath path = .ok owner)
    (howner : Bindable owner) (hpath : Bindable path) (hunlocked : w.dek ≠ none)
    (hjson : ∀ data ∈ history t owner path, JsonFaithful data) : ReadsHistory w owner path (history t owner path) := by
  obtain ⟨k, hk⟩ := Option.ne_none_iff_exists'.mp hunlocked
  obtain rfl := h.memory k hk
  refine ⟨fun i hi => ?_, fun data hlast => ?_, fun v hv => ⟨fun hread => ?_, fun hnone => ?_⟩, fun n hn => ?_,
    fun hne => ?_, fun hnil => ?_⟩
  · exact h.read_version hown howner hpath hk hi (hjson _ (List.getElem_mem hi))
  · exact h.read_latest hown howner hpath hk hlast (hjson _ (List.mem_of_getLast? hlast))
  · by_contra hnot
    simp only [not_or, not_exists, not_and, not_lt] at hnot
    obtain ⟨hne, hle⟩ := hnot
    cases v with
    | none =>
      obtain ⟨data, hlast⟩ := Option.ne_none_iff_exists'.mp (mt List.getLast?_eq_none_iff.mp hne)
      obtain ⟨c, hok⟩ := h.read_latest hown howner hpath hk hlast (hjson _ (List.mem_of_getLast? hlast))
      rw [hok] at hread
      cases hread
    | some n =>
      obtain ⟨i, rfl⟩ : ∃ i : ℕ, n = i + 1 := ⟨(n - 1).toNat, by have := (hv n rfl).1; omega⟩
      have hi : i < (history t owner path).length := by
        have := hle _ rfl
        omega
      obtain ⟨c, hok⟩ := h.read_version hown howner hpath hk hi (hjson _ (List.getElem_mem hi))
      rw [hok] at hread
      cases hread
  · rw [h.read_none hown howner hpath hk hv hnone]
  · exact KvService.run_read_invalid hown hn
  · exact h.versions_some hown howner hpath hk hne
  · apply KvService.run_versions_notFound hown howner hpath hk
    rw [h.selectVersions, h.noRecord hnil]

end Reading

/-- **The key-value history is the write history.** From an empty database and a vault
that has just been initialized, after any run, while the vault is unlocked, the owner
of a path reads the data of the writes since the last delete, numbered from one, and
nothing else. -/
theorem reads_history (hgcm : GcmCorrect) (environ : PyStr → Option PyStr) (passphrase : PyStr)
    (coins : VaultService.InitCoins) (ops : List KvOp) (owner path : PyStr) :
    let start := (VaultService.initializeVault passphrase coins).run (.fresh environ)
    let run := kvSession passphrase start.2 ops
    start.1.isOk → run.2.dek ≠ none → extractOwnerEmailFromPath path = .ok owner → Bindable owner →
      Bindable path →
        (∀ u p data nonce answer, (KvOp.write u p data nonce, Except.ok answer) ∈ run.1 → JsonFaithful data) →
          ReadsHistory run.2 owner path (history run.1 owner path) := by
  intro start run hinit hunlocked hown howner hpath hjson
  refine (refines_session hgcm (Refines.start hgcm hinit) ops).reads hown howner hpath hunlocked fun data hdata => ?_
  obtain ⟨nonce, answer, hmem⟩ := mem_history hdata
  exact hjson owner path data nonce answer hmem

end Runs

/-! ### A run on the sample platform -/

section Sample

attribute [local instance] samplePlatform

/-- The user of the samples. -/
def sampleOwner : PyStr := py "a@b.c"

/-- A path of the user. -/
def samplePath : PyStr := py "secret/a@b.c/x"

/-- A sample run: a write, and a second write after a restart. -/
def sampleOps : List KvOp :=
  [.unlock, .write sampleOwner samplePath [] (sampleNonce 3), .restart, .unlock,
    .write sampleOwner samplePath [(py "a", .null)] (sampleNonce 4)]

/-- The sample data are read back. -/
theorem sampleJsonFaithful {data : Data} (h : data = [] ∨ data = [(py "a", .null)]) : JsonFaithful data := by
  rcases h with rfl | rfl <;>
  · intro text htext
    obtain rfl := Except.ok.inj htext
    rfl

/-- What the sample run writes is read back. -/
theorem sampleOps_jsonFaithful {w : World} {u p : PyStr} {data : Data} {nonce : Nonce} {answer : KvAnswer}
    (hmem : (KvOp.write u p data nonce, Except.ok answer) ∈ (kvSession samplePassphrase w sampleOps).1) :
    JsonFaithful data := by
  have hop : KvOp.write u p data nonce ∈ sampleOps := by
    rw [← Prog.session_map_fst (KvOp.exec samplePassphrase) w sampleOps]
    exact List.mem_map.mpr ⟨_, hmem, rfl⟩
  have hdata : data = [] ∨ data = [(py "a", .null)] := by
    simp only [sampleOps, List.mem_cons, KvOp.write.injEq, reduceCtorEq, List.not_mem_nil, or_false, false_or] at hop
    exact hop.imp (fun h => h.2.2.1) fun h => h.2.2.1
  exact sampleJsonFaithful hdata

/-- The history is read on the sample platform. -/
theorem reads_history_sample :
    ReadsHistory (kvSession samplePassphrase sampleStart.2 sampleOps).2 sampleOwner samplePath
      (history (kvSession samplePassphrase sampleStart.2 sampleOps).1 sampleOwner samplePath) := by
  refine reads_history samplePlatform_gcmCorrect (fun _ => none) samplePassphrase sampleCoins sampleOps sampleOwner
    samplePath (by decide +kernel) (by decide +kernel) (by decide +kernel) (by decide) (by decide) ?_
  exact fun u p data nonce answer hmem => sampleOps_jsonFaithful hmem

/-- A path of the user that has no UTF-8 bytes: it ends in a lone surrogate. -/
def samplePathSurrogate : PyStr := py "secret/a@b.c/" ++ [.surrogate 0]

/-- A run that only unlocks the vault. -/
def sampleUnlocked : KvTrace × World := kvSession samplePassphrase sampleStart.2 [.unlock]

/-- Whether an answer is an error other than `RecordNotFoundError`. -/
def failsOtherwise {α : Type} : Except Exc α → Bool
  | .error e => e ≠ .recordNotFoundError
  | .ok _ => false

/-- A name of ASCII letters that is longer than SQLite takes. -/
def sampleLongName : PyStr := List.replicate maxLength (.scalar 'x')

theorem sampleLongName_spec : sampleLongName ≠ [] ∧ Encodable sampleLongName ∧ utf8Length sampleLongName = maxLength := by
  obtain ⟨n, hn⟩ : ∃ n, n = maxLength := ⟨_, rfl⟩
  have hpos : n ≠ 0 := by rw [hn, maxLength]; omega
  rw [sampleLongName, ← hn]
  refine ⟨fun h => hpos (List.length_replicate.symm.trans (congrArg List.length h)), fun c hc => ?_, ?_⟩
  · rw [List.eq_of_mem_replicate hc]
    rfl
  · rw [utf8Length, List.map_replicate, List.sum_replicate_nat]
    exact Nat.mul_one n

/-- A path of the user with a name that is too long cannot be looked up. -/
theorem read_longPath {name : PyStr} (hname : name ≠ []) (hencodable : Encodable name) (hlength : utf8Length name = maxLength) :
    extractOwnerEmailFromPath (pathBelow sampleOwner name) = .ok sampleOwner ∧
      ((KvService.read sampleOwner (pathBelow sampleOwner name) none).run sampleUnlocked.2).1 = .error .dataError := by
  have hown : extractOwnerEmailFromPath (pathBelow sampleOwner name) = .ok sampleOwner :=
    (extractOwnerEmailFromPath_below (by decide) hname (by decide)).trans (by decide +kernel)
  have hfront : utf8Length (pathPrefix ++ (sampleOwner ++ [.scalar '/'])) = 13 := by decide
  have hpath : pathBelow sampleOwner name = pathPrefix ++ (sampleOwner ++ [.scalar '/']) ++ name := by simp [pathBelow]
  have hbind : bindValue (.str (pathBelow sampleOwner name)) = .error .dataError := by
    have htotal : utf8Length (pathBelow sampleOwner name) = 13 + maxLength := by
      rw [hpath, utf8Length_append, hfront, hlength]
    have hmax : maxLength = 1000000000 := rfl
    have hbytes : Encodable (pathBelow sampleOwner name) := by
      rw [hpath, encodable_append]
      exact ⟨by decide, hencodable⟩
    unfold bindValue
    dsimp only
    rw [if_neg (not_not.mpr hbytes), if_neg (by omega), if_pos (by omega)]
  have hdek : sampleUnlocked.2.dek = some sampleCoins.dek := by decide +kernel
  have howner : bindValue (.str sampleOwner) = .ok () := by decide
  have hparams : bindAll [.str sampleOwner, .str (pathBelow sampleOwner name)] = .error .dataError := by
    rw [bindAll, howner, ok_bind, bindAll, hbind, error_bind]
  refine ⟨hown, ?_⟩
  unfold KvService.read KvRepository.getVersion
  rw [Prog.run_bind_ok (KvService.run_authorize_owner hown _),
    Prog.run_bind_ok (show (Prog.done (KvService.normalizeVersion none)).run sampleUnlocked.2 = (.ok none, _) from rfl),
    Prog.run_bind_ok (run_getDek_eq_ok.mpr ⟨hdek, rfl⟩),
    Prog.run_bind_error (by rw [run_connection, run_query_error hparams])]

/-- Reads of what was never written that do not raise `RecordNotFoundError`: a version
below one is refused before it is looked up, and a path without UTF-8 bytes, or with too
many, cannot be looked up. -/
theorem read_unwritten_sample :
    (sampleStart.1.isOk ∧ sampleUnlocked.2.dek ≠ none) ∧
      (extractOwnerEmailFromPath samplePath = .ok sampleOwner ∧
        history sampleUnlocked.1 sampleOwner samplePath = [] ∧
          failsOtherwise ((KvService.read sampleOwner samplePath (some 0)).run sampleUnlocked.2).1) ∧
      (extractOwnerEmailFromPath samplePathSurrogate = .ok sampleOwner ∧
        history sampleUnlocked.1 sampleOwner samplePathSurrogate = [] ∧
          failsOtherwise ((KvService.read sampleOwner samplePathSurrogate none).run sampleUnlocked.2).1) ∧
      (extractOwnerEmailFromPath (pathBelow sampleOwner sampleLongName) = .ok sampleOwner ∧
        history sampleUnlocked.1 sampleOwner (pathBelow sampleOwner sampleLongName) = [] ∧
          failsOtherwise
            ((KvService.read sampleOwner (pathBelow sampleOwner sampleLongName) none).run sampleUnlocked.2).1) := by
  have hnothing : ∀ path, history sampleUnlocked.1 sampleOwner path = [] := by
    intro path
    have htrace : sampleUnlocked.1.map Prod.fst = [.unlock] := Prog.session_map_fst _ _ _
    obtain ⟨e, hone, hop⟩ := List.map_eq_singleton_iff.mp htrace
    apply List.eq_nil_iff_forall_not_mem.mpr
    intro data hdata
    obtain ⟨nonce, answer, hmem⟩ := mem_history hdata
    rw [hone, List.mem_singleton] at hmem
    rw [← hmem] at hop
    cases hop
  obtain ⟨hname, hencodable, hlength⟩ := sampleLongName_spec
  obtain ⟨hown, hlong⟩ := read_longPath hname hencodable hlength
  refine ⟨⟨by decide +kernel, by decide +kernel⟩, ⟨by decide +kernel, hnothing _, by decide +kernel⟩,
    ⟨by decide +kernel, hnothing _, by decide +kernel⟩, hown, hnothing _, ?_⟩
  rw [hlong]
  rfl

end Sample

end MiniVault
