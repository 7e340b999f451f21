import MiniVault.Services.Separation

/-!
# What a user is answered

The two services answer a user the same in two worlds that are the same for that user.

## The model

* The steps of an operation — looks at the clock, the key in memory and the tables, and
  transactions — are compared with the same steps in the other world.

## What is proved

* `AuditRepository.log_alike` — a refusal is logged in both, or fails to be in both.
* `KvService.write_alike`, … — **every operation on a path acts alike**.
* `TransitService.createKey_alike`, … — **every operation on a key acts alike**.
-/

namespace MiniVault

open Foundations

section Noninterference

variable [Platform] {u : PyStr} {i : Links}

/-! ### Short texts -/

/-- The length of texts that are far from the limit of SQLite. -/
def shortLength : ℕ := 100000000

/-- The text is short. -/
def Short (s : PyStr) : Prop := utf8Length s ≤ shortLength

instance : DecidablePred Short := fun s => inferInstanceAs (Decidable (utf8Length s ≤ shortLength))

omit [Platform] in
theorem Short.recordLength_le {s : PyStr} (h : Short s) : (Value.str s).recordLength ≤ shortLength + 5 := by
  have hle : utf8Length s ≤ shortLength := h
  have hcell := Value.recordLength_str_le (hle.trans (show shortLength ≤ maxLength by decide))
  omega

omit [Platform] in
theorem short_isoformat (time : ℕ) : Short (isoformat time) := by
  have hlength := length_isoformat_le time
  have hle := utf8Length_le (isoformat time)
  unfold Short shortLength
  omega

omit [Platform] in
theorem short_keyName {name : PyStr} (h : keyNamePattern name) : Short name := by
  have hle := utf8Length_le name
  simp only [keyNamePattern, Bool.and_eq_true, decide_eq_true_eq] at h
  unfold Short shortLength
  omega

omit [Platform] in
/-- The row of a denial is short where its texts are, whatever its number. -/
theorem Denial.rowFits {d : Denial} (hrequester : Short d.requester) (htype : Short d.targetType)
    (htarget : Short d.targetIdentifier) {now : PyStr} (hnow : Short now) (db : Database) : d.occurrence.RowFits db now := by
  have hrequester := hrequester.recordLength_le
  have htype := htype.recordLength_le
  have htarget := htarget.recordLength_le
  have hnow := hnow.recordLength_le
  have hnumber := Value.recordLength_int_le (db.auditLogs.rows.length + 1)
  have haction : (Value.str AuditRepository.accessDenied).recordLength ≤ 100 := by decide +kernel
  have hresult : (Value.str (py "DENIED")).recordLength ≤ 100 := by decide +kernel
  have hdigest : (Value.str genesisHash).recordLength ≤ 100 := by decide +kernel
  have hmax : 4 * shortLength + 1000 ≤ maxLength := by decide
  simp only [AuditRepository.Occurrence.RowFits, recordLength, Entry.cells, AuditRepository.Occurrence.entry, occurrence,
    List.cons_append, List.nil_append, List.map_cons, List.map_nil, List.sum_cons, List.sum_nil]
  omega

/-! ### Steps -/

section Steps

variable {α : Type}

theorem now_alike : now.Alike (Related u) (fun _ a b => a = b ∧ ∃ time, a = isoformat time) now i := by
  apply Prog.Alike.look (fun h => h.of_succ)
  intro j n s t _ hR
  have hclock : s.clock = t.clock := congrArg (fun c => c.2.2.2.2.1) hR.tied.common
  rw [hclock]
  exact ⟨rfl, t.clock, rfl⟩

/-- A look at what is common finds the same. -/
theorem look_alike {l : Label} {f : World → Except Exc α} (h : ∀ s t : World, s.common = t.common → f s = f t) :
    (Prog.look l f).Alike (Related u) (fun _ a b => a = b) (Prog.look l f) i := by
  apply Prog.Alike.look (fun h => h.of_succ)
  intro j n s t _ hR
  rw [h s t hR.tied.common]
  exact .done fun a _ => rfl

theorem getDek_alike : getDek.Alike (Related u) (fun _ a b => a = b) getDek i := by
  apply look_alike
  intro s t h
  have hdek : s.dek = t.dek := congrArg Prod.fst h
  rw [hdek]

/-- A change of what is common is the same in both. -/
theorem change_alike {l : Label} {act : World → World} (h : ∀ s t : World, s.common = t.common → (act s).common = (act t).common)
    (hdb : ∀ s, (act s).db = s.db) :
    (Prog.change l act : Act Unit).Alike (Related u) (fun _ a b => a = b) (Prog.change l act) i :=
  Prog.Alike.change (fun _ _ s t _ hR => hR.of_succ.of_db (h s t hR.tied.common) (hdb s) (hdb t)) fun _ => rfl

/-- Without state there is nothing to tell. -/
theorem done_alike {r : Except Exc α} : (Prog.done r : Act α).Alike (Related u) (fun _ a b => a = b) (Prog.done r) i :=
  .done fun _ _ => rfl

theorem mapExc_alike {β : Type} {V : Links → α → β → Prop} {caught : Exc → Bool} {e : Exc} {p : Act α} {q : Act β}
    (h : p.Alike (Related u) V q i) : (mapExc caught e p).Alike (Related u) V (mapExc caught e q) i := by
  refine .handle h fun j x hj => ?_
  split
  · exact .throw _
  · exact .throw _

theorem encryptAesGcm_alike {key plaintext associatedData : Bytes} {nonce : Nonce} :
    (encryptAesGcm key plaintext associatedData nonce).Alike (Related u) (fun _ a b => a = b)
      (encryptAesGcm key plaintext associatedData nonce) i := by
  unfold encryptAesGcm
  refine .ite (fun _ => .throw _) fun _ => .bind done_alike fun j a b _ hab => ?_
  subst hab
  exact .bind (change_alike (fun s t h => h) fun _ => rfl) fun _ _ _ _ _ => .pure rfl

/-- An encryption in the body of a transaction. -/
theorem encryptAesGcm_lockstep {I : World → World → Prop} {key plaintext associatedData : Bytes} {nonce : Nonce}
    (hI : ∀ s t x y, I s t → I { s with sealed := x } { t with sealed := y }) :
    Prog.Lockstep I (encryptAesGcm key plaintext associatedData nonce) (encryptAesGcm key plaintext associatedData nonce)
      fun a b s t => a = b ∧ I s t := by
  unfold encryptAesGcm
  split_ifs
  · exact .throw _
  · refine .bind .done fun a b => .assume (fun s t h => h.1) ?_
    rintro rfl
    exact .bind (.change (Q := fun _ _ s t => I s t) fun s t h => hI s t _ _ h.2.2) fun _ _ => .pure fun s t h => ⟨rfl, h⟩

end Steps

/-! ### The log -/

namespace AuditRepository

omit [Platform] in
/-- A statement fails when its parameters are bound, or when it is run. -/
theorem run_execute_eq_error {α : Type} {params : List Value} {f : Database → Except Exc (α × Database)} {w w' : World}
    {e : Exc} (h : (execute params f).run w = (.error e, w')) : bindAll params = .error e ∨ f w.db = .error e := by
  rw [run_execute] at h
  cases hbind : bindAll params with
  | error x =>
    simp only [hbind, Prod.mk.injEq, Except.error.injEq] at h
    exact .inl (congrArg Except.error h.1)
  | ok a =>
    cases hf : f w.db with
    | error x =>
      simp only [hbind, hf, Prod.mk.injEq, Except.error.injEq] at h
      exact .inr (congrArg Except.error h.1)
    | ok r => simp only [hbind, hf, Prod.mk.injEq, reduceCtorEq, false_and] at h

omit [Platform] in
/-- Binding fails for text without UTF-8 bytes, where the integers fit and the text decodes and is not too long. -/
theorem bindAll_error {vs : List Value} {e : Exc} (hfits : ∀ n, .int n ∈ vs → Fits n)
    (hlength : ∀ s, .str s ∈ vs → utf8Length s ≤ maxLength) (hdecodes : Fetchable vs) (h : bindAll vs = .error e) :
    e = .unicodeEncodeError := by
  induction vs with
  | nil => cases h
  | cons v vs ih =>
    obtain h | ⟨_, -, h⟩ := bind_eq_error h
    · cases v with
      | int n =>
        rw [bindValue_int (hfits n List.mem_cons_self)] at h
        cases h
      | str s =>
        by_cases hs : Encodable s
        · rw [bindValue_str ⟨hs, hlength s List.mem_cons_self⟩] at h
          cases h
        · exact (Except.error.inj ((if_pos hs).symm.trans h)).symm
      | undecodable b => cases (fetchable_cons.mp hdecodes).1
      | _ => cases h
    · exact ih (fun n hn => hfits n (List.mem_cons_of_mem _ hn)) (fun s hs => hlength s (List.mem_cons_of_mem _ hs))
        (fetchable_cons.mp hdecodes).2 h

/-- Hashing an entry fails for text without UTF-8 bytes. -/
theorem computeEntryHash_error {o : Occurrence} {sequence : ℤ} (hfits : Fits sequence) {now : PyStr} {prev : Value} {e : Exc}
    (h : computeEntryHash prev (o.entry sequence now) = .error e) : e = .unicodeEncodeError := by
  have hflat : ∀ ms : List (String × Value), (∀ m ∈ ms, ∃ t, dumpsValue m.2 = .ok t) → ∃ t, dumpsFlat ms = .ok t := by
    intro ms hms
    induction ms with
    | nil => exact ⟨[], rfl⟩
    | cons m ms ih =>
      obtain ⟨t, ht⟩ := hms m List.mem_cons_self
      obtain ⟨ts, hts⟩ := ih fun m hm => hms m (List.mem_cons_of_mem _ hm)
      obtain ⟨k, v⟩ := m
      exact ⟨_, by simp only [dumpsFlat, ht, hts, ok_bind]; rfl⟩
  obtain ⟨text, htext⟩ := hflat (o.entry sequence now).members (by
    simp only [Entry.members, Occurrence.entry, List.mem_cons, List.not_mem_nil, or_false]
    rintro m (rfl | rfl | rfl | rfl | rfl | rfl | rfl)
    · exact ⟨_, rfl⟩
    · exact ⟨_, rfl⟩
    · cases o.requesterEmail <;> exact ⟨_, rfl⟩
    · exact ⟨_, rfl⟩
    · exact ⟨_, intRepr_of_fits hfits⟩
    · exact ⟨_, rfl⟩
    · exact ⟨_, rfl⟩)
  simp only [computeEntryHash, hashMaterial, canonical, htext, Except.map, ok_bind] at h
  split at h
  · rename_i hmaterial
    split at hmaterial
    · cases hmaterial
    · rw [← Except.error.inj h]
      exact (Except.error.inj hmaterial).symm
  · cases h

omit [Platform] in
/-- The only integer of an entry is its number. -/
theorem entry_ints {o : Occurrence} {sequence : ℤ} (hfits : Fits sequence) {now : PyStr} (n : ℤ)
    (hn : .int n ∈ (o.entry sequence now).cells) : Fits n := by
  simp only [Entry.cells, Occurrence.entry, List.mem_cons, List.not_mem_nil, or_false, Value.int.injEq, reduceCtorEq] at hn
  rcases hn with rfl | hn
  · exact hfits
  · cases hr : o.requesterEmail <;> simp [hr] at hn

omit [Platform] in
/-- The cells of an entry decode. -/
theorem entry_fetchable {o : Occurrence} {sequence : ℤ} {now : PyStr} : Fetchable (o.entry sequence now).cells := by
  cases hrequester : o.requesterEmail <;> simp [Entry.cells, Occurrence.entry, hrequester]

/-- **A transaction of `log` that fails**, in a log that is sound and has room for the row, fails for its texts. -/
theorem run_append_error {o : Occurrence} {now h : PyStr} {w w' : World} {e : Exc} (hs : LogSound w.db h) (hroom : HasRoom w.db)
    (hrow : o.RowFits w.db now) (hrun : (append o now).run w = (.error e, w')) : e = .unicodeEncodeError := by
  unfold Occurrence.RowFits at hrow
  obtain ⟨hnext, hprev⟩ := hs.next
  obtain ⟨hfits, id, hid⟩ := hroom
  obtain hrun | ⟨head, _, hquery, hrun⟩ := Prog.run_bind_eq_error.mp hrun
  · rw [run_query hs.fetchable_head, bindAll_nil] at hrun
    cases (Prod.mk.inj hrun).1
  obtain ⟨-, -, rfl, rfl⟩ := run_query_eq_ok.mp hquery
  rw [hnext, hprev] at hrun
  obtain hrun | ⟨sequence, _, hdone, hrun⟩ := Prog.run_bind_eq_error.mp hrun
  · rw [Prog.run_done] at hrun
    cases (Prod.mk.inj hrun).1
  obtain ⟨hsequence, rfl⟩ := Prog.run_done_eq_ok.mp hdone
  obtain rfl := Except.ok.inj hsequence
  obtain hrun | ⟨p, _, hdone, hrun⟩ := Prog.run_bind_eq_error.mp hrun
  · rw [Prog.run_done] at hrun
    exact computeEntryHash_error hfits (Prod.mk.inj hrun).1
  obtain ⟨-, rfl⟩ := Prog.run_done_eq_ok.mp hdone
  obtain hrun | ⟨_, _, -, hrun⟩ := Prog.run_bind_eq_error.mp hrun
  · obtain hbind | hins := run_execute_eq_error hrun
    · exact bindAll_error (entry_ints hfits)
        (fun s hs => (utf8Length_le_recordLength (List.mem_append_left _ hs)).trans hrow) entry_fetchable hbind
    · rw [limitRow, if_pos hrow, insertLog_ok hs rfl hid] at hins
      cases hins
  · obtain hbind | hreplace := run_execute_eq_error hrun
    · have hhead : bindAll [.str headKey] = .ok () := by decide +kernel
      cases hhead.symm.trans hbind
    · cases hreplace

/-- **Logging acts alike** where the row is short enough: it commits where the texts have UTF-8 bytes, whatever the log
holds. -/
theorem log_alike {o : Occurrence} (ho : o.requesterEmail = some u) (hrow : ∀ {now}, Short now → ∀ db, o.RowFits db now) :
    (log o).Alike (Related u) (fun _ _ _ => True) (log o) i := by
  refine .bind now_alike fun j now now' _ hnow => ?_
  obtain ⟨rfl, time, rfl⟩ := hnow
  have hencodable := encodable_isoformat time
  have hrow := hrow (short_isoformat time)
  have hcommon : Keeps World.common (append o (isoformat time)) := (append_keeps o _).aside fun _ => rfl
  refine transaction_alike hcommon hcommon (fun _ _ _ hrun => .inr (run_append_change ho hrun))
    (fun _ _ _ hrun => .inr (run_append_change ho hrun)) fun k n hk s t hR => ?_
  obtain ⟨q, hs, -⟩ := hR.ordered.log
  obtain ⟨q', ht, -⟩ := hR.ordered'.log
  by_cases hoe : o.Encodable
  · obtain ⟨s', hrun⟩ := run_append_ok hs hoe hR.ordered.hasRoom (hrow s.db) hencodable
    obtain ⟨t', hrun'⟩ := run_append_ok ht hoe hR.ordered'.hasRoom (hrow t.db) hencodable
    refine .inl ⟨(), (), s', t', hrun, hrun', k, le_rfl, trivial, ?_⟩
    obtain ⟨-, -, -, id, p, -, rfl⟩ := run_append_eq_ok hs hrun
    obtain ⟨-, -, -, id', p', -, rfl⟩ := run_append_eq_ok ht hrun'
    exact ⟨hR.tied.common, hR.of_succ.tied.records, hR.of_succ.tied.keys⟩
  · rcases hrun : (append o (isoformat time)).run s with ⟨e | a, s'⟩
    · rcases hrun' : (append o (isoformat time)).run t with ⟨e' | b, t'⟩
      · rw [run_append_error hs hR.ordered.hasRoom (hrow s.db) hrun,
          run_append_error ht hR.ordered'.hasRoom (hrow t.db) hrun']
        exact .inr ⟨_, s', t', rfl, rfl⟩
      · exact absurd (run_append_eq_ok ht hrun').1 hoe
    · exact absurd (run_append_eq_ok hs hrun).1 hoe

end AuditRepository

/-! ### The key-value store -/

omit [Platform] in
theorem insertRecord_ok {db : Database} {owner path now : PyStr} {version id : ℤ} (hnone : db.selectRecord owner path = none)
    (hid : db.kvRecords.nextId KvRecord.id = .ok id) : db.insertRecord owner path version now = .ok (id, { db with
      kvRecords := ⟨db.kvRecords.rows ++ [⟨id, .str owner, .str path, .int version, .str now, .str now⟩], id⟩ }) := by
  simp only [Database.insertRecord, hnone, Option.isSome_none, Bool.false_eq_true, ↓reduceIte, hid, ok_bind, pure_eq_ok]

omit [Platform] in
theorem insertKvVersion_of_room {db : Database} {recordId version id : ℤ} {nonce ciphertext tag now : PyStr}
    (hid : db.kvVersions.nextId KvVersion.id = .ok id) : db.insertKvVersion recordId version nonce ciphertext tag now =
      if db.kvVersions.rows.any fun v => v.recordId.sqlEq (.int recordId) && v.version.sqlEq (.int version) then
        .error .integrityError
      else if !db.kvRecords.rows.any fun r => r.id = recordId then .error .integrityError
      else .ok { db with kvVersions := ⟨db.kvVersions.rows ++
        [⟨id, .int recordId, .int version, .str nonce, .str ciphertext, .str tag, .str now⟩], id⟩ } := by
  cases hdup : db.kvVersions.rows.any fun v => v.recordId.sqlEq (.int recordId) && v.version.sqlEq (.int version) <;>
    cases hhead : db.kvRecords.rows.any fun r => r.id = recordId <;>
      simp only [Database.insertKvVersion, hdup, hhead, hid, Bool.false_eq_true, Bool.not_true, Bool.not_false, ↓reduceIte,
        ok_bind, pure_eq_ok, throw_eq_error, error_bind]

namespace KvService

variable {path : PyStr}

/-- The user is let through to a path that is the user's. -/
theorem authorize_alike (hu : Short u) (hpath : Short path) : (authorize u path).Alike (Related u)
    (fun _ _ _ => extractOwnerEmailFromPath path = .ok u) (authorize u path) i := by
  have htype : Short (py "kv_path") := by decide +kernel
  refine .ite (fun _ => .bind (AuditRepository.log_alike rfl
    (Denial.rowFits (d := ⟨u, py "kv_path", path⟩) hu htype hpath)) fun _ _ _ _ _ => .throw _) fun hown => .pure ?_
  rcases hx : extractOwnerEmailFromPath path with e | o
  · simp [hx, Except.toOption] at hown
  · simpa [hx, Except.toOption] using hown

/-- The first half of a write stays in step: the record is the same one, to the user. -/
theorem allocate_lockstep {now : PyStr} {n : ℕ} : Prog.Lockstep (Related u i (n + 1)) (KvRepository.allocate u path now)
    (KvRepository.allocate u path now) fun a b s t => a.2 = b.2 ∧
      ∃ m, i ≤ m ∧ m.1 (.int a.1) (.int b.1) ∧ Tied u m n (n + 1) s t := by
  unfold KvRepository.allocate
  refine .bind (query_lockstep (Q := fun a b s t => Option.Rel (SameRecord i) a b ∧ s.db.selectRecord u path = a ∧
    t.db.selectRecord u path = b ∧ Related u i (n + 1) s t) (fun _ _ _ => rfl)
    (fun s t hR => ⟨hR.ordered.records.fetchable_selectRecord, hR.ordered'.records.fetchable_selectRecord⟩) fun s t hR =>
      ⟨hR.selectRecord path, rfl, rfl, hR⟩) fun record record' => .assume (fun s t h => h.1) fun hrecord => ?_
  cases hrecord with
  | none =>
    refine .bind (execute_lockstep (Q := fun a b s t => ∃ m, i ≤ m ∧ m.1 (.int a) (.int b) ∧ Tied u m n (n + 1) s t)
      (fun _ _ _ => rfl) fun s t h => ?_) fun a b => .pure fun s t h => ⟨rfl, h⟩
    obtain ⟨-, hs, ht, hR⟩ := h
    have hrecords := hR.tied.records
    by_cases hlimit : recordLength [.str u, .str path, .int 1, .str now, .str now] ≤ maxLength
    swap
    · exact .inr ⟨.dataError, if_neg hlimit, if_neg hlimit⟩
    refine .inl ⟨_, _, _, _, limitRow_eq_ok.mpr ⟨hlimit, insertRecord_ok hs hrecords.heads.nextId⟩,
      limitRow_eq_ok.mpr ⟨hlimit, insertRecord_ok ht hrecords.heads'.nextId⟩,
      (fun a b => i.1 a b ∨ (a = .int (s.db.kvRecords.seq + 1) ∧ b = .int (t.db.kvRecords.seq + 1)), i.2),
      ⟨fun a b => .inl, le_rfl⟩, .inr ⟨rfl, rfl⟩, hR.tied.common, ?_, hR.tied.keys.heads_of_succ⟩
    exact @Paired.create _ _ _ _ _ _ _ _ _ _ _ ⟨s.db.kvRecords.seq + 1, .str u, .str path, .int 1, .str now, .str now⟩
      ⟨t.db.kvRecords.seq + 1, .str u, .str path, .int 1, .str now, .str now⟩ hrecords hR.ordered.records.toSound
      hR.ordered'.records.toSound rfl rfl rfl rfl
  | @some r r' hr =>
    rw [KvRecord.eq_of_shown hr.2]
    refine .bind .done fun latest latest' => .assume (fun s t h => h.1) ?_
    rintro rfl
    refine .bind (execute_lockstep (Q := fun _ _ s t => Tied u i n (n + 1) s t) (fun s t h => ?_) fun s t h => ?_)
      fun a b => .pure fun s t h => ⟨rfl, i, le_rfl, hr.1, h⟩
    · obtain ⟨-, -, -, -, -, hR⟩ := h
      obtain ⟨hfits, hfits'⟩ := hR.tied.records.fits hr.1
      simp only [bindAll, bindValue_int hfits, bindValue_int hfits']
    · obtain ⟨-, -, -, -, -, hR⟩ := h
      by_cases hlimit : recordLength [.str u, .str path, .int (latest + 1), r.createdAt, .str now] ≤ maxLength
      swap
      · exact .inr ⟨.dataError, if_neg hlimit, if_neg hlimit⟩
      refine .inl ⟨(), _, (), _, limitRow_eq_ok.mpr ⟨hlimit, rfl⟩, limitRow_eq_ok.mpr ⟨hlimit, rfl⟩, hR.tied.common, ?_,
        hR.tied.keys.heads_of_succ⟩
      rw [updateRecord_table, updateRecord_table]
      refine (hR.tied.records.update hr.1 (f := fun g => { g with latestVersion := .int (latest + 1), updatedAt := .str now })
        (fun _ => rfl) (fun _ => rfl) fun g g' hg => ?_).heads_of_succ
      rw [KvRecord.eq_of_shown hg]
      rfl

/-- The encryption of a write does not depend on the tables. -/
theorem encryptFor_lockstep {I : World → World → Prop} {dek : Key} {plaintext : Bytes} {nonce : Nonce} {version : ℤ}
    (hI : ∀ s t x y, I s t → I { s with sealed := x } { t with sealed := y }) :
    Prog.Lockstep I (encryptFor dek plaintext u path nonce version) (encryptFor dek plaintext u path nonce version)
      fun a b s t => a = b ∧ I s t := by
  unfold encryptFor
  refine .bind .done fun associatedData aad' => .assume (fun s t h => h.1) ?_
  rintro rfl
  refine .bind (encryptAesGcm_lockstep fun s t x y h => ⟨h.1, h.2.1, hI s t x y h.2.2⟩) fun blob blob' =>
    .assume (fun s t h => h.1) ?_
  rintro rfl
  exact .pure fun s t h => ⟨rfl, h.2.2.2⟩

/-- The texts of a blob are short together. -/
def ShortBlob (texts : PyStr × PyStr × PyStr) : Prop :=
  utf8Length texts.1 + utf8Length texts.2.1 + utf8Length texts.2.2 ≤ 2 * shortLength

omit [Platform] in
/-- The row of a version is short where its texts are, whatever its record. -/
theorem ShortBlob.recordLength_le {nonce ciphertext tag now : PyStr} (h : ShortBlob (nonce, ciphertext, tag)) (hnow : Short now)
    (id version : ℤ) : recordLength [.int id, .int version, .str nonce, .str ciphertext, .str tag, .str now] ≤ maxLength := by
  simp only [ShortBlob] at h
  have hmax : 4 * shortLength + 1000 ≤ maxLength := by decide
  have hnow := hnow.recordLength_le
  have hid := Value.recordLength_int_le id
  have hversion := Value.recordLength_int_le version
  have hnonce : (Value.str nonce).recordLength ≤ _ := Value.recordLength_str_le (by omega)
  have hciphertext : (Value.str ciphertext).recordLength ≤ _ := Value.recordLength_str_le (by omega)
  have htag : (Value.str tag).recordLength ≤ _ := Value.recordLength_str_le (by omega)
  simp only [recordLength, List.map_cons, List.map_nil, List.sum_cons, List.sum_nil]
  omega

/-- What an encryption writes is short where the ciphertext is. -/
theorem run_encryptFor_short {dek : Key} {plaintext : Bytes} {nonce : Nonce} {version : ℤ} {texts : PyStr × PyStr × PyStr}
    {w w' : World} (hshort : ∀ associatedData encrypted,
      Platform.aesGcmEncrypt dek nonce plaintext associatedData = .ok encrypted → encrypted.length ≤ shortLength)
    (h : (encryptFor dek plaintext u path nonce version).run w = (.ok texts, w')) :
    ShortBlob texts := by
  obtain ⟨n, c, t⟩ := texts
  obtain ⟨associatedData, encrypted, -, henc, rfl, rfl, rfl, -⟩ := run_encryptFor_eq_ok.mp h
  have hlength := hshort associatedData encrypted henc
  have hnonce : nonce.1.length = 12 := nonce.2
  unfold ShortBlob shortLength at *
  simp only [utf8Length_encodeB64, EncryptedBlob.split, List.length_take, List.length_drop, hnonce]
  omega

omit [Platform] in
/-- The insert of a version stays in step. -/
theorem insertKvVersion_lockstep {a b version : ℤ} {nonce ciphertext tag now : PyStr} {n : ℕ} (hab : i.1 (.int a) (.int b))
    (hshort : ShortBlob (nonce, ciphertext, tag)) (hnow : Short now) :
    Prog.Lockstep (Tied u i n (n + 1))
      (execute [.int a, .int version, .str nonce, .str ciphertext, .str tag, .str now] <|
        limitRow [.int a, .int version, .str nonce, .str ciphertext, .str tag, .str now] fun db =>
          (db.insertKvVersion a version nonce ciphertext tag now).map fun db => ((), db))
      (execute [.int b, .int version, .str nonce, .str ciphertext, .str tag, .str now] <|
        limitRow [.int b, .int version, .str nonce, .str ciphertext, .str tag, .str now] fun db =>
          (db.insertKvVersion b version nonce ciphertext tag now).map fun db => ((), db))
      fun _ _ s t => Tied u i n n s t := by
  refine execute_lockstep (fun s t h => ?_) fun s t h => ?_
  · obtain ⟨hfits, hfits'⟩ := h.records.fits hab
    simp only [bindAll, bindValue_int hfits, bindValue_int hfits']
  · have hdup : (s.db.kvVersions.rows.any fun v => v.recordId.sqlEq (.int a) && v.version.sqlEq (.int version)) =
        t.db.kvVersions.rows.any fun v => v.recordId.sqlEq (.int b) && v.version.sqlEq (.int version) := by
      have hfind := h.records.twins.find_version hab (p := fun v => v.version.sqlEq (.int version))
        (q := fun v => v.version.sqlEq (.int version)) fun _ => rfl
      have hsome := congrArg Option.isSome hfind
      simp only [Option.isSome_map, List.isSome_find?] at hsome
      simp only [Value.sqlEq_int] at hsome ⊢
      exact hsome
    have hhead : (s.db.kvRecords.rows.any fun r => r.id = a) = t.db.kvRecords.rows.any fun r => r.id = b := by
      have hexists := h.records.twins.exists_head hab
      rw [Bool.eq_iff_iff]
      simpa [kvLayout, kvTables] using hexists
    rw [limitRow, limitRow, if_pos (hshort.recordLength_le hnow a version), if_pos (hshort.recordLength_le hnow b version),
      insertKvVersion_of_room h.records.versions.nextId, insertKvVersion_of_room h.records.versions'.nextId, hdup, hhead]
    split_ifs
    · exact .inr ⟨_, rfl, rfl⟩
    · exact .inr ⟨_, rfl, rfl⟩
    · exact .inl ⟨(), _, (), _, rfl, rfl, h.common, @Paired.insert _ _ _ _ _ _ _ _ _ _ _
        (KvVersion.mk _ (.int a) (.int version) (.str nonce) (.str ciphertext) (.str tag) (.str now))
        (KvVersion.mk _ (.int b) (.int version) (.str nonce) (.str ciphertext) (.str tag) (.str now)) h.records hab rfl rfl rfl,
        h.keys.versions_of_succ⟩

/-- **The transaction of a write stays in step.** -/
theorem appendBody_lockstep {dek : Key} {plaintext : Bytes} {nonce : Nonce} {now : PyStr} {n : ℕ} (hnow : Short now)
    (hshort : ∀ associatedData encrypted, Platform.aesGcmEncrypt dek nonce plaintext associatedData = .ok encrypted →
      encrypted.length ≤ shortLength) :
    Prog.Lockstep (Related u i (n + 1)) (appendBody u path now (encryptFor dek plaintext u path nonce))
      (appendBody u path now (encryptFor dek plaintext u path nonce))
      fun a b s t => ∃ m, i ≤ m ∧ a = b ∧ Tied u m n n s t := by
  refine .bind allocate_lockstep fun ⟨id, version, createdAt⟩ ⟨id', version', createdAt'⟩ =>
    .assume (fun s t h => h.1) fun heq => ?_
  obtain ⟨rfl, rfl⟩ := Prod.mk.inj heq
  refine (Prog.Lockstep.ofExists fun m => ?_).mono (fun s t h => h.2) fun _ _ _ _ h => h
  have hencrypt : Prog.Lockstep (fun s t => i ≤ m ∧ m.1 (.int id) (.int id') ∧ Tied u m n (n + 1) s t)
      (encryptFor dek plaintext u path nonce version) (encryptFor dek plaintext u path nonce version) _ :=
    encryptFor_lockstep fun s t x y h => ⟨h.1, h.2.1, h.2.2.sealed x y⟩
  refine (hencrypt.returns fun _ _ _ hrun => run_encryptFor_short hshort hrun).bind fun ⟨b, c, g⟩ ⟨b', c', g'⟩ =>
    .assume (P := ShortBlob (b, c, g) ∧ (b, c, g) = (b', c', g') ∧ i ≤ m ∧ m.1 (.int id) (.int id'))
      (fun s t h => ⟨h.1, h.2.1, h.2.2.1, h.2.2.2.1⟩) fun ⟨hblob, heq, him, hab⟩ => ?_
  obtain ⟨rfl, hcg⟩ := Prod.mk.inj heq
  obtain ⟨rfl, rfl⟩ := Prod.mk.inj hcg
  exact .bind ((insertKvVersion_lockstep hab hblob hnow).mono (fun s t h => h.2.2.2.2) fun _ _ _ _ h => h) fun _ _ =>
    .pure fun s t h => ⟨m, him, rfl, h⟩

/-- What a write encrypts its data to is short. -/
def ShortData (data : List (PyStr × Json)) (nonce : Nonce) : Prop :=
  ∀ (dek : Key) plaintext associatedData encrypted, encodeData data = .ok plaintext →
    Platform.aesGcmEncrypt dek nonce plaintext associatedData = .ok encrypted → encrypted.length ≤ shortLength

theorem write_alike (hu : Short u) (hpath : Short path) {data : List (PyStr × Json)} {nonce : Nonce}
    (hdata : ShortData data nonce) :
    (write u path data nonce).Alike (Related u) (fun _ a b => a = b) (write u path data nonce) i := by
  refine .bind (authorize_alike hu hpath) fun _ _ _ _ hown => .bind getDek_alike fun _ _ _ _ _ =>
    .bind (V := fun _ a b => a = b ∧ encodeData data = .ok a) (.done fun a ha => ⟨rfl, ha⟩)
      fun _ plaintext plaintext' _ hplaintext => .bind getDek_alike fun _ dek dek' _ hdek => ?_
  obtain ⟨rfl, hencode⟩ := hplaintext
  subst hdek
  rw [appendVersion_eq]
  refine .bind now_alike fun _ now now' _ hnow => ?_
  obtain ⟨rfl, hnow⟩ := hnow
  have hnow : Short now := by
    obtain ⟨time, rfl⟩ := hnow
    exact short_isoformat time
  have hencrypt : ∀ {γ : Type} {f : World → γ}, (∀ (w : World) sealed, f { w with sealed := sealed } = f w) → ∀ v,
      Keeps f (encryptFor dek plaintext u path nonce v) := fun hf v => encryptFor_keeps hf dek plaintext u path nonce v
  have hcommon : Keeps World.common (appendBody u path now (encryptFor dek plaintext u path nonce)) :=
    appendBody_keeps (hencrypt fun _ _ => rfl) fun _ _ => rfl
  have hchange : ∀ w a w', (appendBody u path now (encryptFor dek plaintext u path nonce)).run w = (.ok a, w') →
      w'.db.besideAccounts = w.db.besideAccounts ∨ Change u w.db w'.db :=
    fun w a w' hrun => .inr (run_appendBody_change (hencrypt fun _ _ => rfl) hown hrun)
  exact transaction_alike hcommon hcommon hchange hchange fun _ _ _ =>
    appendBody_lockstep hnow fun associatedData encrypted => hdata dek plaintext associatedData encrypted hencode

/-- **What a read finds** is the same, but for identifiers. -/
theorem getVersion_alike (path : PyStr) (version : Option ℤ) : (KvRepository.getVersion u path version).Alike (Related u)
    (fun _ a b => a.map shownPair = b.map shownPair) (KvRepository.getVersion u path version) i := by
  cases version with
  | none =>
    exact query_alike (fun h => h.records.fetchable_selectLatest) (fun h => h.records.fetchable_selectLatest) fun j n s t _ hR =>
      ⟨rfl, find?_shown (hR.joinRecord path) (r := fun x => x.1.version.sqlEq x.2.latestVersion) (fun _ => rfl) fun _ => rfl⟩
  | some v =>
    exact query_alike (fun h => h.records.fetchable_selectVersion) (fun h => h.records.fetchable_selectVersion)
      fun j n s t _ hR => ⟨rfl, find?_shown (hR.joinRecord path) (r := fun x => x.1.version.sqlEq (.int v))
      (fun _ => rfl) fun _ => rfl⟩

omit [Platform] in
/-- A version that shows the same differs in its identifiers. -/
theorem eq_of_shown {v v' : KvVersion} (h : v.shown = v'.shown) : v' = { v with id := v'.id, recordId := v'.recordId } := by
  cases v
  cases v'
  simp only [KvVersion.shown, KvVersion.mk.injEq, true_and] at h ⊢
  exact ⟨h.1.symm, h.2.1.symm, h.2.2.1.symm, h.2.2.2.1.symm, h.2.2.2.2.symm⟩

omit [Platform] in
theorem pair_eq_of_shown {v v' : KvVersion} {r r' : KvRecord} (h : shownPair (v, r) = shownPair (v', r')) :
    v' = { v with id := v'.id, recordId := v'.recordId } ∧ r' = { r with id := r'.id } :=
  ⟨eq_of_shown (Prod.mk.inj h).1, KvRecord.eq_of_shown (Prod.mk.inj h).2⟩

theorem read_alike (hu : Short u) (hpath : Short path) (version : Option ℤ) :
    (read u path version).Alike (Related u) (fun _ a b => a = b) (read u path version) i := by
  refine .bind (authorize_alike hu hpath) fun _ _ _ _ _ => .bind done_alike fun _ requested requested' _ hrequested => ?_
  subst hrequested
  refine .bind getDek_alike fun _ _ _ _ _ => .bind (getVersion_alike path requested) fun j found found' _ hfound => ?_
  rcases found with - | ⟨row, record⟩ <;> rcases found' with - | ⟨row', record'⟩
  · exact .throw _
  · cases hfound
  · cases hfound
  · obtain ⟨hrow, hrecord⟩ := pair_eq_of_shown (Option.some.inj hfound)
    rw [hrow, hrecord]
    refine .bind (mapExc_alike (V := fun _ a b => a = b) (.bind getDek_alike fun _ dek dek' _ hdek => ?_))
      fun _ decoded decoded' _ hdecoded => ?_
    · subst hdek
      exact done_alike
    · subst hdecoded
      cases decoded with
      | obj data =>
        refine .bind done_alike fun _ version version' _ hversion => .bind done_alike fun _ latest latest' _ hlatest => ?_
        subst hversion hlatest
        exact .pure rfl
      | _ => exact .throw _

omit [Platform] in
/-- The entries of a listing show no identifiers. -/
theorem versionEntries_shown [Platform] {rows rows' : List (KvVersion × KvRecord)} (h : rows.map shownPair = rows'.map shownPair) :
    versionEntries rows = versionEntries rows' := by
  induction rows generalizing rows' with
  | nil => rw [List.map_eq_nil_iff.mp h.symm]
  | cons x xs ih =>
    cases rows' with
    | nil => cases h
    | cons y ys =>
      obtain ⟨hxy, hrest⟩ := List.cons.inj h
      obtain ⟨row, record⟩ := x
      obtain ⟨row', record'⟩ := y
      rw [(pair_eq_of_shown hxy).1]
      simp only [versionEntries, ih hrest]

theorem versions_alike (hu : Short u) (hpath : Short path) :
    (versions u path).Alike (Related u) (fun _ a b => a = b) (versions u path) i := by
  refine .bind (authorize_alike hu hpath) fun _ _ _ _ _ => .bind getDek_alike fun _ _ _ _ _ =>
    .bind (query_alike (V := fun _ a b => a.map shownPair = b.map shownPair)
      (fun h => h.records.fetchable_selectVersions) (fun h => h.records.fetchable_selectVersions) fun j n s t _ hR =>
      ⟨rfl, insertionSort_shown (hR.joinRecord path) (s := fun x y => x.1.version.le y.1.version) fun _ _ => Iff.rfl⟩)
      fun j rows rows' _ hrows => ?_
  have hlast : rows.getLast?.map shownPair = rows'.getLast?.map shownPair := by
    rw [← List.getLast?_map, ← List.getLast?_map, hrows]
  have hentries : versionEntries rows = versionEntries rows' := versionEntries_shown hrows
  revert hlast
  cases rows.getLast? <;> cases rows'.getLast? <;> intro hlast
  · exact .throw _
  · cases hlast
  · cases hlast
  · rename_i x y
    obtain ⟨row, record⟩ := x
    obtain ⟨row', record'⟩ := y
    rw [(pair_eq_of_shown (Option.some.inj hlast)).2, hentries]
    refine .bind done_alike fun _ latest latest' _ hlatest => .bind done_alike fun _ entries entries' _ hentries => ?_
    subst hlatest hentries
    exact .pure rfl

/-- **The transaction of a deletion stays in step.** -/
theorem deleteBody_lockstep {n : ℕ} : Prog.Lockstep (Related u i (n + 1))
    (execute [.str u, .str path] (fun db => .ok (db.deleteRecord u path)) >>= fun rowcount =>
      pure (decide (rowcount > 0)) : Act Bool)
    (execute [.str u, .str path] (fun db => .ok (db.deleteRecord u path)) >>= fun rowcount => pure (decide (rowcount > 0)))
    fun a b s t => ∃ m, i ≤ m ∧ a = b ∧ Tied u m n n s t := by
  refine .bind (execute_lockstep (Q := fun a b s t => a = b ∧ Tied u i n n s t) (fun _ _ _ => rfl) fun s t hR => .inl ?_)
    fun a b => .assume (fun s t h => h.1) fun hab => .pure fun s t h => ⟨i, le_rfl, by rw [hab], h.2⟩
  refine ⟨(s.db.deleteRecord u path).1, (s.db.deleteRecord u path).2, (t.db.deleteRecord u path).1,
    (t.db.deleteRecord u path).2, rfl, rfl, ?_, hR.tied.common, ?_, hR.tied.keys.of_succ⟩
  · have hcount := hR.tied.records.twins.count kvLayout.key_eq (k := (.str u, .str path)) rfl
    simp only [Database.deleteRecord, Database.key_predicate]
    exact hcount
  · show Paired kvLayout u i.1 n n (s.db.deleteRecord u path).2.kvRecords (s.db.deleteRecord u path).2.kvVersions
      (t.db.deleteRecord u path).2.kvRecords (t.db.deleteRecord u path).2.kvVersions
    rw [(deleteRecord_tables s.db u path).1, (deleteRecord_tables s.db u path).2, (deleteRecord_tables t.db u path).1,
      (deleteRecord_tables t.db u path).2]
    exact hR.tied.records.of_succ.drop rfl

theorem delete_alike (hu : Short u) (hpath : Short path) :
    (delete u path).Alike (Related u) (fun _ a b => a = b) (delete u path) i := by
  have hcommon : Keeps World.common (execute [.str u, .str path] (fun db => .ok (db.deleteRecord u path)) >>= fun rowcount =>
      pure (decide (rowcount > 0)) : Act Bool) := .bind (.execute fun _ _ _ _ => rfl) fun _ => .pure _
  refine .bind (authorize_alike hu hpath) fun _ _ _ _ _ => .bind getDek_alike fun _ _ _ _ _ =>
    .bind (transaction_alike (V := fun _ a b => a = b) hcommon hcommon (fun _ _ _ hrun => .inr (run_deleteBody_change hrun))
      (fun _ _ _ hrun => .inr (run_deleteBody_change hrun)) fun _ _ _ => deleteBody_lockstep) fun _ deleted deleted' _ h => ?_
  subst h
  exact .ite (fun _ => .throw _) fun _ => .pure rfl

end KvService

/-! ### The named keys -/

omit [Platform] in
theorem insertKey_of_room {db : Database} {owner name usage now : PyStr} {algorithm : Value} {id : ℤ}
    (hid : db.namedKeys.nextId NamedKey.id = .ok id) : db.insertKey owner name usage algorithm now =
      if (db.selectKey owner name).isSome then .error .integrityError else .ok (id, { db with namedKeys :=
        ⟨db.namedKeys.rows ++ [NamedKeyRepository.newKey id owner name usage algorithm now], id⟩ }) := by
  cases hfound : (db.selectKey owner name).isSome <;>
    simp only [Database.insertKey, hfound, hid, Bool.false_eq_true, ↓reduceIte, ok_bind, pure_eq_ok, throw_eq_error, error_bind,
      NamedKeyRepository.newKey]

omit [Platform] in
theorem insertKeyVersion_of_room {db : Database} {keyId version id : ℤ} {nonce material tag now : PyStr} {publicKey : Value}
    (hid : db.namedKeyVersions.nextId NamedKeyVersion.id = .ok id) :
    db.insertKeyVersion keyId version nonce material tag publicKey now =
      if db.namedKeyVersions.rows.any fun v => v.keyId.sqlEq (.int keyId) && v.version.sqlEq (.int version) then
        .error .integrityError
      else if !db.namedKeys.rows.any fun r => r.id = keyId then .error .integrityError
      else .ok { db with namedKeyVersions := ⟨db.namedKeyVersions.rows ++
        [⟨id, .int keyId, .int version, .str nonce, .str material, .str tag, publicKey, .str now⟩], id⟩ } := by
  cases hdup : db.namedKeyVersions.rows.any fun v => v.keyId.sqlEq (.int keyId) && v.version.sqlEq (.int version) <;>
    cases hhead : db.namedKeys.rows.any fun r => r.id = keyId <;>
      simp only [Database.insertKeyVersion, hdup, hhead, hid, Bool.false_eq_true, Bool.not_true, Bool.not_false, ↓reduceIte,
        ok_bind, pure_eq_ok, throw_eq_error, error_bind]

namespace TransitService

variable {name : PyStr} {kind : KeyKind} {coins : KeyCoins} {r r' : NamedKey} {v v' : NamedKeyVersion}

/-! #### The transactions -/

/-- The wrapping of a material does not depend on the tables. -/
theorem wrapFor_lockstep {I : World → World → Prop} {version : ℤ} (hcommon : ∀ s t, I s t → s.common = t.common)
    (hI : ∀ s t x y, I s t → I { s with sealed := x } { t with sealed := y }) :
    Prog.Lockstep I ((wrapFor kind u name coins).wrap version) ((wrapFor kind u name coins).wrap version)
      fun a b s t => a = b ∧ I s t := by
  have hdek : Prog.Lockstep I getDek getDek fun a b s t => a = b ∧ I s t := by
    intro s t h
    have hsame : s.dek = t.dek := congrArg Prod.fst (hcommon s t h)
    rw [run_getDek, run_getDek, hsame]
    cases t.dek with
    | none => exact .inr ⟨_, s, t, rfl, rfl⟩
    | some k => exact .inl ⟨k, k, s, t, rfl, rfl, rfl, h⟩
  refine hdek.bind fun dek dek' => .assume (fun s t h => h.1) ?_
  rintro rfl
  refine .bind .done fun associatedData aad' => .assume (fun s t h => h.1) ?_
  rintro rfl
  refine .bind (encryptAesGcm_lockstep fun s t x y h => ⟨h.1, h.2.1, h.2.2.1, hI s t x y h.2.2.2⟩) fun blob blob' =>
    .assume (fun s t h => h.1) ?_
  rintro rfl
  exact .pure fun s t h => ⟨rfl, h.2.2.2.2⟩

/-- The insert of a version stays in step. -/
theorem insertVersion_lockstep {a b version : ℤ} {now : PyStr} {n : ℕ} (hab : i.2 (.int a) (.int b)) :
    Prog.Lockstep (Tied u i n (n + 1)) (NamedKeyRepository.insertVersion a version (wrapFor kind u name coins) now)
      (NamedKeyRepository.insertVersion b version (wrapFor kind u name coins) now) fun _ _ s t => Tied u i n n s t := by
  refine .bind (wrapFor_lockstep (fun _ _ h => h.common) fun _ _ x y h => h.sealed x y) fun wrapped wrapped' =>
    .assume (fun s t h => h.1) ?_
  rintro rfl
  refine execute_lockstep (fun s t h => ?_) fun s t h => ?_
  · obtain ⟨hfits, hfits'⟩ := h.2.keys.fits hab
    simp only [bindAll, bindValue_int hfits, bindValue_int hfits']
  · have hkeys := h.2.keys
    have hdup : (s.db.namedKeyVersions.rows.any fun v => v.keyId.sqlEq (.int a) && v.version.sqlEq (.int version)) =
        t.db.namedKeyVersions.rows.any fun v => v.keyId.sqlEq (.int b) && v.version.sqlEq (.int version) := by
      have hfind := hkeys.twins.find_version hab (p := fun v => v.version.sqlEq (.int version))
        (q := fun v => v.version.sqlEq (.int version)) fun _ => rfl
      have hsome := congrArg Option.isSome hfind
      simp only [Option.isSome_map, List.isSome_find?] at hsome
      simp only [Value.sqlEq_int] at hsome ⊢
      exact hsome
    have hhead : (s.db.namedKeys.rows.any fun r => r.id = a) = t.db.namedKeys.rows.any fun r => r.id = b := by
      have hexists := hkeys.twins.exists_head hab
      rw [Bool.eq_iff_iff]
      simpa [keyLayout, keyTables] using hexists
    rw [insertKeyVersion_of_room hkeys.versions.nextId, insertKeyVersion_of_room hkeys.versions'.nextId, hdup, hhead]
    split_ifs
    · exact .inr ⟨_, rfl, rfl⟩
    · exact .inr ⟨_, rfl, rfl⟩
    · exact .inl ⟨(), _, (), _, rfl, rfl, h.2.common, h.2.records.versions_of_succ, @Paired.insert _ _ _ _ _ _ _ _ _ _ _
        (NamedKeyVersion.mk _ (.int a) (.int version) (.str wrapped.nonceB64) (.str wrapped.materialB64)
          (.str wrapped.tagB64) wrapped.publicKeyB64 (.str now))
        (NamedKeyVersion.mk _ (.int b) (.int version) (.str wrapped.nonceB64) (.str wrapped.materialB64)
          (.str wrapped.tagB64) wrapped.publicKeyB64 (.str now)) hkeys hab rfl rfl rfl⟩

/-- **The transaction that makes a key stays in step.** -/
theorem createBody_lockstep {now : PyStr} {n : ℕ} : Prog.Lockstep (Related u i (n + 1))
    (NamedKeyRepository.createBody u name kind.usage kind.algorithm (wrapFor kind u name coins) now)
    (NamedKeyRepository.createBody u name kind.usage kind.algorithm (wrapFor kind u name coins) now)
    fun _ _ s t => ∃ m, i ≤ m ∧ True ∧ Tied u m n n s t := by
  refine .bind (execute_lockstep (Q := fun a b s t => ∃ m, i ≤ m ∧ m.2 (.int a) (.int b) ∧ Tied u m n (n + 1) s t)
    (fun _ _ _ => rfl) fun s t hR => ?_) fun a b => .ofExists fun m => .assume (P := i ≤ m ∧ m.2 (.int a) (.int b))
      (fun s t h => ⟨h.1, h.2.1⟩) fun hm => ((insertVersion_lockstep hm.2).mono (fun s t h => h.2.2)
        fun _ _ s t h => ⟨m, hm.1, trivial, h⟩)
  have hkeys := hR.tied.keys
  have hfound : (s.db.selectKey u name).isSome = (t.db.selectKey u name).isSome := by
    have hrel := hR.selectKey name
    revert hrel
    cases s.db.selectKey u name <;> cases t.db.selectKey u name <;> intro hrel <;> first | rfl | cases hrel
  rw [insertKey_of_room hkeys.heads.nextId, insertKey_of_room hkeys.heads'.nextId, hfound]
  split_ifs
  · exact .inr ⟨_, rfl, rfl⟩
  · refine .inl ⟨_, _, _, _, rfl, rfl,
      (i.1, fun a b => i.2 a b ∨ (a = .int (s.db.namedKeys.seq + 1) ∧ b = .int (t.db.namedKeys.seq + 1))),
      ⟨le_rfl, fun a b => .inl⟩, .inr ⟨rfl, rfl⟩, hR.tied.common, hR.tied.records.heads_of_succ, ?_⟩
    exact @Paired.create _ _ _ _ _ _ _ _ _ _ _
      (NamedKeyRepository.newKey (s.db.namedKeys.seq + 1) u name kind.usage kind.algorithm now)
      (NamedKeyRepository.newKey (t.db.namedKeys.seq + 1) u name kind.usage kind.algorithm now) hkeys
      hR.ordered.keys.sound.toSound hR.ordered'.keys.sound.toSound rfl rfl rfl rfl

/-- **The transaction that rotates a key stays in step.** -/
theorem rotateBody_lockstep {now : PyStr} {n : ℕ} : Prog.Lockstep (Related u i (n + 1))
    (NamedKeyRepository.rotateBody u name (wrapFor kind u name coins) now)
    (NamedKeyRepository.rotateBody u name (wrapFor kind u name coins) now)
    fun a b s t => ∃ m, i ≤ m ∧ a = b ∧ Tied u m n n s t := by
  refine .bind (query_lockstep (Q := fun a b s t => Option.Rel (SameKey i) a b ∧ Related u i (n + 1) s t) (fun _ _ _ => rfl)
    (fun s t hR => ⟨hR.ordered.keys.sound.fetchable_pointer, hR.ordered'.keys.sound.fetchable_pointer⟩)
    fun s t hR => ⟨hR.selectKey name, hR⟩) fun row row' => .assume (fun s t h => h.1) fun hrow => ?_
  cases hrow with
  | none => exact .pure fun s t h => ⟨i, le_rfl, rfl, h.2.of_succ.tied⟩
  | @some r r' hr =>
    rw [NamedKey.eq_of_shown hr.2]
    refine .bind .done fun latest latest' => .assume (fun s t h => h.1) ?_
    rintro rfl
    refine .bind ((insertVersion_lockstep (n := n) hr.1).mono (fun s t h => ?_) fun _ _ _ _ h => h) fun _ _ =>
      .bind (execute_lockstep (Q := fun _ _ s t => Tied u i n n s t) (fun s t h => ?_) fun s t h => .inl ?_) fun _ _ =>
        .pure fun s t h => ⟨i, le_rfl, rfl, h⟩
    · obtain ⟨-, -, -, hR⟩ := h
      exact ⟨hR.tied.common, hR.tied.records.heads_of_succ, hR.tied.keys.heads_of_succ⟩
    · obtain ⟨hfits, hfits'⟩ := h.keys.fits hr.1
      simp only [bindAll, bindValue_int hfits, bindValue_int hfits']
    · refine ⟨(), _, (), _, rfl, rfl, h.common, h.records, ?_⟩
      rw [updateKey_table, updateKey_table]
      apply h.keys.update hr.1 (f := Database.pointKey (latest + 1) now) (fun _ => rfl) (fun _ => rfl)
      intro g g' hg
      rw [NamedKey.eq_of_shown hg]
      rfl

/-- **The transaction that revokes a key stays in step.** -/
theorem deleteBody_lockstep {n : ℕ} : Prog.Lockstep (Related u i (n + 1))
    (execute [.str u, .str name] (fun db => .ok (db.deleteKey u name)) >>= fun rowcount => pure (decide (rowcount > 0)) : Act Bool)
    (execute [.str u, .str name] (fun db => .ok (db.deleteKey u name)) >>= fun rowcount => pure (decide (rowcount > 0)))
    fun a b s t => ∃ m, i ≤ m ∧ a = b ∧ Tied u m n n s t := by
  refine .bind (execute_lockstep (Q := fun a b s t => a = b ∧ Tied u i n n s t) (fun _ _ _ => rfl) fun s t hR => .inl ?_)
    fun a b => .assume (fun s t h => h.1) fun hab => .pure fun s t h => ⟨i, le_rfl, by rw [hab], h.2⟩
  refine ⟨(s.db.deleteKey u name).1, (s.db.deleteKey u name).2, (t.db.deleteKey u name).1, (t.db.deleteKey u name).2, rfl, rfl,
    ?_, hR.tied.common, hR.tied.records.of_succ, ?_⟩
  · have hcount := hR.tied.keys.twins.count keyLayout.key_eq (k := (.str u, .str name)) rfl
    simp only [Database.deleteKey, Database.namedKey_predicate]
    exact hcount
  · show Paired keyLayout u i.2 n n (s.db.deleteKey u name).2.namedKeys (s.db.deleteKey u name).2.namedKeyVersions
      (t.db.deleteKey u name).2.namedKeys (t.db.deleteKey u name).2.namedKeyVersions
    rw [(deleteKey_tables s.db u name).1, (deleteKey_tables s.db u name).2, (deleteKey_tables t.db u name).1,
      (deleteKey_tables t.db u name).2]
    exact hR.tied.keys.of_succ.drop rfl

/-! #### The operations -/

/-- What follows the check of a name. -/
theorem named_alike {α : Type} {V : Links → α → α → Prop} {k : Unit → Act α}
    (h : keyNamePattern name → (k ()).Alike (Related u) V (k ()) i) :
    (validateKeyName name >>= k).Alike (Related u) V (validateKeyName name >>= k) i := by
  unfold validateKeyName
  split_ifs with hname
  · exact h hname
  · exact .throw _

theorem ownedKey_alike (hu : Short u) (name : PyStr) :
    (ownedKey u name).Alike (Related u) (fun m r r' => SameKey m r r') (ownedKey u name) i := by
  refine named_alike fun hname => .bind (query_alike (V := fun m a b => Option.Rel (SameKey m) a b)
      (fun h => h.keys.sound.fetchable_selectKey) (fun h => h.keys.sound.fetchable_selectKey) fun _ _ _ _ _ hR => ⟨rfl, hR.selectKey name⟩)
      fun _ row row' _ hrow => ?_
  cases hrow with
  | none =>
    have htype : Short (py "named_key") := by decide +kernel
    exact .bind (AuditRepository.log_alike rfl
      (Denial.rowFits (d := ⟨u, py "named_key", name⟩) hu htype (short_keyName hname))) fun _ _ _ _ _ => .throw _
  | some hr => exact .pure hr

/-- A version of the key is the same one, to the user. -/
theorem keyVersion_alike (hr : SameKey i r r') (version : ℤ) :
    (keyVersion r version).Alike (Related u) (fun _ v v' => v.shown = v'.shown) (keyVersion r' version) i := by
  refine .bind (query_alike (V := fun _ a b => a.map NamedKeyVersion.shown = b.map NamedKeyVersion.shown)
    (fun h => h.keys.sound.fetchable_selectKeyVersion) (fun h => h.keys.sound.fetchable_selectKeyVersion)
    fun j n s t hj hR => ⟨?_, hR.selectKeyVersion (hr.later hj).1 version⟩) fun _ row row' _ hrow => ?_
  · obtain ⟨hfits, hfits'⟩ := hR.tied.keys.fits (hr.later hj).1
    simp only [bindAll, bindValue_int hfits, bindValue_int hfits']
  · cases row <;> cases row'
    · exact .throw _
    · cases hrow
    · cases hrow
    · exact .pure (Option.some.inj hrow)

omit [Platform] in
theorem eq_of_shown (h : v.shown = v'.shown) : v' = { v with id := v'.id, keyId := v'.keyId } := by
  cases v
  cases v'
  simp only [NamedKeyVersion.shown, NamedKeyVersion.mk.injEq, true_and] at h ⊢
  exact ⟨h.1.symm, h.2.1.symm, h.2.2.1.symm, h.2.2.2.1.symm, h.2.2.2.2.1.symm, h.2.2.2.2.2.symm⟩

theorem unwrap_alike (hr : SameKey i r r') (hv : v.shown = v'.shown) :
    (unwrap r v).Alike (Related u) (fun _ a b => a = b) (unwrap r' v') i := by
  rw [NamedKey.eq_of_shown hr.2, eq_of_shown hv]
  refine mapExc_alike (.bind getDek_alike fun _ dek dek' _ hdek => ?_)
  subst hdek
  exact done_alike

omit [Platform] in
/-- The numbers of a listing show no identifiers. -/
theorem versionNumbers_shown [Platform] {rows rows' : List NamedKeyVersion}
    (h : rows.map NamedKeyVersion.shown = rows'.map NamedKeyVersion.shown) : versionNumbers rows = versionNumbers rows' := by
  induction rows generalizing rows' with
  | nil => rw [List.map_eq_nil_iff.mp h.symm]
  | cons x xs ih =>
    cases rows' with
    | nil => cases h
    | cons y ys =>
      obtain ⟨hxy, hrest⟩ := List.cons.inj h
      rw [eq_of_shown hxy]
      simp only [versionNumbers, ih hrest]

/-- The listing of the versions of a key. -/
theorem listVersions_alike (hr : SameKey i r r') : (NamedKeyRepository.listVersions r.id).Alike (Related u)
    (fun _ a b => a.map NamedKeyVersion.shown = b.map NamedKeyVersion.shown) (NamedKeyRepository.listVersions r'.id) i := by
  refine query_alike (fun h => h.keys.sound.fetchable_selectKeyVersions) (fun h => h.keys.sound.fetchable_selectKeyVersions)
    fun j n s t hj hR => ⟨?_, hR.selectKeyVersions (hr.later hj).1⟩
  obtain ⟨hfits, hfits'⟩ := hR.tied.keys.fits (hr.later hj).1
  simp only [bindAll, bindValue_int hfits, bindValue_int hfits']

theorem metadata_alike (hr : SameKey i r r') : (metadata r).Alike (Related u) (fun _ a b => a = b) (metadata r') i := by
  have hlist : ∀ {j : Links}, i ≤ j → (NamedKeyRepository.listVersions r.id).Alike (Related u) _
      (NamedKeyRepository.listVersions r'.id) j := fun hj => listVersions_alike (hr.later hj)
  rw [NamedKey.eq_of_shown hr.2] at hlist ⊢
  refine .bind done_alike fun j latest latest' hj hlatest => .bind (hlist hj) fun _ rows rows' _ hrows => ?_
  subst hlatest
  rw [versionNumbers_shown hrows]
  refine .bind done_alike fun _ versions versions' _ hversions => ?_
  subst hversions
  exact .pure rfl

theorem create_alike (kind : KeyKind) (hname : keyNamePattern name) : (NamedKeyRepository.create u name kind.usage kind.algorithm
    (wrapFor kind u name coins)).Alike (Related u) (fun m r r' => SameKey m r r')
      (NamedKeyRepository.create u name kind.usage kind.algorithm (wrapFor kind u name coins)) i := by
  refine .bind now_alike fun _ now now' _ hnow => ?_
  obtain ⟨rfl, -⟩ := hnow
  have hcommon : Keeps World.common
      (NamedKeyRepository.createBody u name kind.usage kind.algorithm (wrapFor kind u name coins) now) :=
    createBody_keeps (fun v => wrapFor_keeps (fun _ _ => rfl) v) fun _ _ => rfl
  have hchange : ∀ w a w', (NamedKeyRepository.createBody u name kind.usage kind.algorithm (wrapFor kind u name coins) now).run w =
      (.ok a, w') → w'.db.besideAccounts = w.db.besideAccounts ∨ Change u w.db w'.db := fun w a w' hrun =>
    .inr (run_createBody_change (fun v => wrapFor_keeps (fun _ _ => rfl) v) hname hrun)
  refine .bind (mapExc_alike (transaction_alike (V := fun _ _ _ => True) hcommon hcommon hchange hchange
    fun _ _ _ => createBody_lockstep)) fun _ _ _ _ _ => .bind (query_alike (V := fun m a b => Option.Rel (SameKey m) a b)
      (fun h => h.keys.sound.fetchable_selectKey) (fun h => h.keys.sound.fetchable_selectKey)
      fun _ _ _ _ _ hR => ⟨rfl, hR.selectKey name⟩) fun _ row row' _ hrow => ?_
  cases hrow with
  | none => exact .throw _
  | some hr => exact .pure hr

theorem createKey_alike (name : PyStr) (coins : KeyCoins) :
    (createKey u name coins).Alike (Related u) (fun _ a b => a = b) (createKey u name coins) i :=
  named_alike fun hname => .bind getDek_alike fun _ _ _ _ _ => .bind (create_alike .aes hname) fun _ _ _ _ hr =>
    metadata_alike hr

theorem createSigningKey_alike (name algorithm : PyStr) (coins : KeyCoins) : (createSigningKey u name algorithm coins).Alike
    (Related u) (fun _ a b => a = b) (createSigningKey u name algorithm coins) i :=
  named_alike fun hname => .ite (fun _ => .throw _) fun _ => .bind getDek_alike fun _ _ _ _ _ =>
    .bind (create_alike .ed25519 hname) fun _ _ _ _ hr => metadata_alike hr

theorem rotateKey_alike (hu : Short u) (name : PyStr) (coins : KeyCoins) :
    (rotateKey u name coins).Alike (Related u) (fun _ a b => a = b) (rotateKey u name coins) i := by
  refine .bind (ownedKey_alike hu name) fun _ keyRow keyRow' _ hkey => .bind getDek_alike fun _ _ _ _ _ =>
    .bind (V := fun m a b => Option.Rel (SameKey m) a b) ?_ fun _ rotated rotated' _ hrotated => ?_
  · have hwrapper : wrapperOf keyRow' u name coins = wrapperOf keyRow u name coins := by
      rw [NamedKey.eq_of_shown hkey.2]
      rfl
    rw [hwrapper]
    obtain ⟨kind, hkind⟩ := wrapperOf_eq keyRow u name coins
    rw [hkind]
    refine .bind now_alike fun _ now now' _ hnow => ?_
    obtain ⟨rfl, -⟩ := hnow
    have hcommon : Keeps World.common (NamedKeyRepository.rotateBody u name (wrapFor kind u name coins) now) :=
      rotateBody_keeps (fun v => wrapFor_keeps (fun _ _ => rfl) v) fun _ _ => rfl
    have hchange : ∀ w a w', (NamedKeyRepository.rotateBody u name (wrapFor kind u name coins) now).run w = (.ok a, w') →
        w'.db.besideAccounts = w.db.besideAccounts ∨ Change u w.db w'.db := by
      intro w a w' hrun
      rcases run_rotateBody_change (fun v => wrapFor_keeps (fun _ _ => rfl) v) hrun with ⟨-, rfl⟩ | hstep
      · exact .inl rfl
      · exact .inr hstep
    refine .bind (transaction_alike (V := fun _ a b => a = b) hcommon hcommon hchange hchange fun _ _ _ => rotateBody_lockstep)
      fun _ b b' _ hb => ?_
    subst hb
    exact .ite (fun _ => query_alike (fun h => h.keys.sound.fetchable_selectKey) (fun h => h.keys.sound.fetchable_selectKey)
      fun _ _ _ _ _ hR => ⟨rfl, hR.selectKey name⟩) fun _ => .pure .none
  · cases hrotated with
    | none => exact .throw _
    | some hr => exact metadata_alike hr

theorem deleteKey_alike (hu : Short u) (name : PyStr) :
    (deleteKey u name).Alike (Related u) (fun _ a b => a = b) (deleteKey u name) i := by
  have hcommon : Keeps World.common (execute [.str u, .str name] (fun db => .ok (db.deleteKey u name)) >>= fun rowcount =>
      pure (decide (rowcount > 0)) : Act Bool) := .bind (.execute fun _ _ _ _ => rfl) fun _ => .pure _
  refine .bind (ownedKey_alike hu name) fun _ _ _ _ _ => .bind getDek_alike fun _ _ _ _ _ =>
    .bind (transaction_alike (V := fun _ a b => a = b) hcommon hcommon (fun _ _ _ hrun => .inr (run_deleteBody_change hrun))
      (fun _ _ _ hrun => .inr (run_deleteBody_change hrun)) fun _ _ _ => deleteBody_lockstep) fun _ deleted deleted' _ h => ?_
  subst h
  exact .ite (fun _ => .pure rfl) fun _ => .throw _

theorem listKeys_alike : (listKeys u).Alike (Related u) (fun _ a b => a = b) (listKeys u) i := by
  have hall : ∀ {rows rows' : List NamedKey} {j : Links}, Corresponds (SameKey j) rows rows' →
      (metadataAll rows).Alike (Related u) (fun _ a b => a = b) (metadataAll rows') j := by
    intro rows rows' j h
    induction rows generalizing rows' j with
    | nil =>
      cases h
      exact .pure rfl
    | cons r rows ih =>
      cases h with
      | cons hr hrows =>
        refine .bind (metadata_alike hr) fun _ first first' hj hfirst => .bind (ih (hrows.imp fun _ _ hr => hr.later hj))
          fun _ rest rest' _ hrest => ?_
        subst hfirst hrest
        exact .pure rfl
  exact .bind getDek_alike fun _ _ _ _ _ => .bind (query_alike (V := fun m a b => Corresponds (SameKey m) a b)
    (fun h => h.keys.sound.fetchable_selectOwned) (fun h => h.keys.sound.fetchable_selectOwned)
    fun _ _ _ _ _ hR => ⟨rfl, hR.selectOwned⟩) fun _ _ _ _ hrows => hall hrows

theorem encrypt_alike (hu : Short u) (name plaintextB64 : PyStr) (nonce : Nonce) :
    (encrypt u name plaintextB64 nonce).Alike (Related u) (fun _ a b => a = b) (encrypt u name plaintextB64 nonce) i := by
  refine .bind (ownedKey_alike hu name) fun j keyRow keyRow' _ hkey => ?_
  have hversion : ∀ {m : Links}, j ≤ m → ∀ version, (keyVersion keyRow version).Alike (Related u) _
      (keyVersion keyRow' version) m := fun hm version => keyVersion_alike (hkey.later hm) version
  have hunwrap : ∀ {m : Links} {v v' : NamedKeyVersion}, j ≤ m → v.shown = v'.shown → (unwrap keyRow v).Alike (Related u)
      (fun _ a b => a = b) (unwrap keyRow' v') m := fun hm hv => unwrap_alike (hkey.later hm) hv
  rw [NamedKey.eq_of_shown hkey.2] at hversion hunwrap ⊢
  refine .ite (fun _ => .throw _) fun _ => .bind getDek_alike fun m₁ _ _ h₁ _ => .bind done_alike
    fun m₂ plaintext plaintext' h₂ hplaintext => .bind done_alike fun m₃ version version' h₃ hnumber => ?_
  subst hplaintext hnumber
  refine .bind (hversion ((h₁.trans h₂).trans h₃) version) fun m₄ row row' h₄ hrow =>
    .bind (hunwrap (((h₁.trans h₂).trans h₃).trans h₄) hrow) fun _ material material' _ hmaterial => ?_
  subst hmaterial
  refine .ite (fun _ => .throw _) fun _ => .bind done_alike fun _ associatedData aad' _ haad => ?_
  subst haad
  refine .bind encryptAesGcm_alike fun _ blob blob' _ hblob => ?_
  subst hblob
  refine .bind done_alike fun _ ciphertext ciphertext' _ hciphertext => ?_
  subst hciphertext
  exact .pure rfl

theorem decrypt_alike (hu : Short u) (ciphertext : PyStr) :
    (decrypt u ciphertext).Alike (Related u) (fun _ a b => a = b) (decrypt u ciphertext) i := by
  refine .bind done_alike fun _ parsed parsed' _ hparsed => ?_
  subst hparsed
  refine .bind (ownedKey_alike hu _) fun j keyRow keyRow' _ hkey => ?_
  have hversion : ∀ {m : Links}, j ≤ m → ∀ version, (keyVersion keyRow version).Alike (Related u) _
      (keyVersion keyRow' version) m := fun hm version => keyVersion_alike (hkey.later hm) version
  have hunwrap : ∀ {m : Links} {v v' : NamedKeyVersion}, j ≤ m → v.shown = v'.shown → (unwrap keyRow v).Alike (Related u)
      (fun _ a b => a = b) (unwrap keyRow' v') m := fun hm hv => unwrap_alike (hkey.later hm) hv
  rw [NamedKey.eq_of_shown hkey.2] at hversion hunwrap ⊢
  refine .ite (fun _ => .throw _) fun _ => .bind getDek_alike fun m₁ _ _ h₁ _ =>
    .bind (hversion h₁ _) fun m₂ row row' h₂ hrow => .bind (hunwrap (h₁.trans h₂) hrow) fun _ material material' _ hmaterial => ?_
  subst hmaterial
  refine .bind (mapExc_alike done_alike) fun _ plaintext plaintext' _ hplaintext => ?_
  subst hplaintext
  exact .pure rfl

theorem sign_alike (hu : Short u) (name messageB64 messageType algorithm : PyStr) :
    (sign u name messageB64 messageType algorithm).Alike (Related u) (fun _ a b => a = b)
      (sign u name messageB64 messageType algorithm) i := by
  refine .bind (ownedKey_alike hu name) fun j keyRow keyRow' _ hkey => ?_
  have hversion : ∀ {m : Links}, j ≤ m → ∀ version, (keyVersion keyRow version).Alike (Related u) _
      (keyVersion keyRow' version) m := fun hm version => keyVersion_alike (hkey.later hm) version
  have hunwrap : ∀ {m : Links} {v v' : NamedKeyVersion}, j ≤ m → v.shown = v'.shown → (unwrap keyRow v).Alike (Related u)
      (fun _ a b => a = b) (unwrap keyRow' v') m := fun hm hv => unwrap_alike (hkey.later hm) hv
  rw [NamedKey.eq_of_shown hkey.2] at hversion hunwrap ⊢
  refine .ite (fun _ => .throw _) fun _ => .bind (V := fun _ _ _ => True) (.ite (fun _ => .throw _) fun _ => .pure trivial)
    fun m₀ _ _ h₀ _ => .bind getDek_alike fun m₁ _ _ h₁ _ => .bind done_alike fun m₂ digest digest' h₂ hdigest =>
      .bind done_alike fun m₃ version version' h₃ hnumber => ?_
  subst hdigest hnumber
  have hle := ((h₀.trans h₁).trans h₂).trans h₃
  refine .bind (hversion hle version) fun m₄ row row' h₄ hrow =>
    .bind (hunwrap (hle.trans h₄) hrow) fun _ privateKey privateKey' _ hmaterial => ?_
  subst hmaterial
  exact .ite (fun _ => .throw _) fun _ => .bind (change_alike (fun _ _ h => h) fun _ => rfl) fun _ _ _ _ _ => .pure rfl

/-- The rows `verify` tries. -/
theorem candidates_alike (hr : SameKey i r r') (version : Option ℤ) : (candidates r version).Alike (Related u)
    (fun _ a b => a.map NamedKeyVersion.shown = b.map NamedKeyVersion.shown) (candidates r' version) i := by
  have hrows : ∀ {rows rows' : List NamedKeyVersion} {j : Links}, i ≤ j →
      rows.map NamedKeyVersion.shown = rows'.map NamedKeyVersion.shown → (candidateRows r rows).Alike (Related u)
        (fun _ a b => a.map NamedKeyVersion.shown = b.map NamedKeyVersion.shown) (candidateRows r' rows') j := by
    intro rows rows' j hj h
    induction rows generalizing rows' j with
    | nil =>
      rw [List.map_eq_nil_iff.mp h.symm]
      exact .pure rfl
    | cons x xs ih =>
      cases rows' with
      | nil => cases h
      | cons y ys =>
        obtain ⟨hxy, hrest⟩ := List.cons.inj h
        rw [eq_of_shown hxy]
        refine .bind done_alike fun m₁ number number' h₁ hnumber => ?_
        subst hnumber
        refine .bind (keyVersion_alike (hr.later (hj.trans h₁)) number) fun m₂ found found' h₂ hfound =>
          .bind (ih ((hj.trans h₁).trans h₂) hrest) fun _ more more' _ hmore => .pure ?_
        rw [List.map_cons, List.map_cons, hfound, hmore]
  cases version with
  | some version =>
    refine .bind (keyVersion_alike hr version) fun _ found found' _ hfound => .pure ?_
    rw [List.map_singleton, List.map_singleton, hfound]
  | none =>
    refine .bind (listVersions_alike hr) fun _ rows rows' hj hlisted => hrows hj ?_
    rw [List.map_reverse, List.map_reverse, hlisted]

omit [Platform] in
/-- Which version verifies a signature does not depend on identifiers. -/
theorem matchedVersion_shown [Platform] {rows rows' : List NamedKeyVersion} {signatureB64 : PyStr} {digest : Bytes}
    (h : rows.map NamedKeyVersion.shown = rows'.map NamedKeyVersion.shown) :
    matchedVersion rows signatureB64 digest = matchedVersion rows' signatureB64 digest := by
  unfold matchedVersion
  cases decodeB64 (.str signatureB64) with
  | error e => rfl
  | ok signature =>
    have hfind : (rows.find? fun row => accepts row signature digest).map NamedKeyVersion.shown =
        (rows'.find? fun row => accepts row signature digest).map NamedKeyVersion.shown :=
      find?_shown h (r := fun row => accepts row signature digest) (fun _ => rfl) fun _ => rfl
    revert hfind
    dsimp only
    cases rows.find? fun row => accepts row signature digest <;>
      cases rows'.find? fun row => accepts row signature digest <;> intro hfind
    · rfl
    · cases hfind
    · cases hfind
    · rename_i x y
      rw [eq_of_shown (Option.some.inj hfind)]

theorem verify_alike (hu : Short u) (name messageB64 messageType signatureB64 algorithm : PyStr) (version : Option ℤ) :
    (verify u name messageB64 messageType signatureB64 algorithm version).Alike (Related u) (fun _ a b => a = b)
      (verify u name messageB64 messageType signatureB64 algorithm version) i := by
  refine .bind (ownedKey_alike hu name) fun j keyRow keyRow' _ hkey => ?_
  have hcandidates : ∀ {m : Links}, j ≤ m → (candidates keyRow version).Alike (Related u) _ (candidates keyRow' version) m :=
    fun hm => candidates_alike (hkey.later hm) version
  rw [NamedKey.eq_of_shown hkey.2] at hcandidates ⊢
  refine .ite (fun _ => .throw _) fun _ => .bind (V := fun _ _ _ => True) (.ite (fun _ => .throw _) fun _ => .pure trivial)
    fun m₀ _ _ h₀ _ => .bind getDek_alike fun m₁ _ _ h₁ _ => .bind done_alike fun m₂ digest digest' h₂ hdigest => ?_
  subst hdigest
  refine .bind (hcandidates ((h₀.trans h₁).trans h₂)) fun _ rows rows' _ hrows => ?_
  rw [matchedVersion_shown hrows]
  refine .bind done_alike fun _ matched matched' _ hmatched => ?_
  subst hmatched
  exact .pure rfl

end TransitService

end Noninterference

end MiniVault
