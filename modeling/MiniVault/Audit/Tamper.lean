import MiniVault.Audit.Chain
import MiniVault.Core.Sample

/-!
# Tampering with the audit log

Someone who can write to `audit_logs`, but leaves `schema_metadata` alone, replaces the
rows by others. The hash of the last row is kept outside the table, and hashes do not
collide; so nothing but the rows that were there leads to it.

The check has two holes. `verify` compares with the stored head only if there are rows, so
a log without any is valid. And `log` stores the hash of what it appends behind the rows
it finds: where the last rows were deleted, it forgets that there were any.

## What is proved

* `tampering_detected_iff` — other rows are reported, exactly if there are any, their text is
  UTF-8, and the hash of none that continues an intact beginning raises.
* `truncation_detected_iff` — rows deleted from the end are reported after later calls of
  `log`, exactly if some are left and none of the calls could append anything.
* `empty_log_sample`, `healed_log_sample` — a log that is valid after all its rows are
  deleted, and one that is valid again after an entry is appended.
-/

namespace MiniVault

open Foundations

section Tamper

variable [Platform]

/-! ### The hash -/

/-- The hash does not collide on what is hashed for the rows. -/
def InjectiveHash (rows : List AuditLog) : Prop :=
  ∀ r ∈ rows, ∀ r' ∈ rows, ∀ m m', hashMaterial r.prevHash r.entry = .ok m →
    hashMaterial r'.prevHash r'.entry = .ok m' → hexdigest m = hexdigest m' → m = m'

/-- Nor is it ever the hash the chain begins with. -/
structure IdealHash (rows : List AuditLog) : Prop where
  /-- There is no collision. -/
  injective : InjectiveHash rows
  /-- Nothing has the genesis hash. -/
  ne_genesis : ∀ r ∈ rows, ∀ m, hashMaterial r.prevHash r.entry = .ok m → hexdigest m ≠ genesisHash

omit [Platform] in
/-- The hashed columns, `prev_hash` and `entry_hash`. -/
def AuditLog.content (row : AuditLog) : Entry × Value × Value := (row.entry, row.prevHash, row.entryHash)

/-- **One head, one list of rows.** Rows whose cells are plain, and others, that are linked up to
the same hash have the same contents. -/
theorem content_eq_of_linked {rows rows' : List AuditLog} {h : PyStr} (hplain : ∀ row ∈ rows, row.entry.Plain)
    (hideal : IdealHash (rows ++ rows')) (hrows : follow linkRow genesisHash rows = some h)
    (hrows' : follow linkRow genesisHash rows' = some h) :
    rows.map AuditLog.content = rows'.map AuditLog.content := by
  refine follow_inj (P := fun h => PyChar.scalar '|' ∉ h) AuditLog.content (by decide) ?_ ?_ ?_ hrows hrows'
  · intro p row q hq
    obtain ⟨m, -, rfl⟩ := computeEntryHash_eq_ok.mp (linkRow_eq_some.mp hq).2.1
    exact bar_notMem_hexdigest m
  · intro x hx y hy p q e hp hq hxe hye
    obtain ⟨hxp, hxh, hxhash⟩ := linkRow_eq_some.mp hxe
    obtain ⟨hyp, hyh, hyhash⟩ := linkRow_eq_some.mp hye
    obtain ⟨m, hm, hmd⟩ := computeEntryHash_eq_ok.mp hxh
    obtain ⟨m', hm', hmd'⟩ := computeEntryHash_eq_ok.mp hyh
    have hsame : m = m' :=
      hideal.injective x (List.mem_append_left _ hx) y (List.mem_append_right _ hy) m m' (by rw [hxp, hm])
        (by rw [hyp, hm']) (hmd.trans hmd'.symm)
    subst hsame
    obtain ⟨rfl, hentry⟩ := hashMaterial_inj (hplain x hx) hp hq hm hm'
    exact ⟨rfl, by simp only [AuditLog.content, hentry, hxp, hyp, hxhash, hyhash]⟩
  · intro x hx p hgen
    obtain ⟨hxp, hxh, -⟩ := linkRow_eq_some.mp hgen
    obtain ⟨m, hm, hmd⟩ := computeEntryHash_eq_ok.mp hxh
    exact hideal.ne_genesis x (List.mem_append.mpr hx) m (by rw [hxp, hm]) hmd

/-- **One head, one log.** Rows that are linked up to the hash a sound log ends at are its
rows. -/
theorem LogSound.content_eq {db : Database} {h : PyStr} (hs : LogSound db h) {rows : List AuditLog}
    (hideal : IdealHash (db.auditLogs.rows ++ rows)) (hrows : follow linkRow genesisHash rows = some h) :
    db.auditLogs.rows.map AuditLog.content = rows.map AuditLog.content :=
  content_eq_of_linked hs.plain hideal hs.linked hrows

/-! ### Runs -/

/-- A step of a run: a call of `log`, or the clock shows another time. -/
inductive LogOp where
  /-- `AuditRepository.log`. -/
  | log (o : AuditRepository.Occurrence)
  /-- The clock. -/
  | tick (time : ℕ)

/-- The program of a step. -/
def LogOp.exec : LogOp → Act Unit
  | .log o => AuditRepository.log o
  | .tick time => Prog.change .clock fun w => { w with clock := time }

/-- A run. -/
def logSession : World → List LogOp → List (LogOp × Except Exc Unit) × World := Prog.session LogOp.exec

/-- The step is a call of `log` that has something it can append. -/
def Appends (w : World) (op : LogOp) : Prop :=
  ∃ o, op = .log o ∧ o.Encodable ∧ AuditRepository.HasRoom w.db ∧ o.RowFits w.db (isoformat w.clock)

/-- **What a step does** to a log that is sound: it appends a row and stores its hash, or
it changes nothing. -/
theorem LogOp.step {w : World} {h : PyStr} (hs : LogSound w.db h) (op : LogOp) :
    (¬ Appends w op ∧ (op.exec.run w).2.db = w.db) ∨
      (Appends w op ∧ ∃ q, LogSound (op.exec.run w).2.db q ∧ AuditRepository.HeadStored (op.exec.run w).2.db q ∧
        (op.exec.run w).2.db.auditLogs.rows ≠ []) := by
  cases op with
  | tick time =>
    refine .inl ⟨?_, rfl⟩
    rintro ⟨o, ho, -⟩
    cases ho
  | log o =>
    simp only [LogOp.exec]
    rcases hrun : (AuditRepository.log o).run w with ⟨e | u, w'⟩
    · refine .inl ⟨?_, by rw [AuditRepository.run_log_error hrun]⟩
      rintro ⟨o', ho', henc, hroom, hrow⟩
      obtain rfl := LogOp.log.inj ho'
      obtain ⟨w₁, hok⟩ := AuditRepository.run_log_ok hs henc hroom hrow
      rw [hok] at hrun
      cases hrun
    · obtain ⟨ho, hroom, hrow, id, q, hq, rfl⟩ := AuditRepository.run_log_eq_ok hs hrun
      exact .inr ⟨⟨o, rfl, ho, hroom, hrow⟩, q, AuditRepository.logged_sound hs hq,
        AuditRepository.headStored_replaceMetadata _ q, List.append_ne_nil_of_right_ne_nil _ (List.cons_ne_nil _ _)⟩

/-- The log is sound, and its head is stored where it has rows. -/
def LogHonest (db : Database) : Prop :=
  ∃ h, LogSound db h ∧ (db.auditLogs.rows ≠ [] → AuditRepository.HeadStored db h)

/-- A log that only `log` wrote is honest. -/
theorem honest_session {w : World} (hempty : w.db.auditLogs.rows = []) (ops : List LogOp) :
    LogHonest (logSession w ops).2.db := by
  have hstart : LogHonest w.db :=
    ⟨genesisHash, ⟨by simp [hempty], by rw [hempty]; rfl, by simp [hempty]⟩, fun hne => absurd hempty hne⟩
  refine Prog.session_invariant (I := fun _ (w : World) => LogHonest w.db) hstart (fun _ w op hw => ?_) ops
  obtain ⟨h, hs, hhead⟩ := hw
  rcases op.step hs with ⟨-, hsame⟩ | ⟨-, q, hq, hstored, -⟩
  · rw [hsame]
    exact ⟨h, hs, hhead⟩
  · exact ⟨q, hq, fun _ => hstored⟩

/-! ### Verification -/

/-- The head `verify` expects. -/
def expectedHead (db : Database) : Value :=
  if db.selectLogs.isEmpty then .none
  else
    match db.selectMetadata AuditRepository.headKey with
    | none => .none
    | some m => m.value

omit [Platform] in
/-- What verification fetches is there to be read: the text in the log and in the stored head is UTF-8. -/
structure Legible (db : Database) : Prop where
  /-- In the log. -/
  rows : ∀ row ∈ db.auditLogs.rows, Fetchable row.cells
  /-- In the stored head. -/
  head : ∀ m ∈ db.selectMetadata AuditRepository.headKey, Fetchable m.cells

omit [Platform] in
theorem Legible.fetchall {db : Database} :
    Fetchable (fetchall AuditLog.cells db.selectLogs) ↔ ∀ row ∈ db.auditLogs.rows, Fetchable row.cells := by
  rw [fetchable_fetchall]
  exact forall_congr' fun row => imp_congr_left (List.perm_insertionSort _ _).mem_iff

theorem run_verify {w : World} (h : Legible w.db) :
    AuditRepository.verify.run w = (verifyChain w.db.selectLogs (expectedHead w.db), w) := by
  have hlogs : (connection .transaction (query [] (fetchall AuditLog.cells) Database.selectLogs)).run w =
      (.ok w.db.selectLogs, w) :=
    run_connection_eq_ok.mpr (run_query_eq_ok.mpr ⟨bindAll_nil, Legible.fetchall.mpr h.rows, rfl, rfl⟩)
  have hhead : (connection .transaction (query [.str AuditRepository.headKey] (fetchone SchemaMetadata.cells) fun db =>
      db.selectMetadata AuditRepository.headKey)).run w = (.ok (w.db.selectMetadata AuditRepository.headKey), w) :=
    run_connection_eq_ok.mpr (run_query_eq_ok.mpr ⟨by decide, fetchable_fetchone.mpr h.head, rfl, rfl⟩)
  unfold AuditRepository.verify AuditRepository.storedHead
  rw [Prog.run_bind_ok hlogs, Prog.bind_assoc, Prog.run_bind_ok hhead]
  rfl

/-- Verification does not report on what it cannot fetch. -/
theorem legible_of_verify {w w' : World} {report : Report} (hrun : AuditRepository.verify.run w = (.ok report, w')) :
    Legible w.db := by
  obtain ⟨rows, _, hlogs, hrun⟩ := Prog.run_bind_eq_ok.mp hrun
  obtain ⟨-, hrows, rfl, rfl⟩ := run_query_eq_ok.mp (run_connection_eq_ok.mp hlogs)
  obtain ⟨stored, _, hstored, -⟩ := Prog.run_bind_eq_ok.mp hrun
  obtain ⟨m, _, hmetadata, -⟩ := Prog.run_bind_eq_ok.mp hstored
  obtain ⟨-, hhead, rfl, rfl⟩ := run_query_eq_ok.mp (run_connection_eq_ok.mp hmetadata)
  exact ⟨Legible.fetchall.mp hrows, fetchable_fetchone.mp hhead⟩

/-- `verify` reports that the log is not valid. -/
def Reported (w : World) : Prop := ∃ report, (AuditRepository.verify.run w).1 = .ok report ∧ report.valid = false

/-- **What is reported**: rows that can be fetched, and whose verification neither raises nor comes to the head. -/
theorem reported_iff {w : World} :
    Reported w ↔ Legible w.db ∧ ¬ RaisesIn 0 genesisHash w.db.selectLogs ∧
      ∀ h, Intact 0 genesisHash w.db.selectLogs h → expectedHead w.db ≠ .none ∧ expectedHead w.db ≠ .str h := by
  have herror : (∃ e, verifyChain w.db.selectLogs (expectedHead w.db) = .error e) ↔ _ := verifyRows_error_iff
  have hvalid : (∃ report, verifyChain w.db.selectLogs (expectedHead w.db) = .ok report ∧ report.valid = true) ↔ _ :=
    verifyRows_valid_iff
  have hother : (∀ h, Intact 0 genesisHash w.db.selectLogs h → expectedHead w.db ≠ .none ∧ expectedHead w.db ≠ .str h) ↔
      ¬ ∃ h, Intact 0 genesisHash w.db.selectLogs h ∧ (expectedHead w.db = .none ∨ expectedHead w.db = .str h) := by
    simp only [not_exists, not_and, not_or, ne_eq]
  by_cases hlegible : Legible w.db
  swap
  · refine iff_of_false ?_ fun h => hlegible h.1
    rintro ⟨report, hreport, -⟩
    exact hlegible (legible_of_verify (Prod.ext hreport rfl))
  unfold Reported
  rw [run_verify hlegible, hother, ← herror, ← hvalid, and_iff_right hlegible]
  cases verifyChain w.db.selectLogs (expectedHead w.db) with
  | error e => simp
  | ok report => simp

omit [Platform] in
theorem expectedHead_nil {db : Database} (h : db.selectLogs = []) : expectedHead db = .none := by
  simp [expectedHead, h]

omit [Platform] in
theorem expectedHead_stored {db : Database} {h : PyStr} (hne : db.selectLogs ≠ [])
    (hstored : AuditRepository.HeadStored db h) : expectedHead db = .str h := by
  obtain ⟨m, hm, hv⟩ := Option.map_eq_some_iff.mp hstored
  simp [expectedHead, hne, hm, hv]

omit [Platform] in
/-- The world with other rows in `audit_logs`. -/
def World.withLogs (w : World) (logs : Table AuditLog) : World := { w with db := { w.db with auditLogs := logs } }

omit [Platform] in
/-- A head that is stored can be fetched. -/
theorem fetchable_of_headStored {db : Database} {h : PyStr} (hstored : AuditRepository.HeadStored db h) :
    ∀ m ∈ db.selectMetadata AuditRepository.headKey, Fetchable m.cells := by
  obtain ⟨m, hm, hv⟩ := Option.map_eq_some_iff.mp hstored
  rintro m' hm' v hcell
  obtain rfl := Option.some.inj (hm.symm.trans hm')
  obtain rfl := List.mem_singleton.mp hcell
  rw [hv]
  rfl

/-- **Other rows under the head of an honest log** are reported, exactly if there are any, they can be fetched, and
the hash of none that continues an intact beginning raises. -/
theorem LogSound.reported_withLogs {w : World} {h : PyStr} (hs : LogSound w.db h)
    (hhead : AuditRepository.HeadStored w.db h) {logs : Table AuditLog} (hideal : IdealHash (w.db.auditLogs.rows ++ logs.rows))
    (hdiffer : (w.withLogs logs).db.selectLogs.map AuditLog.content ≠ w.db.selectLogs.map AuditLog.content) :
    Reported (w.withLogs logs) ↔ logs.rows ≠ [] ∧ (∀ row ∈ logs.rows, Fetchable row.cells) ∧
      ¬ RaisesIn 0 genesisHash (w.withLogs logs).db.selectLogs := by
  have hperm : (w.withLogs logs).db.selectLogs.Perm logs.rows := List.perm_insertionSort _ _
  have hstored : AuditRepository.HeadStored (w.withLogs logs).db h := hhead
  have hlegible : Legible (w.withLogs logs).db ↔ ∀ row ∈ logs.rows, Fetchable row.cells :=
    ⟨fun h => h.rows, fun h => ⟨h, fetchable_of_headStored hstored⟩⟩
  rw [reported_iff, hlegible, and_left_comm (a := logs.rows ≠ [])]
  refine and_congr_right fun _ => and_comm.trans (and_congr_left fun _ => ⟨fun hall hnil => ?_, fun hrows q hintact => ?_⟩)
  · -- without rows there is no expected head
    have hlogs : (w.withLogs logs).db.selectLogs = [] := List.perm_nil.mp (hnil ▸ hperm)
    have hgenesis : Intact 0 genesisHash (w.withLogs logs).db.selectLogs genesisHash := by
      rw [hlogs]
      exact ⟨trivial, rfl⟩
    exact (hall genesisHash hgenesis).1 (expectedHead_nil hlogs)
  · have hlogs : (w.withLogs logs).db.selectLogs ≠ [] := fun hnil => hrows (List.perm_nil.mp (hnil ▸ hperm).symm)
    rw [expectedHead_stored hlogs hstored]
    refine ⟨by simp, fun heq => hdiffer ?_⟩
    obtain rfl := Value.str.inj heq
    have hideal' : IdealHash (w.db.auditLogs.rows ++ (w.withLogs logs).db.selectLogs) := by
      have hmem : ∀ r ∈ w.db.auditLogs.rows ++ (w.withLogs logs).db.selectLogs, r ∈ w.db.auditLogs.rows ++ logs.rows := by
        intro r hr
        rwa [List.mem_append, hperm.mem_iff, ← List.mem_append] at hr
      exact ⟨fun r hr r' hr' => hideal.injective r (hmem r hr) r' (hmem r' hr'),
        fun r hr => hideal.ne_genesis r (hmem r hr)⟩
    rw [hs.selectLogs_eq, ← hs.content_eq hideal' hintact.2]

/-- **Tampering is detected, exactly unless nothing is left, something cannot be fetched or a row raises.** In every
state that calls of `log` lead to from an empty log, with at least one entry, the rows are
replaced by others that differ in their number, in a hashed column, in `prev_hash` or in
`entry_hash`. Then `verify` reports the log, exactly if there is any row, all text is UTF-8 and
the hash of no row that continues an intact beginning raises. -/
theorem tampering_detected_iff (w : World) (ops : List LogOp) (logs : Table AuditLog) :
    let honest := (logSession w ops).2
    let tampered := honest.withLogs logs
    w.db.auditLogs.rows = [] → honest.db.auditLogs.rows ≠ [] → IdealHash (honest.db.auditLogs.rows ++ logs.rows) →
      tampered.db.selectLogs.map AuditLog.content ≠ honest.db.selectLogs.map AuditLog.content →
        (Reported tampered ↔ logs.rows ≠ [] ∧ (∀ row ∈ logs.rows, Fetchable row.cells) ∧
          ¬ RaisesIn 0 genesisHash tampered.db.selectLogs) := by
  intro honest tampered hempty hne hideal hdiffer
  obtain ⟨h, hs, hhead⟩ : LogHonest honest.db := honest_session hempty ops
  exact hs.reported_withLogs (hhead hne) hideal hdiffer

/-! ### Truncation -/

/-- Verification raises on no row of an intact log. -/
theorem Intact.not_raises {count : ℕ} {p h : PyStr} {rows : List AuditLog} (hi : Intact count p rows h) :
    ¬ RaisesIn count p rows := by
  have herror : (∃ e, verifyRows .none count p rows = .error e) ↔ _ := verifyRows_error_iff
  rw [← herror]
  obtain ⟨report, hok, -⟩ := verifyRows_valid_iff.mpr ⟨h, hi, .inl rfl⟩
  rintro ⟨e, he⟩
  rw [hok] at he
  cases he

/-- What is left of a sound log is sound. -/
theorem LogSound.take {w : World} {h : PyStr} (hs : LogSound w.db h) (k : ℕ) (seq : ℤ) :
    ∃ q, LogSound (w.withLogs ⟨w.db.auditLogs.rows.take k, seq⟩).db q := by
  have hlinked := hs.linked
  rw [← List.take_append_drop k w.db.auditLogs.rows, follow_append, Option.bind_eq_some_iff] at hlinked
  obtain ⟨q, hq, -⟩ := hlinked
  refine ⟨q, fun i row hrow => hs.numbered i row ?_, hq, fun row hrow => hs.plain row (List.mem_of_mem_take hrow)⟩
  obtain ⟨hi, hget⟩ := List.getElem?_eq_some_iff.mp hrow
  rw [List.getElem?_eq_some_iff]
  change i < (w.db.auditLogs.rows.take k).length at hi
  rw [List.length_take] at hi
  refine ⟨by omega, ?_⟩
  rw [← hget]
  exact (List.getElem_take).symm

/-- A log that is sound, with its head stored, is not reported. -/
theorem LogSound.not_reported {w : World} {h : PyStr} (hs : LogSound w.db h)
    (hstored : AuditRepository.HeadStored w.db h) : ¬ Reported w := by
  rw [reported_iff]
  rintro ⟨-, -, hall⟩
  rw [hs.selectLogs_eq] at hall
  obtain ⟨hnone, hne⟩ := hall h hs.intact
  by_cases hnil : w.db.selectLogs = []
  · exact hnone (expectedHead_nil hnil)
  · exact hne (expectedHead_stored hnil hstored)

/-- A log that is sound, but ends before the stored head, is reported, if it has rows. -/
theorem LogSound.reported_iff_ne_nil {w : World} {h head : PyStr} (hs : LogSound w.db h)
    (hstored : AuditRepository.HeadStored w.db head) (hne : head ≠ h) :
    Reported w ↔ w.db.auditLogs.rows ≠ [] := by
  rw [reported_iff, hs.selectLogs_eq]
  constructor
  · rintro ⟨-, -, hall⟩ hnil
    exact (hall h hs.intact).1 (expectedHead_nil (hs.selectLogs_eq.trans hnil))
  · intro hrows
    refine ⟨⟨hs.fetchable, fetchable_of_headStored hstored⟩, hs.intact.not_raises, fun q hq => ?_⟩
    obtain rfl : h = q := Option.some.inj (hs.linked.symm.trans hq.2)
    rw [expectedHead_stored (fun hnil => hrows (hs.selectLogs_eq.symm.trans hnil)) hstored]
    exact ⟨by simp, fun heq => hne (Value.str.inj heq)⟩

/-- None of the steps appends, each where the ones before it lead to. -/
def NoneAppends (w : World) (steps : List LogOp) : Prop :=
  Explained (fun before op => ¬ Appends (logSession w before).2 op) steps

/-- What steps make of a log: they leave it alone, or one of them appends to it and it is
sound with its head stored. -/
def Continues (w : World) (steps : List LogOp) (db' : Database) : Prop :=
  (db' = w.db ∧ NoneAppends w steps) ∨
    (¬ NoneAppends w steps ∧ ∃ q, LogSound db' q ∧ AuditRepository.HeadStored db' q)

theorem Continues.step {w : World} {h : PyStr} (hs : LogSound w.db h) {steps : List LogOp}
    (hsteps : Continues w steps (logSession w steps).2.db) (op : LogOp) :
    Continues w (steps ++ [op]) (op.exec.run (logSession w steps).2).2.db := by
  have hlast : NoneAppends w (steps ++ [op]) ↔ NoneAppends w steps ∧ ¬ Appends (logSession w steps).2 op :=
    explained_append
  rcases hsteps with ⟨hsame, hnone⟩ | ⟨hsome, q, hq, hstored⟩
  · have hs' : LogSound (logSession w steps).2.db h := by rwa [hsame]
    rcases op.step hs' with ⟨hnot, hdb⟩ | ⟨happ, q, hq, hstored, -⟩
    · exact .inl ⟨hdb.trans hsame, hlast.mpr ⟨hnone, hnot⟩⟩
    · exact .inr ⟨fun hall => (hlast.mp hall).2 happ, q, hq, hstored⟩
  · refine .inr ⟨fun hall => hsome (hlast.mp hall).1, ?_⟩
    rcases op.step hq with ⟨-, hdb⟩ | ⟨-, q', hq', hstored', -⟩
    · rw [hdb]
      exact ⟨q, hq, hstored⟩
    · exact ⟨q', hq', hstored'⟩

/-- Later steps leave a sound log alone, or heal it. -/
theorem later_session {w : World} {h : PyStr} (hs : LogSound w.db h) (later : List LogOp) :
    Continues w later (logSession w later).2.db := by
  induction later using List.reverseRecOn with
  | nil => exact .inl ⟨rfl, .nil⟩
  | append_singleton later op ih =>
    have hstep := ih.step hs op
    rwa [logSession, Prog.session_append]

/-- **A truncated log is reported, exactly as long as nothing is appended to what is left.**
In every state that calls of `log` lead to from an empty log, all rows but the first `k`
are deleted, and more calls of `log` follow. Then `verify` reports the log, exactly if
there is a row left and none of the calls had anything it could append. -/
theorem truncation_detected_iff (w : World) (ops later : List LogOp) (k : ℕ) :
    let honest := (logSession w ops).2
    let truncated := honest.withLogs ⟨honest.db.auditLogs.rows.take k, honest.db.auditLogs.seq⟩
    w.db.auditLogs.rows = [] → k < honest.db.auditLogs.rows.length → IdealHash honest.db.auditLogs.rows →
      (Reported (logSession truncated later).2 ↔ 0 < k ∧ NoneAppends truncated later) := by
  intro honest truncated hempty hk hideal
  obtain ⟨h, hs, hhead⟩ : LogHonest honest.db := honest_session hempty ops
  have hstored : AuditRepository.HeadStored truncated.db h := hhead (List.ne_nil_of_length_pos (Nat.zero_lt_of_lt hk))
  obtain ⟨q, hq⟩ : ∃ q, LogSound truncated.db q := hs.take k _
  have hrows : truncated.db.auditLogs.rows = honest.db.auditLogs.rows.take k := rfl
  have hne : h ≠ q := by
    -- a hash says how many rows there were
    rintro rfl
    have hmem : ∀ r ∈ honest.db.auditLogs.rows ++ truncated.db.auditLogs.rows, r ∈ honest.db.auditLogs.rows := by
      intro r hr
      exact (List.mem_append.mp hr).elim id List.mem_of_mem_take
    have heq := congrArg List.length (hs.content_eq
      ⟨fun r hr r' hr' => hideal.injective r (hmem r hr) r' (hmem r' hr'),
        fun r hr => hideal.ne_genesis r (hmem r hr)⟩ hq.linked)
    rw [List.length_map, List.length_map, hrows, List.length_take] at heq
    omega
  have hpos : truncated.db.auditLogs.rows ≠ [] ↔ 0 < k := by
    rw [hrows, ← List.length_pos_iff, List.length_take]
    omega
  rcases later_session hq later with ⟨hsame, hnone⟩ | ⟨hsome, q', hq', hstored'⟩
  · have hsound : LogSound (logSession truncated later).2.db q := by rwa [hsame]
    have hold : AuditRepository.HeadStored (logSession truncated later).2.db h := by rwa [hsame]
    rw [hsound.reported_iff_ne_nil hold hne, hsame, hpos]
    exact ⟨fun hk => ⟨hk, hnone⟩, fun hk => hk.1⟩
  · exact ⟨fun hr => absurd hr (hq'.not_reported hstored'), fun hno => absurd hno.2 hsome⟩

end Tamper

/-! ### Logs on the sample platform -/

section Sample

attribute [local instance] samplePlatform
attribute [local irreducible] logSession

/-- The sample hash is ideal: it is what is hashed, in hexadecimal digits. -/
theorem samplePlatform_idealHash (rows : List AuditLog) : IdealHash rows where
  injective _ _ _ _ _ _ _ _ h := flatMap_hexByte_inj (ofChars_inj h)
  ne_genesis r _ m hm h := by
    -- the bar in what is hashed is not a zero
    have hzero : m = List.replicate 32 0 := flatMap_hexByte_inj (ofChars_inj h)
    obtain ⟨t, -, ht⟩ := bind_eq_ok.mp hm
    cases henc : utf8Encode (formatValue r.prevHash ++ py "|" ++ t) with
    | none =>
      rw [henc] at ht
      cases ht
    | some b =>
      obtain ⟨cs, hcs, rfl⟩ := utf8Encode_eq_some_iff.mp henc
      rw [henc] at ht
      simp only [pure_eq_ok, Except.ok.injEq] at ht
      have hbar : PyChar.scalar '|' ∈ ofChars cs := by
        rw [← hcs]
        simp [py, ofChars]
      obtain ⟨c, hc, hcbar⟩ := List.mem_map.mp hbar
      obtain rfl := PyChar.scalar.inj hcbar
      have hbyte : (124 : UInt8) ∈ m := by
        rw [← ht]
        exact List.mem_flatMap.mpr ⟨'|', hc, by decide⟩
      rw [hzero] at hbyte
      exact absurd (List.eq_of_mem_replicate hbyte) (by decide)

/-- An occurrence. -/
def sampleOccurrence : AuditRepository.Occurrence :=
  ⟨some (py "a@b.c"), AuditRepository.accessDenied, py "kv_path", py "secret/d@e.f/x", py "DENIED"⟩

/-- The state of a vault before anything is logged. -/
def sampleUnlogged : World := .fresh fun _ => none

/-- Two calls of `log`. -/
def sampleLogOps : List LogOp := [.log sampleOccurrence, .log sampleOccurrence]

/-- A log of two entries. -/
def sampleLogged : World := (logSession sampleUnlogged sampleLogOps).2

/-- The log without its first entry. -/
def sampleBeheaded : World := sampleLogged.withLogs ⟨sampleLogged.db.auditLogs.rows.drop 1, 2⟩

/-- The log without its last entry, and with another one behind it. -/
def sampleHealed : World :=
  (logSession (sampleLogged.withLogs ⟨sampleLogged.db.auditLogs.rows.take 1, sampleLogged.db.auditLogs.seq⟩)
    [.log sampleOccurrence]).2

/-- Whether `verify` finds the log valid. -/
def foundValid (w : World) : Bool :=
  match (AuditRepository.verify.run w).1 with
  | .ok report => report.valid
  | .error _ => false

/-- The equivalence, where the first of two entries is deleted. -/
theorem tampering_detected_sample :
    Reported sampleBeheaded ↔ sampleLogged.db.auditLogs.rows.drop 1 ≠ [] ∧
      (∀ row ∈ sampleLogged.db.auditLogs.rows.drop 1, Fetchable row.cells) ∧
        ¬ RaisesIn 0 genesisHash sampleBeheaded.db.selectLogs := by
  have hdiffer : sampleBeheaded.db.selectLogs.map AuditLog.content ≠ sampleLogged.db.selectLogs.map AuditLog.content := by
    decide +kernel
  have hempty : sampleUnlogged.db.auditLogs.rows = [] := rfl
  have hne : sampleLogged.db.auditLogs.rows ≠ [] := by decide +kernel
  exact tampering_detected_iff sampleUnlogged sampleLogOps ⟨sampleLogged.db.auditLogs.rows.drop 1, 2⟩ hempty hne
    (samplePlatform_idealHash _) hdiffer

/-- A log of two entries whose rows are all deleted is valid. -/
theorem empty_log_sample :
    sampleLogged.db.auditLogs.rows.length = 2 ∧ foundValid (sampleLogged.withLogs ⟨[], 2⟩) = true := by
  refine ⟨by decide +kernel, by decide +kernel⟩

/-- The equivalence, where the last of two entries is deleted and another one appended. -/
theorem truncation_detected_sample :
    Reported sampleHealed ↔ 0 < 1 ∧ NoneAppends (sampleLogged.withLogs
      ⟨sampleLogged.db.auditLogs.rows.take 1, sampleLogged.db.auditLogs.seq⟩) [.log sampleOccurrence] := by
  have hlen : 1 < sampleLogged.db.auditLogs.rows.length := by decide +kernel
  have hempty : sampleUnlogged.db.auditLogs.rows = [] := rfl
  exact truncation_detected_iff sampleUnlogged sampleLogOps [.log sampleOccurrence] 1 hempty hlen
    (samplePlatform_idealHash _)

/-- A log whose last entry is deleted is valid again after an entry is appended. -/
theorem healed_log_sample :
    sampleLogged.db.auditLogs.rows.length = 2 ∧ foundValid sampleHealed = true := by
  refine ⟨by decide +kernel, by decide +kernel⟩

end Sample

end MiniVault
