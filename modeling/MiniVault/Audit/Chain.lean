import MiniVault.Audit.Canonical
import MiniVault.Foundations.HashChain

/-!
# What the audit log holds and what verification accepts

Verification follows the hashes from row to row, and counts. `Intact` says that it comes
to the end of the rows; then only the stored head can still refuse them.

A log that only `log` wrote is `LogSound`: its rows are numbered in the order they were
written, and linked.

## What is proved

* `verifyRows_valid_iff` — the rows that verification accepts.
* `verifyRows_error_iff` — the rows it raises on.
* `run_log_eq_ok`, `run_log_ok`, `run_log_error` — what `log` does to a log that is sound:
  it appends one row and stores its hash as the head, exactly where the texts have UTF-8
  bytes and the table has room; elsewhere it changes nothing.
-/

namespace MiniVault

open Foundations

section Chain

variable [Platform]

/-! ### Verification -/

/-- The hash of a row that is linked to the hash `p`. -/
def linkRow (p : PyStr) (row : AuditLog) : Option PyStr :=
  if row.prevHash = .str p then
    match computeEntryHash (.str p) row.entry with
    | .ok e => if row.entryHash = .str e then some e else none
    | .error _ => none
  else none

theorem linkRow_eq_some {p h : PyStr} {row : AuditLog} :
    linkRow p row = some h ↔
      row.prevHash = .str p ∧ computeEntryHash (.str p) row.entry = .ok h ∧ row.entryHash = .str h := by
  unfold linkRow
  by_cases hp : row.prevHash = .str p
  · cases hc : computeEntryHash (.str p) row.entry with
    | error e => simp [hp]
    | ok e =>
      simp only [hp, ↓reduceIte, Option.ite_none_right_eq_some, Option.some.injEq, Except.ok.injEq, true_and]
      constructor
      · rintro ⟨he, rfl⟩
        exact ⟨rfl, he⟩
      · rintro ⟨rfl, he⟩
        exact ⟨he, rfl⟩
  · simp [hp]

/-- A hash that is computed is the digest of what is hashed. -/
theorem computeEntryHash_eq_ok {p : Value} {entry : Entry} {q : PyStr} :
    computeEntryHash p entry = .ok q ↔ ∃ m, hashMaterial p entry = .ok m ∧ hexdigest m = q := by
  unfold computeEntryHash
  cases hashMaterial p entry <;> simp [Except.map]

omit [Platform] in
/-- The rows are numbered on from `count`. -/
def NumberedFrom : ℕ → List AuditLog → Prop
  | _, [] => True
  | count, row :: rows => row.entry.sequence.eqInt (count + 1) ∧ NumberedFrom (count + 1) rows

/-- The rows are numbered on from `count` and linked on from the hash `p`, to the hash `h`. -/
def Intact (count : ℕ) (p : PyStr) (rows : List AuditLog) (h : PyStr) : Prop :=
  NumberedFrom count rows ∧ follow linkRow p rows = some h

theorem intact_cons {count : ℕ} {p h : PyStr} {row : AuditLog} {rows : List AuditLog} :
    Intact count p (row :: rows) h ↔
      row.entry.sequence.eqInt (count + 1) ∧ ∃ q, linkRow p row = some q ∧ Intact (count + 1) q rows h := by
  simp only [Intact, NumberedFrom, follow_cons, Option.bind_eq_some_iff]
  constructor
  · rintro ⟨⟨hseq, hnum⟩, q, hq, hrest⟩
    exact ⟨hseq, q, hq, hnum, hrest⟩
  · rintro ⟨hseq, q, hq, hnum, hrest⟩
    exact ⟨⟨hseq, hnum⟩, q, hq, hrest⟩

/-- The hash of the row cannot be computed, in the place it stands in. -/
def Raises (count : ℕ) (p : PyStr) (row : AuditLog) : Prop :=
  row.entry.sequence.eqInt (count + 1) ∧ row.prevHash = .str p ∧
    ∃ e, computeEntryHash (.str p) row.entry = .error e

/-- **What one row decides**: verification goes on behind it, raises on it, or reports it. -/
theorem verifyRows_cons (expected : Value) (count : ℕ) (p : PyStr) (row : AuditLog) (rows : List AuditLog) :
    (row.entry.sequence.eqInt (count + 1) ∧ ∃ q, linkRow p row = some q ∧
        verifyRows expected count p (row :: rows) = verifyRows expected (count + 1) q rows) ∨
      (Raises count p row ∧ ∃ e, verifyRows expected count p (row :: rows) = .error e) ∨
        (¬ (row.entry.sequence.eqInt (count + 1) ∧ (linkRow p row).isSome) ∧ ¬ Raises count p row ∧
          ∃ report, verifyRows expected count p (row :: rows) = .ok report ∧ report.valid = false) := by
  simp only [verifyRows]
  by_cases hseq : row.entry.sequence.eqInt (count + 1)
  · by_cases hprev : row.prevHash = .str p
    · simp only [hseq, hprev, Bool.not_true, Bool.false_eq_true, ↓reduceIte, ne_eq, not_true_eq_false, Raises]
      cases hc : computeEntryHash (.str p) row.entry with
      | error e => exact .inr (.inl ⟨⟨trivial, trivial, e, rfl⟩, e, rfl⟩)
      | ok q =>
        by_cases hentry : row.entryHash = .str q
        · refine .inl ⟨trivial, q, linkRow_eq_some.mpr ⟨hprev, hc, hentry⟩, ?_⟩
          simp [hentry]
        · refine .inr (.inr ⟨?_, by simp, ?_⟩)
          · simp [linkRow, hprev, hc, hentry]
          · exact ⟨_, by simp [hentry]; rfl, rfl⟩
    · refine .inr (.inr ⟨by simp [linkRow, hprev], fun hr => hprev hr.2.1, ?_⟩)
      exact ⟨_, by simp [hseq, hprev]; rfl, rfl⟩
  · refine .inr (.inr ⟨fun h => hseq h.1, fun hr => hseq hr.1, ?_⟩)
    exact ⟨_, by simp [hseq]; rfl, rfl⟩

/-- **What verification accepts**: rows that are intact, and end at the expected head. -/
theorem verifyRows_valid_iff {expected : Value} {count : ℕ} {p : PyStr} {rows : List AuditLog} :
    (∃ report, verifyRows expected count p rows = .ok report ∧ report.valid = true) ↔
      ∃ h, Intact count p rows h ∧ (expected = .none ∨ expected = .str h) := by
  induction rows generalizing count p with
  | nil =>
    simp only [verifyRows, Intact, NumberedFrom, follow_nil, Option.some.injEq, true_and, exists_eq_left']
    split_ifs with h
    · simp only [Except.ok.injEq, exists_eq_left', Bool.false_eq_true, false_iff]
      exact not_or.mpr h
    · simp only [Except.ok.injEq, exists_eq_left', true_iff]
      by_contra hno
      exact h (not_or.mp hno)
  | cons row rows ih =>
    simp only [intact_cons]
    rcases verifyRows_cons expected count p row rows with ⟨hseq, q, hq, heq⟩ | ⟨⟨-, -, e, hc⟩, e', heq⟩ |
      ⟨hnot, -, report, heq, hvalid⟩
    · rw [heq, ih]
      simp [hseq, hq]
    · constructor
      · rintro ⟨report, hr, -⟩
        rw [heq] at hr
        cases hr
      · rintro ⟨h, ⟨-, q, hq, -⟩, -⟩
        rw [(linkRow_eq_some.mp hq).2.1] at hc
        cases hc
    · constructor
      · rintro ⟨r, hr, hv⟩
        rw [heq] at hr
        obtain rfl := Except.ok.inj hr
        rw [hvalid] at hv
        cases hv
      · rintro ⟨h, ⟨hseq, q, hq, -⟩, -⟩
        exact absurd ⟨hseq, by rw [hq]; rfl⟩ hnot

/-- A row behind an intact beginning that verification raises on. -/
def RaisesIn (count : ℕ) (p : PyStr) (rows : List AuditLog) : Prop :=
  ∃ front row back q, rows = front ++ row :: back ∧ Intact count p front q ∧ Raises (count + front.length) q row

/-- **What verification raises on.** -/
theorem verifyRows_error_iff {expected : Value} {count : ℕ} {p : PyStr} {rows : List AuditLog} :
    (∃ e, verifyRows expected count p rows = .error e) ↔ RaisesIn count p rows := by
  induction rows generalizing count p with
  | nil =>
    constructor
    · rintro ⟨e, he⟩
      simp only [verifyRows] at he
      split_ifs at he
    · rintro ⟨front, row, back, -, hrows, -⟩
      simp at hrows
  | cons row rows ih =>
    rcases verifyRows_cons expected count p row rows with ⟨hseq, q, hq, heq⟩ | ⟨hr, e', heq⟩ |
      ⟨hnot, hr, report, heq, -⟩
    · rw [heq, ih]
      constructor
      · rintro ⟨front, r, back, h, rfl, hin, hr⟩
        refine ⟨row :: front, r, back, h, rfl, intact_cons.mpr ⟨hseq, q, hq, hin⟩, ?_⟩
        rwa [List.length_cons, Nat.add_comm front.length 1, ← Nat.add_assoc]
      · rintro ⟨front, r, back, h, hrows, hin, hr⟩
        cases front with
        | nil =>
          obtain ⟨rfl, rfl⟩ := List.cons.inj hrows
          obtain rfl : p = h := Option.some.inj hin.2
          obtain ⟨-, -, e, he⟩ := hr
          rw [(linkRow_eq_some.mp hq).2.1] at he
          cases he
        | cons f front =>
          obtain ⟨rfl, rfl⟩ := List.cons.inj hrows
          obtain ⟨-, q', hq', hin⟩ := intact_cons.mp hin
          obtain rfl := Option.some.inj (hq.symm.trans hq')
          refine ⟨front, r, back, h, rfl, hin, ?_⟩
          rwa [List.length_cons, Nat.add_comm front.length 1, ← Nat.add_assoc] at hr
    · exact ⟨fun _ => ⟨[], row, rows, p, rfl, ⟨trivial, rfl⟩, by simpa using hr⟩, fun _ => ⟨e', heq⟩⟩
    · constructor
      · rintro ⟨e, he⟩
        rw [heq] at he
        cases he
      · rintro ⟨front, r, back, h, hrows, hin, hraise⟩
        cases front with
        | nil =>
          obtain ⟨rfl, rfl⟩ := List.cons.inj hrows
          obtain rfl : p = h := Option.some.inj hin.2
          exact absurd (by simpa using hraise) hr
        | cons f front =>
          obtain ⟨rfl, rfl⟩ := List.cons.inj hrows
          obtain ⟨hseq, q, hq, -⟩ := intact_cons.mp hin
          exact absurd ⟨hseq, by rw [hq]; rfl⟩ hnot

/-! ### A log that only `log` wrote -/

/-- The log is numbered in the order it was written, and linked up to the hash `h`. -/
structure LogSound (db : Database) (h : PyStr) : Prop where
  /-- The rows are numbered by their places. -/
  numbered : ∀ (i : ℕ) row, db.auditLogs.rows[i]? = some row → row.entry.sequence = .int (i + 1)
  /-- The rows are linked. -/
  linked : follow linkRow genesisHash db.auditLogs.rows = some h
  /-- The columns hold what the code puts there. -/
  plain : ∀ row ∈ db.auditLogs.rows, row.entry.Plain

omit [Platform] in
theorem numberedFrom_iff {count : ℕ} {rows : List AuditLog} :
    NumberedFrom count rows ↔ ∀ (i : ℕ) row, rows[i]? = some row → row.entry.sequence.eqInt (count + i + 1) := by
  induction rows generalizing count with
  | nil => simp [NumberedFrom]
  | cons row rows ih =>
    rw [NumberedFrom, ih]
    constructor
    · rintro ⟨hhead, hrest⟩ i r hr
      cases i with
      | zero =>
        obtain rfl := Option.some.inj hr
        simpa using hhead
      | succ i =>
        have := hrest i r hr
        push_cast at this ⊢
        rwa [add_assoc (count : ℤ) 1 i, add_comm (1 : ℤ) i] at this
    · intro h
      refine ⟨by simpa using h 0 row rfl, fun i r hr => ?_⟩
      have := h (i + 1) r hr
      push_cast at this ⊢
      rwa [add_assoc (count : ℤ) 1 i, add_comm (1 : ℤ) i]

variable {db : Database} {h : PyStr}

/-- The hash rows are linked up to has UTF-8 bytes, and no bar. -/
theorem good_of_linked {rows : List AuditLog} {h : PyStr} (hlinked : follow linkRow genesisHash rows = some h) :
    Encodable h ∧ PyChar.scalar '|' ∉ h := by
  refine follow_good (P := fun h => Encodable h ∧ PyChar.scalar '|' ∉ h) ⟨by decide, by decide⟩ ?_ hlinked
  intro p row q hq
  obtain ⟨m, -, rfl⟩ := computeEntryHash_eq_ok.mp (linkRow_eq_some.mp hq).2.1
  exact ⟨encodable_ofChars _, bar_notMem_hexdigest m⟩

/-- So has the hash a sound log ends at. -/
theorem LogSound.head (hs : LogSound db h) : Encodable h ∧ PyChar.scalar '|' ∉ h := good_of_linked hs.linked

theorem LogSound.intact (hs : LogSound db h) : Intact 0 genesisHash db.auditLogs.rows h := by
  refine ⟨numberedFrom_iff.mpr fun i row hrow => ?_, hs.linked⟩
  rw [hs.numbered i row hrow]
  simp [Value.eqInt]

omit [Platform] in
/-- Rows that are numbered by their places stand in strict order. -/
theorem pairwise_of_numbered {rows : List AuditLog}
    (h : ∀ (i : ℕ) row, rows[i]? = some row → row.entry.sequence = .int (i + 1)) :
    rows.Pairwise fun a b => ∃ m n : ℤ, a.entry.sequence = .int m ∧ b.entry.sequence = .int n ∧ m < n := by
  rw [List.pairwise_iff_getElem]
  intro i j hi hj hij
  exact ⟨_, _, h i _ (List.getElem?_eq_getElem hi), h j _ (List.getElem?_eq_getElem hj), by omega⟩

omit [Platform] in
/-- They are selected in this order. -/
theorem selectLogs_of_numbered {db : Database}
    (h : ∀ (i : ℕ) row, db.auditLogs.rows[i]? = some row → row.entry.sequence = .int (i + 1)) :
    db.selectLogs = db.auditLogs.rows := by
  refine List.Pairwise.insertionSort_eq ((pairwise_of_numbered h).imp ?_)
  rintro a b ⟨m, n, ha, hb, hmn⟩
  rw [ha, hb]
  simpa using hmn.le

omit [Platform] in
theorem Value.Plain.decodes {v : Value} (h : v.Plain) : v.decodes = true := by
  cases v <;> first | rfl | cases h

/-- What stands in a sound log can be fetched. -/
theorem LogSound.fetchable (hs : LogSound db h) : ∀ row ∈ db.auditLogs.rows, Fetchable row.cells := by
  intro row hrow
  obtain ⟨front, back, hsplit⟩ := List.append_of_mem hrow
  have hlinked := hs.linked
  rw [hsplit, follow_append, Option.bind_eq_some_iff] at hlinked
  obtain ⟨p, -, hlinked⟩ := hlinked
  rw [follow_cons, Option.bind_eq_some_iff] at hlinked
  obtain ⟨q, hlink, -⟩ := hlinked
  obtain ⟨hprev, -, hhash⟩ := linkRow_eq_some.mp hlink
  have hplain := hs.plain row hrow
  simp only [Entry.Plain, Entry.members, List.mem_cons, List.not_mem_nil, or_false, forall_eq_or_imp, forall_eq] at hplain
  obtain ⟨haction, hcreated, hrequester, hresult, hsequence, hidentifier, htype⟩ := hplain
  intro v hv
  simp only [AuditLog.cells, hprev, hhash, List.mem_cons, List.not_mem_nil, or_false] at hv
  rcases hv with rfl | rfl | rfl | rfl | rfl | rfl | rfl | rfl | rfl
  · exact hsequence.decodes
  · exact hrequester.decodes
  · exact haction.decodes
  · exact htype.decodes
  · exact hidentifier.decodes
  · exact hresult.decodes
  · exact hcreated.decodes
  · rfl
  · rfl

/-- The rows stand in strict order. -/
theorem LogSound.pairwise (hs : LogSound db h) :
    db.auditLogs.rows.Pairwise fun a b => ∃ m n : ℤ, a.entry.sequence = .int m ∧ b.entry.sequence = .int n ∧ m < n :=
  pairwise_of_numbered hs.numbered

theorem LogSound.selectLogs_eq (hs : LogSound db h) : db.selectLogs = db.auditLogs.rows :=
  selectLogs_of_numbered hs.numbered

theorem LogSound.selectHead_eq (hs : LogSound db h) : db.selectHead = db.auditLogs.rows.getLast? := by
  unfold Database.selectHead
  rw [insertionSort_eq_reverse, List.head?_reverse]
  apply hs.pairwise.imp
  rintro a b ⟨m, n, ha, hb, hmn⟩
  rw [ha, hb]
  simpa using hmn

theorem LogSound.fetchable_head (hs : LogSound db h) : Fetchable (fetchone AuditLog.headCells db.selectHead) := by
  rw [fetchable_fetchone, hs.selectHead_eq]
  intro row hrow
  apply (hs.fetchable row (List.mem_of_getLast? hrow)).subset
  simp [AuditLog.headCells, AuditLog.cells]

/-- The next entry follows the last row. -/
theorem LogSound.next (hs : LogSound db h) :
    AuditRepository.nextSequence db.selectHead = .ok (db.auditLogs.rows.length + 1) ∧
      AuditRepository.previousHash db.selectHead = .str h := by
  rw [hs.selectHead_eq]
  rcases db.auditLogs.rows.eq_nil_or_concat with hnil | ⟨front, last, hconcat⟩
  · have hlinked := hs.linked
    rw [hnil] at hlinked ⊢
    obtain rfl := Option.some.inj hlinked
    exact ⟨rfl, rfl⟩
  · rw [List.concat_eq_append] at hconcat
    have hlinked := hs.linked
    have hnumber := hs.numbered front.length last (by rw [hconcat]; simp)
    rw [hconcat] at hlinked ⊢
    obtain ⟨p, -, hlast⟩ := follow_concat.mp hlinked
    rw [List.getLast?_concat]
    refine ⟨?_, (linkRow_eq_some.mp hlast).2.2⟩
    simp [AuditRepository.nextSequence, hnumber, Except.map]

/-! ### Logging -/

namespace AuditRepository

/-- The texts of an occurrence have UTF-8 bytes. -/
def Occurrence.Encodable (o : Occurrence) : Prop :=
  (∀ e ∈ o.requesterEmail, Foundations.Encodable e) ∧ Foundations.Encodable o.action ∧
    Foundations.Encodable o.targetType ∧ Foundations.Encodable o.targetIdentifier ∧ Foundations.Encodable o.result

omit [Platform] in
theorem Occurrence.plain (o : Occurrence) (sequence : ℤ) (now : PyStr) : (o.entry sequence now).Plain := by
  obtain ⟨requester, _, _, _, _⟩ := o
  cases requester <;> simp [Entry.Plain, Entry.members, Occurrence.entry, Value.Plain]

omit [Platform] in
/-- A JSON string has UTF-8 bytes where the text has. -/
theorem encodable_jsonString {s : PyStr} (hs : Foundations.Encodable s) : Foundations.Encodable (jsonString s) := by
  obtain ⟨cs, rfl⟩ := (encodable_iff s).mp hs
  have hesc : Foundations.Encodable ((ofChars cs).flatMap jsonEscape) := by
    intro c hc
    obtain ⟨d, hd, hc⟩ := List.mem_flatMap.mp hc
    obtain ⟨d, -, rfl⟩ := List.mem_map.mp hd
    have hone : Foundations.Encodable (jsonEscape (.scalar d)) := by
      simp only [jsonEscape]
      split_ifs <;>
        first
        | exact encodable_ofChars [d]
        | simp
    exact hone c hc
  simp [jsonString, hesc]

/-- A flat object has an encoding with UTF-8 bytes where its members have. -/
theorem dumpsFlat_encodable {ms : List (String × Value)}
    (h : ∀ m ∈ ms, ∃ t, dumpsValue m.2 = .ok t ∧ Foundations.Encodable t) :
    ∃ t, dumpsFlat ms = .ok t ∧ Foundations.Encodable t := by
  induction ms with
  | nil => exact ⟨[], rfl, encodable_nil⟩
  | cons m ms ih =>
    obtain ⟨t, ht, hte⟩ := h m (by simp)
    obtain ⟨ts, hts, htse⟩ := ih fun m hm => h m (by simp [hm])
    obtain ⟨k, v⟩ := m
    refine ⟨_, by simp only [dumpsFlat, ht, hts, ok_bind]; rfl, ?_⟩
    cases ms.isEmpty <;> simp [encodable_jsonString, hte, htse]

/-- An entry can be hashed where its members are dumped to texts that have UTF-8 bytes. -/
theorem hashable {entry : Entry} (h : ∀ m ∈ entry.members, ∃ t, dumpsValue m.2 = .ok t ∧ Foundations.Encodable t)
    {p : PyStr} (hp : Foundations.Encodable p) : ∃ q, computeEntryHash (.str p) entry = .ok q := by
  obtain ⟨t, ht, hte⟩ := dumpsFlat_encodable h
  have henc : Foundations.Encodable (formatValue (.str p) ++ py "|" ++ (py "\x7b" ++ t ++ py "\x7d")) := by
    simp [hp, hte]
  obtain ⟨m, hm⟩ := Option.isSome_iff_exists.mp ((utf8Encode_isSome_iff _).mpr henc)
  refine ⟨hexdigest m, ?_⟩
  simp only [computeEntryHash, hashMaterial, canonical, ht, Except.map, ok_bind, hm, pure_eq_ok]

/-- An entry whose texts have UTF-8 bytes can be hashed. -/
theorem entry_hashable {o : Occurrence} (ho : o.Encodable) {sequence : ℤ} (hseq : Fits sequence) {now p : PyStr}
    (hnow : Foundations.Encodable now) (hp : Foundations.Encodable p) :
    ∃ q, computeEntryHash (.str p) (o.entry sequence now) = .ok q := by
  obtain ⟨hrequester, haction, htype, hid, hresult⟩ := ho
  have hstr : ∀ {u : PyStr}, Foundations.Encodable u →
      ∃ t, dumpsValue (.str u) = .ok t ∧ Foundations.Encodable t := fun hu => ⟨_, rfl, encodable_jsonString hu⟩
  have hmembers : ∀ m ∈ (o.entry sequence now).members, ∃ t, dumpsValue m.2 = .ok t ∧ Foundations.Encodable t := by
    simp only [Entry.members, Occurrence.entry, List.mem_cons, List.not_mem_nil, or_false]
    rintro m (rfl | rfl | rfl | rfl | rfl | rfl | rfl)
    · exact hstr haction
    · exact hstr hnow
    · cases hr : o.requesterEmail with
      | none => exact ⟨_, rfl, encodable_py _⟩
      | some e => exact hstr (hrequester e hr)
    · exact hstr hresult
    · exact ⟨_, intRepr_of_fits hseq, encodable_decimal _⟩
    · exact hstr hid
    · exact hstr htype
  exact hashable hmembers hp

omit [Platform] in
/-- The table can take another row: there is a number and an identifier for it. -/
def HasRoom (db : Database) : Prop :=
  Fits (db.auditLogs.rows.length + 1) ∧ ∃ id, db.auditLogs.nextId AuditLog.id = .ok id

/-- The row for the occurrence is not too long; its digests have the 64 digits of the first one. -/
def Occurrence.RowFits (o : Occurrence) (db : Database) (now : PyStr) : Prop :=
  recordLength ((o.entry (db.auditLogs.rows.length + 1) now).cells ++ [.str genesisHash, .str genesisHash]) ≤ maxLength

omit [Platform] in
/-- The stored head is the hash. -/
def HeadStored (db : Database) (h : PyStr) : Prop :=
  (db.selectMetadata headKey).map SchemaMetadata.value = some (.str h)

omit [Platform] in
theorem headStored_replaceMetadata (db : Database) (h : PyStr) : HeadStored (db.replaceMetadata headKey (.str h)) h := by
  unfold HeadStored Database.selectMetadata Database.replaceMetadata
  rw [List.find?_append, List.find?_eq_none.mpr]
  · simp
  · intro m hm
    simpa using (List.mem_filter.mp hm).2

/-- The row `log` appends to `n` rows, behind the hash `h`. -/
def rowOf (o : Occurrence) (n : ℕ) (now : PyStr) (id : ℤ) (h q : PyStr) : AuditLog :=
  ⟨id, o.entry (n + 1) now, .str h, .str q⟩

/-- The database with the row, and its hash as the head. -/
def logged (db : Database) (row : AuditLog) (q : PyStr) : Database :=
  Database.replaceMetadata { db with auditLogs := ⟨db.auditLogs.rows ++ [row], row.id⟩ } headKey (.str q)

/-- A row that follows keeps the log sound. -/
theorem logged_sound (hs : LogSound db h) {o : Occurrence} {now q : PyStr} {id : ℤ}
    (hq : computeEntryHash (.str h) (o.entry (db.auditLogs.rows.length + 1) now) = .ok q) :
    LogSound (logged db (rowOf o db.auditLogs.rows.length now id h q) q) q where
  numbered := by
    intro i row hrow
    change (db.auditLogs.rows ++ [_])[i]? = some row at hrow
    rcases lt_or_ge i db.auditLogs.rows.length with hlt | hge
    · rw [List.getElem?_append_left hlt] at hrow
      exact hs.numbered i row hrow
    · obtain ⟨hi, hget⟩ := List.getElem?_eq_some_iff.mp hrow
      rw [List.length_append, List.length_singleton] at hi
      obtain rfl : i = db.auditLogs.rows.length := by omega
      rw [List.getElem_concat_length rfl] at hget
      rw [← hget]
      rfl
  linked := follow_concat.mpr ⟨h, hs.linked, linkRow_eq_some.mpr ⟨rfl, hq, rfl⟩⟩
  plain := by
    intro row hrow
    rcases List.mem_append.mp hrow with hrow | hrow
    · exact hs.plain row hrow
    · obtain rfl := List.mem_singleton.mp hrow
      exact o.plain _ _

/-- **What a transaction of `log` that commits does** to a log that is sound. -/
theorem run_append_eq_ok {o : Occurrence} {now : PyStr} {w w' : World} {u : Unit} (hs : LogSound w.db h)
    (hrun : (append o now).run w = (.ok u, w')) :
    o.Encodable ∧ HasRoom w.db ∧ o.RowFits w.db now ∧ ∃ id q,
      computeEntryHash (.str h) (o.entry (w.db.auditLogs.rows.length + 1) now) = .ok q ∧
        w' = { w with
          db := logged w.db (rowOf o w.db.auditLogs.rows.length now id h q) q } := by
  obtain ⟨hnext, hprev⟩ := hs.next
  obtain ⟨head, _, hquery, hrun⟩ := Prog.run_bind_eq_ok.mp hrun
  obtain ⟨-, -, rfl, rfl⟩ := run_query_eq_ok.mp hquery
  obtain ⟨sequence, _, hnumber, hrun⟩ := Prog.run_bind_eq_ok.mp hrun
  obtain ⟨hseq, rfl⟩ := Prog.run_done_eq_ok.mp hnumber
  obtain rfl := Except.ok.inj (hnext.symm.trans hseq)
  obtain ⟨q, _, hhash, hrun⟩ := Prog.run_bind_eq_ok.mp hrun
  obtain ⟨hq, rfl⟩ := Prog.run_done_eq_ok.mp hhash
  rw [hprev] at hq hrun
  obtain ⟨_, _, hinsert, hhead⟩ := Prog.run_bind_eq_ok.mp hrun
  obtain ⟨hbind, db', hdb', rfl⟩ := run_execute_eq_ok.mp hinsert
  obtain ⟨-, db'', hdb'', rfl⟩ := run_execute_eq_ok.mp hhead
  obtain ⟨-, rfl⟩ := Prod.mk.inj (Except.ok.inj hdb'')
  have hbound := bindAll_eq_ok hbind
  obtain ⟨hrow, hdb'⟩ := limitRow_eq_ok.mp hdb'
  simp only [Database.insertLog] at hdb'
  split_ifs at hdb' with hunique
  · simp [Except.map] at hdb'
  · cases hid : w.db.auditLogs.nextId AuditLog.id with
    | error e => simp [hid, Except.map] at hdb'
    | ok id =>
      simp only [hid, ok_bind, pure_eq_ok, Except.map, Except.ok.injEq, Prod.mk.injEq, true_and] at hdb'
      subst hdb'
      refine ⟨⟨fun e he => ?_, ?_, ?_, ?_, ?_⟩, ⟨?_, id, hid⟩, hrow, id, q, hq, rfl⟩
      · have hr := hbound (o.entry (w.db.auditLogs.rows.length + 1) now).requesterEmail (by simp [Entry.cells])
        simp only [Occurrence.entry, Option.mem_def.mp he] at hr
        exact ((bindValue_str_iff e).mp hr).1
      · exact ((bindValue_str_iff _).mp (hbound (.str o.action) (by simp [Occurrence.entry, Entry.cells]))).1
      · exact ((bindValue_str_iff _).mp (hbound (.str o.targetType) (by simp [Occurrence.entry, Entry.cells]))).1
      · exact ((bindValue_str_iff _).mp (hbound (.str o.targetIdentifier) (by simp [Occurrence.entry, Entry.cells]))).1
      · exact ((bindValue_str_iff _).mp (hbound (.str o.result) (by simp [Occurrence.entry, Entry.cells]))).1
      · exact (bindValue_int_iff _).mp
          (hbound (.int (w.db.auditLogs.rows.length + 1)) (by simp [Occurrence.entry, Entry.cells]))

/-- **What a call of `log` that succeeds does** to a log that is sound. -/
theorem run_log_eq_ok {o : Occurrence} {w w' : World} {u : Unit} (hs : LogSound w.db h)
    (hrun : (log o).run w = (.ok u, w')) :
    o.Encodable ∧ HasRoom w.db ∧ o.RowFits w.db (isoformat w.clock) ∧ ∃ id q,
      computeEntryHash (.str h) (o.entry (w.db.auditLogs.rows.length + 1) (isoformat w.clock)) = .ok q ∧
        w' = { w with
          db := logged w.db (rowOf o w.db.auditLogs.rows.length (isoformat w.clock) id h q) q } := by
  obtain ⟨now, _, hnow, hrun⟩ := Prog.run_bind_eq_ok.mp hrun
  simp only [run_now, Prod.mk.injEq, Except.ok.injEq] at hnow
  obtain ⟨rfl, rfl⟩ := hnow
  exact run_append_eq_ok hs (run_connection_eq_ok.mp hrun)

omit [Platform] in
/-- The parameters of the insert can be bound. -/
theorem Occurrence.Encodable.bindAll_cells {o : Occurrence} (ho : o.Encodable) {db : Database} {now : PyStr}
    (hrow : o.RowFits db now) (hseq : Fits (db.auditLogs.rows.length + 1)) (hnow : Foundations.Encodable now) :
    bindAll (o.entry (db.auditLogs.rows.length + 1) now).cells = .ok () := by
  obtain ⟨hrequester, haction, htype, htarget, hresult⟩ := ho
  have htext : ∀ {s : PyStr}, Foundations.Encodable s →
      .str s ∈ (o.entry (db.auditLogs.rows.length + 1) now).cells → bindValue (.str s) = .ok () := fun hs hmem =>
    bindValue_str (bindable_of_row hrow (List.mem_append_left _ hmem) hs)
  apply bindAll_ok
  simp only [Occurrence.entry, Entry.cells, List.mem_cons, List.not_mem_nil, or_false] at htext ⊢
  rintro v (rfl | rfl | rfl | rfl | rfl | rfl | rfl)
  · exact bindValue_int hseq
  · cases hr : o.requesterEmail with
    | none => rfl
    | some e => exact htext (hrequester e hr) (by simp [hr])
  · exact htext haction (by simp)
  · exact htext htype (by simp)
  · exact htext htarget (by simp)
  · exact htext hresult (by simp)
  · exact htext hnow (by simp)

/-- The next number is not taken. -/
theorem insertLog_ok (hs : LogSound db h) {entry : Entry} {p q : Value} {id : ℤ}
    (hseq : entry.sequence = .int (db.auditLogs.rows.length + 1))
    (hid : db.auditLogs.nextId AuditLog.id = .ok id) :
    db.insertLog entry p q = .ok { db with auditLogs := ⟨db.auditLogs.rows ++ [⟨id, entry, p, q⟩], id⟩ } := by
  have hunique : ¬ db.auditLogs.rows.any fun r => r.entry.sequence.sqlEq entry.sequence := by
    rw [List.any_eq_true, hseq]
    rintro ⟨r, hr, heq⟩
    obtain ⟨i, hi⟩ := List.getElem?_of_mem hr
    have hlt := (List.getElem?_eq_some_iff.mp hi).1
    rw [hs.numbered i r hi, Value.sqlEq_int, decide_eq_true_eq, Value.int.injEq] at heq
    omega
  simp only [Database.insertLog, hunique, Bool.false_eq_true, ↓reduceIte, hid, ok_bind, pure_eq_ok]

/-- Where the texts have UTF-8 bytes, and the table has room for the row, the transaction commits. -/
theorem run_append_ok {o : Occurrence} {now : PyStr} {w : World} (hs : LogSound w.db h) (ho : o.Encodable) (hroom : HasRoom w.db)
    (hrow : o.RowFits w.db now) (hnow : Foundations.Encodable now) : ∃ w', (append o now).run w = (.ok (), w') := by
  obtain ⟨hnext, hprev⟩ := hs.next
  have hh := hs.head.1
  obtain ⟨hfits, id, hid⟩ := hroom
  obtain ⟨q, hq⟩ := entry_hashable ho hfits hnow hh
  refine ⟨{ w with db := logged w.db (rowOf o w.db.auditLogs.rows.length now id h q) q }, ?_⟩
  refine Prog.run_bind_eq_ok.mpr ⟨_, w, run_query_eq_ok.mpr ⟨bindAll_nil, hs.fetchable_head, rfl, rfl⟩, ?_⟩
  refine Prog.run_bind_eq_ok.mpr ⟨_, w, Prog.run_done_eq_ok.mpr ⟨hnext, rfl⟩, ?_⟩
  rw [hprev]
  refine Prog.run_bind_eq_ok.mpr ⟨q, w, Prog.run_done_eq_ok.mpr ⟨hq, rfl⟩, ?_⟩
  refine Prog.run_bind_eq_ok.mpr ⟨(), _, run_execute_eq_ok.mpr ⟨ho.bindAll_cells hrow hfits hnow, _,
    limitRow_eq_ok.mpr ⟨hrow, by rw [insertLog_ok hs rfl hid]; rfl⟩, rfl⟩, ?_⟩
  have hkey : Bindable headKey := by decide +kernel
  exact run_execute_eq_ok.mpr ⟨bindAll_ok (by simp [bindValue_str hkey]), _, rfl, rfl⟩

/-- Where the texts have UTF-8 bytes, and the table has room for the row, the call succeeds. -/
theorem run_log_ok {o : Occurrence} {w : World} (hs : LogSound w.db h) (ho : o.Encodable) (hroom : HasRoom w.db)
    (hrow : o.RowFits w.db (isoformat w.clock)) : ∃ w', (log o).run w = (.ok (), w') := by
  obtain ⟨w', hrun⟩ := run_append_ok hs ho hroom hrow (encodable_isoformat w.clock)
  exact ⟨w', Prog.run_bind_eq_ok.mpr ⟨_, w, run_now w, run_connection_eq_ok.mpr hrun⟩⟩

/-- A call that fails changes nothing. -/
theorem run_log_error {o : Occurrence} {w w' : World} {e : Exc} (hrun : (log o).run w = (.error e, w')) : w' = w := by
  have hfail : FailKeeps (fun w : World => w) (log o) :=
    .bind .now fun now => .connection (g := World.besideLog) (append_keeps o now) fun w w' h => ?_
  · exact hfail w e w' hrun
  · simp only [World.besideLog, World.mk.injEq] at h
    obtain ⟨hdek, hdummy, hpath, hconfig, htemp, henv, -, hclock, hsealed, hsigned⟩ := h
    cases w
    cases w'
    simp_all

end AuditRepository

end Chain

end MiniVault
