import MiniVault.Audit.Localization

/-!
# Audit logs with any cells

SQLite does not hold columns to their types: whoever writes to the file can put a blob into
a column of text, and text, a blob or a number with a fraction into `sequence`; and its text
need not be UTF-8. `verify` fetches what is there, where such text raises. Of the cells it is then
given, `json.dumps` refuses the blobs.

## What is proved

* `raises_iff` — the hash of a row cannot be computed exactly where a hashed column holds a blob.
* `verify_reports` — `verify` reports on every log but those with text that is not UTF-8, and those in which a row
  with a blob continues an intact beginning; and it reports an honest log in which one hashed column of one row was
  changed, unless such text was put there, or a blob into a column of text.
-/

namespace MiniVault

open Foundations

/-! ### Cells of the table -/

/-- What a column of text lets through: affinity turns numbers into text. -/
def Value.inText (v : Value) : Bool :=
  match v with
  | .none => true
  | .str s => decide (Encodable s)
  | .undecodable _ => true
  | .blob _ => true
  | _ => false

/-- A row that satisfies the constraints of the columns. -/
structure AuditLog.Stored (row : AuditLog) : Prop where
  /-- `sequence INTEGER NOT NULL`. -/
  sequence : row.entry.sequence ≠ .none ∧ row.entry.sequence.Storable
  /-- `requester_email TEXT`. -/
  requesterEmail : row.entry.requesterEmail.inText
  /-- The others are `TEXT NOT NULL`. -/
  texts : ∀ v ∈ [row.entry.action, row.entry.targetType, row.entry.targetIdentifier, row.entry.result,
    row.entry.createdAt, row.prevHash, row.entryHash], v ≠ .none ∧ v.inText

instance : (v : Value) → Decidable v.Storable
  | .none => isTrue trivial
  | .int i => inferInstanceAs (Decidable (Fits i))
  | .real x => inferInstanceAs (Decidable (x.isNan = false))
  | .str s => inferInstanceAs (Decidable (Encodable s))
  | .undecodable _ => isTrue trivial
  | .blob _ => isTrue trivial

instance (row : AuditLog) : Decidable row.Stored :=
  decidable_of_iff (_ ∧ _ ∧ _) ⟨fun h => ⟨h.1, h.2.1, h.2.2⟩, fun h => ⟨h.sequence, h.requesterEmail, h.texts⟩⟩

/-- A blob. -/
def Value.isBlob : Value → Bool
  | .blob _ => true
  | _ => false

/-- A hashed column holds a blob. -/
def Entry.holdsBlob (entry : Entry) : Bool := entry.members.any fun m => m.2.isBlob

/-- `HASHED_FIELDS`. -/
inductive HashedField where
  /-- `sequence`. -/
  | sequence
  /-- `requester_email`. -/
  | requesterEmail
  /-- `action`. -/
  | action
  /-- `target_type`. -/
  | targetType
  /-- `target_identifier`. -/
  | targetIdentifier
  /-- `result`. -/
  | result
  /-- `created_at`. -/
  | createdAt
  deriving DecidableEq

/-- The value of a field. -/
def Entry.get (entry : Entry) : HashedField → Value
  | .sequence => entry.sequence
  | .requesterEmail => entry.requesterEmail
  | .action => entry.action
  | .targetType => entry.targetType
  | .targetIdentifier => entry.targetIdentifier
  | .result => entry.result
  | .createdAt => entry.createdAt

/-- The entry with another value in a field. -/
def Entry.set (entry : Entry) (field : HashedField) (v : Value) : Entry :=
  match field with
  | .sequence => { entry with sequence := v }
  | .requesterEmail => { entry with requesterEmail := v }
  | .action => { entry with action := v }
  | .targetType => { entry with targetType := v }
  | .targetIdentifier => { entry with targetIdentifier := v }
  | .result => { entry with result := v }
  | .createdAt => { entry with createdAt := v }

@[simp] theorem Entry.get_set (entry : Entry) (field : HashedField) (v : Value) : (entry.set field v).get field = v := by
  cases field <;> rfl

theorem Entry.set_ne {entry : Entry} {field : HashedField} {v : Value} (h : v ≠ entry.get field) :
    entry.set field v ≠ entry := by
  intro heq
  rw [← heq, get_set] at h
  exact h rfl

theorem Entry.sequence_set {entry : Entry} {field : HashedField} (h : field ≠ .sequence) (v : Value) :
    (entry.set field v).sequence = entry.sequence := by
  cases field <;> first | rfl | exact absurd rfl h

/-- An entry of the code's own holds no blob. -/
theorem Entry.Plain.holdsBlob {entry : Entry} (h : entry.Plain) : entry.holdsBlob = false := by
  rw [Entry.holdsBlob, List.any_eq_false]
  intro m hm hblob
  have hplain := h m hm
  cases hv : m.2 with
  | blob b =>
    rw [hv] at hplain
    exact hplain
  | none | int | real | str | undecodable =>
    rw [hv] at hblob
    cases hblob

/-- An entry of the code's own into which a value was put holds a blob where the value is one. -/
theorem Entry.Plain.holdsBlob_set {entry : Entry} (h : entry.Plain) (field : HashedField) (v : Value) :
    (entry.set field v).holdsBlob = v.isBlob := by
  have hplain := h.holdsBlob
  simp only [Entry.holdsBlob, Entry.members, List.any_cons, List.any_nil, Bool.or_false, Bool.or_eq_false_iff] at hplain ⊢
  obtain ⟨ha, hc, hr, hres, hs, ht, htt⟩ := hplain
  cases field <;> simp only [Entry.set, ha, hc, hr, hres, hs, ht, htt, Bool.or_false, Bool.false_or]

section Cells

variable [Platform]

/-! ### What cannot be hashed -/

/-- A cell that can be fetched is dumped to a text that has UTF-8 bytes, unless it is a blob. -/
theorem dumpsValue_storable {v : Value} (hv : v.Storable) (hdecodes : v.decodes) (hblob : v.isBlob = false) :
    ∃ t, dumpsValue v = .ok t ∧ Encodable t := by
  cases v with
  | none => exact ⟨_, rfl, encodable_py _⟩
  | int i => exact ⟨_, intRepr_of_fits hv, encodable_decimal i⟩
  | real x =>
    refine ⟨_, rfl, ?_⟩
    unfold jsonFloat
    split_ifs <;> exact encodable_ofChars _
  | str s => exact ⟨_, rfl, AuditRepository.encodable_jsonString hv⟩
  | undecodable b => cases hdecodes
  | blob b => cases hblob

omit [Platform] in
theorem Value.storable_of_inText {v : Value} (h : v.inText) : v.Storable := by
  cases v with
  | none => trivial
  | str s => exact (of_decide_eq_true h : Encodable s)
  | undecodable b | blob b => trivial
  | int | real => cases h

/-- **What cannot be hashed**: in a row that satisfies the constraints and was fetched, a blob. -/
theorem computeEntryHash_error_iff {row : AuditLog} (h : row.Stored) (hfetch : Fetchable row.cells) {p : PyStr}
    (hp : Encodable p) :
    (∃ e, computeEntryHash (.str p) row.entry = .error e) ↔ row.entry.holdsBlob := by
  constructor
  · rintro ⟨e, he⟩
    by_contra hblob
    rw [Bool.not_eq_true, Entry.holdsBlob, List.any_eq_false] at hblob
    have htext : ∀ v ∈ [row.entry.action, row.entry.targetType, row.entry.targetIdentifier, row.entry.result,
        row.entry.createdAt, row.prevHash, row.entryHash], v.Storable :=
      fun v hv => Value.storable_of_inText (h.texts v hv).2
    have hstorable : ∀ m ∈ row.entry.members, m.2.Storable := by
      simp only [Entry.members, List.mem_cons, List.not_mem_nil, or_false]
      rintro m (rfl | rfl | rfl | rfl | rfl | rfl | rfl)
      · exact htext _ (by simp)
      · exact htext _ (by simp)
      · exact Value.storable_of_inText h.requesterEmail
      · exact htext _ (by simp)
      · exact h.sequence.2
      · exact htext _ (by simp)
      · exact htext _ (by simp)
    have hdecodes : ∀ m ∈ row.entry.members, m.2.decodes := by
      simp only [AuditLog.cells, fetchable_cons, fetchable_nil, and_true] at hfetch
      simp [Entry.members, hfetch]
    obtain ⟨q, hq⟩ := AuditRepository.hashable
      (fun m hm => dumpsValue_storable (hstorable m hm) (hdecodes m hm) (by simpa using hblob m hm)) hp
    rw [he] at hq
    cases hq
  · intro hblob
    obtain ⟨m, hm, hv⟩ := List.any_eq_true.mp hblob
    rcases hc : computeEntryHash (.str p) row.entry with e | q
    · exact ⟨e, rfl⟩
    · obtain ⟨material, hmaterial, -⟩ := computeEntryHash_eq_ok.mp hc
      obtain ⟨text, htext, -⟩ := bind_eq_ok.mp hmaterial
      unfold canonical at htext
      cases hflat : dumpsFlat row.entry.members with
      | error e => simp [hflat, Except.map] at htext
      | ok t =>
        obtain ⟨u, hu⟩ := dumpsFlat_mem hflat hm
        cases hvalue : m.2 with
        | blob b =>
          rw [hvalue] at hu
          cases hu
        | none | int | real | str | undecodable =>
          rw [hvalue] at hv
          cases hv

/-- The check comes to the row, which stands behind an intact beginning with its own number and the
hash of what is before it. -/
def Reached (rows : List AuditLog) (row : AuditLog) : Prop :=
  ∃ front back q, rows = front ++ row :: back ∧ Intact 0 genesisHash front q ∧
    row.entry.sequence.eqInt (front.length + 1) ∧ row.prevHash = .str q

/-- **What verification raises on**: a row it reaches that holds a blob in a hashed column. -/
theorem raisesIn_iff {rows : List AuditLog} (h : ∀ row ∈ rows, row.Stored) (hfetch : ∀ row ∈ rows, Fetchable row.cells) :
    RaisesIn 0 genesisHash rows ↔ ∃ row, Reached rows row ∧ row.entry.holdsBlob := by
  constructor
  · rintro ⟨front, row, back, q, hrows, hintact, hseq, hprev, hraise⟩
    have hrow : row ∈ rows := by rw [hrows]; simp
    rw [Nat.zero_add] at hseq
    exact ⟨row, ⟨front, back, q, hrows, hintact, hseq, hprev⟩,
      (computeEntryHash_error_iff (h row hrow) (hfetch row hrow) (good_of_linked hintact.2).1).mp hraise⟩
  · rintro ⟨row, ⟨front, back, q, hrows, hintact, hseq, hprev⟩, hblob⟩
    have hrow : row ∈ rows := by rw [hrows]; simp
    refine ⟨front, row, back, q, hrows, hintact, ?_, hprev,
      (computeEntryHash_error_iff (h row hrow) (hfetch row hrow) (good_of_linked hintact.2).1).mpr hblob⟩
    rwa [Nat.zero_add]

/-- `verify` returns a report. -/
def Reports (w : World) : Prop := ∃ report, (AuditRepository.verify.run w).1 = .ok report

/-- Where everything can be fetched and the check does not raise, there is a report. -/
theorem reports_iff (w : World) : Reports w ↔ Legible w.db ∧ ¬ RaisesIn 0 genesisHash w.db.selectLogs := by
  have herror : (∃ e, verifyChain w.db.selectLogs (expectedHead w.db) = .error e) ↔ _ := verifyRows_error_iff
  by_cases hlegible : Legible w.db
  swap
  · exact iff_of_false (fun ⟨report, hreport⟩ => hlegible (legible_of_verify (Prod.ext hreport rfl))) fun h => hlegible h.1
  rw [← herror, and_iff_right hlegible, Reports, run_verify hlegible]
  cases verifyChain w.db.selectLogs (expectedHead w.db) with
  | error e => simp
  | ok report => simp

/-! ### One cell that was changed -/

omit [Platform] in
/-- A list is not a rearrangement of itself with one element changed. -/
theorem not_perm_set {α : Type} [DecidableEq α] {l : List α} {i : ℕ} {x y : α} (hy : l[i]? = some y) (hne : x ≠ y) :
    ¬ (l.set i x).Perm l := by
  obtain ⟨hi, hget⟩ := List.getElem?_eq_some_iff.mp hy
  intro hperm
  have hcount := hperm.count_eq x
  rw [List.count_set hi, hget] at hcount
  simp only [beq_iff_eq, hne.symm, ↓reduceIte] at hcount
  omega

omit [Platform] in
/-- A row with another value in a field. -/
def AuditLog.changed (row : AuditLog) (field : HashedField) (v : Value) : AuditLog :=
  { row with entry := row.entry.set field v }

omit [Platform] in
/-- A row with another value in a field can be fetched where the value can. -/
theorem AuditLog.fetchable_changed {row : AuditLog} (h : Fetchable row.cells) (field : HashedField) (v : Value) :
    Fetchable (row.changed field v).cells ↔ v.decodes = true := by
  simp only [cells, fetchable_cons, fetchable_nil, and_true] at h
  cases field <;>
    simp only [cells, changed, Entry.set, fetchable_cons, fetchable_nil, h, true_and, and_true]

/-- An honest log as a chain. -/
theorem LogSound.chain {db : Database} {h : PyStr} (hs : LogSound db h) : HonestChain db.auditLogs.rows h :=
  ⟨hs.numbered, hs.linked, hs.plain⟩

/-- **What a changed cell makes the check do**: it raises where a blob was put into a column of text. -/
theorem LogSound.raisesIn_changed {w : World} {h : PyStr} (hs : LogSound w.db h) {i : ℕ} {row : AuditLog}
    (hrow : w.db.auditLogs.rows[i]? = some row) {field : HashedField} {v : Value} (hstored : (row.changed field v).Stored)
    (hdecodes : v.decodes) {seq : ℤ} :
    RaisesIn 0 genesisHash (w.withLogs ⟨w.db.auditLogs.rows.set i (row.changed field v), seq⟩).db.selectLogs ↔
      v.isBlob ∧ field ≠ .sequence := by
  obtain ⟨hi, hget⟩ := List.getElem?_eq_some_iff.mp hrow
  have hfetch : Fetchable (row.changed field v).cells :=
    (AuditLog.fetchable_changed (hs.fetchable row (List.mem_of_getElem? hrow)) field v).mpr hdecodes
  constructor
  · rintro ⟨front, r, back, q, hrows, hintact, hseq, hprev, e, he⟩
    have hselected : r ∈ (w.withLogs ⟨w.db.auditLogs.rows.set i (row.changed field v), seq⟩).db.selectLogs := by
      rw [hrows]
      simp
    have hmem : r ∈ w.db.auditLogs.rows.set i (row.changed field v) :=
      (List.perm_insertionSort _ _).mem_iff.mp hselected
    rcases List.mem_or_eq_of_mem_set hmem with hold | rfl
    · -- the other rows have been hashed behind the hash they name
      obtain ⟨j, hj, hr⟩ := List.mem_iff_getElem.mp hold
      obtain ⟨p, q', -, -, hlink⟩ := hs.chain.split (List.getElem?_eq_some_iff.mpr ⟨hj, hr⟩)
      obtain ⟨hp, hhash, -⟩ := linkRow_eq_some.mp hlink
      obtain rfl : q = p := Value.str.inj (hprev.symm.trans hp)
      rw [he] at hhash
      cases hhash
    · have hblob := (computeEntryHash_error_iff hstored hfetch (good_of_linked hintact.2).1).mp ⟨e, he⟩
      change (row.entry.set field v).holdsBlob = true at hblob
      rw [(hs.plain row (List.mem_of_getElem? hrow)).holdsBlob_set] at hblob
      refine ⟨hblob, ?_⟩
      rintro rfl
      cases v with
      | blob b => cases hseq
      | none | int | real | str | undecodable => cases hblob
  · rintro ⟨hblob, hfield⟩
    obtain ⟨p, q, hintact, -, hlink⟩ := hs.chain.split hrow
    obtain ⟨hprev, -, -⟩ := linkRow_eq_some.mp hlink
    have hsequence : (row.changed field v).entry.sequence = .int (i + 1) :=
      (Entry.sequence_set hfield v).trans (hs.numbered i row hrow)
    have hselect : (w.withLogs ⟨w.db.auditLogs.rows.set i (row.changed field v), seq⟩).db.selectLogs =
        w.db.auditLogs.rows.set i (row.changed field v) := by
      apply selectLogs_of_numbered
      intro j r hr
      change (w.db.auditLogs.rows.set i (row.changed field v))[j]? = some r at hr
      by_cases hj : i = j
      · subst hj
        rw [List.getElem?_set_self hi] at hr
        rw [← Option.some.inj hr, hsequence]
      · rw [List.getElem?_set_ne hj] at hr
        exact hs.numbered j r hr
    have hsplit : w.db.auditLogs.rows.set i (row.changed field v) =
        w.db.auditLogs.rows.take i ++ row.changed field v :: w.db.auditLogs.rows.drop (i + 1) := by
      rw [List.set_eq_take_append_cons_drop, if_pos hi]
    have hlen : (w.db.auditLogs.rows.take i).length = i := by
      rw [List.length_take]
      omega
    refine ⟨_, row.changed field v, _, p, hselect.trans hsplit, hintact, ?_, hprev, ?_⟩
    · rw [hsequence, hlen]
      simp [Value.eqInt]
    · apply (computeEntryHash_error_iff hstored hfetch (good_of_linked hintact.2).1).mpr
      exact ((hs.plain row (List.mem_of_getElem? hrow)).holdsBlob_set field v).trans hblob

/-- **Audit verification reports, exactly unless it cannot fetch a cell or comes to a blob.** On every log whose rows
satisfy the constraints of the columns, `verify` returns a report exactly if all text in the log and in the stored head
is UTF-8 and no row it reaches holds a blob in a hashed column. In every state that calls of `log` lead to from an
empty log, one hashed column of one row is given another value. Then `verify` reports
the log, exactly unless the value is text that is not UTF-8, or a blob in a column of text. -/
theorem verify_reports :
    (∀ w : World, (∀ row ∈ w.db.auditLogs.rows, row.Stored) →
        (Reports w ↔ Legible w.db ∧ ¬ ∃ row, Reached w.db.selectLogs row ∧ row.entry.holdsBlob)) ∧
      ∀ (w : World) (ops : List LogOp) (i : ℕ) (row : AuditLog) (field : HashedField) (v : Value),
        let honest := (logSession w ops).2
        let edited := honest.db.auditLogs.rows.set i (row.changed field v)
        w.db.auditLogs.rows = [] → honest.db.auditLogs.rows[i]? = some row → v ≠ row.entry.get field →
          (row.changed field v).Stored → IdealHash (honest.db.auditLogs.rows ++ edited) →
            (Reported (honest.withLogs ⟨edited, honest.db.auditLogs.seq⟩) ↔
              v.decodes ∧ ¬ (v.isBlob ∧ field ≠ .sequence)) := by
  refine ⟨fun w hstored => ?_, ?_⟩
  · have hmem : ∀ row ∈ w.db.selectLogs, row ∈ w.db.auditLogs.rows := fun row => (List.perm_insertionSort _ _).mem_iff.mp
    rw [reports_iff]
    refine and_congr_right fun hlegible => not_congr ?_
    exact raisesIn_iff (fun row hrow => hstored row (hmem row hrow)) fun row hrow => hlegible.rows row (hmem row hrow)
  · intro w ops i row field v honest edited hempty hrow hne hstored hideal
    obtain ⟨h, hs, hhead⟩ : LogHonest honest.db := honest_session hempty ops
    have hrows : honest.db.auditLogs.rows ≠ [] := by
      intro hnil
      rw [hnil] at hrow
      cases hrow
    have hedited : edited ≠ [] := by
      rw [ne_eq, ← List.length_eq_zero_iff, List.length_set, List.length_eq_zero_iff]
      exact hrows
    have hdiffer : (honest.withLogs ⟨edited, honest.db.auditLogs.seq⟩).db.selectLogs.map AuditLog.content ≠
        honest.db.selectLogs.map AuditLog.content := by
      intro heq
      have hperm : (edited.map AuditLog.content).Perm (honest.db.auditLogs.rows.map AuditLog.content) := by
        have hleft := (List.perm_insertionSort (fun a b : AuditLog => a.entry.sequence.le b.entry.sequence) edited).map
          AuditLog.content
        have hright := (List.perm_insertionSort (fun a b : AuditLog => a.entry.sequence.le b.entry.sequence)
          honest.db.auditLogs.rows).map AuditLog.content
        exact hleft.symm.trans (heq ▸ hright)
      rw [List.map_set] at hperm
      refine not_perm_set (y := row.content) (by simp [hrow]) ?_ hperm
      intro hcontent
      exact Entry.set_ne hne (AuditLog.content_eq_iff.mp hcontent).1
    have hfetchable : (∀ r ∈ edited, Fetchable r.cells) ↔ v.decodes := by
      rw [← AuditLog.fetchable_changed (hs.fetchable row (List.mem_of_getElem? hrow)) field v]
      refine ⟨fun hall => hall _ (List.mem_of_getElem? (List.getElem?_set_self (List.getElem?_eq_some_iff.mp hrow).1)),
        fun hchanged r hr => ?_⟩
      rcases List.mem_or_eq_of_mem_set hr with hold | rfl
      · exact hs.fetchable r hold
      · exact hchanged
    rw [hs.reported_withLogs (hhead hrows) hideal hdiffer, and_iff_right hedited, hfetchable]
    exact and_congr_right fun hdecodes => not_congr (hs.raisesIn_changed hrow hstored hdecodes)

end Cells

/-! ### Logs on the sample platform -/

section Sample

attribute [local instance] samplePlatform
attribute [local irreducible] logSession

/-- The last row of a log of two entries. -/
def sampleLastRow : AuditLog := sampleChain.get ⟨1, by decide +kernel⟩

/-- The log with a blob as the result in its last row. -/
def sampleBlobbed : World :=
  sampleLogged.withLogs ⟨sampleChain.set 1 (sampleLastRow.changed .result (.blob [0])), sampleLogged.db.auditLogs.seq⟩

/-- `verify` raises on the log with the blob, whose rows satisfy the constraints: it neither returns nor
reports anything. -/
theorem blob_raises_sample :
    sampleLogged.db.auditLogs.rows[1]? = some sampleLastRow ∧ (∀ row ∈ sampleBlobbed.db.auditLogs.rows, row.Stored) ∧
      (AuditRepository.verify.run sampleBlobbed).1 =
        .error (.typeError "Object of type bytes is not JSON serializable") := by
  refine ⟨by decide +kernel, by decide +kernel, by decide +kernel⟩

/-- The equivalence, where the result in the first of two entries is changed to another text. -/
theorem verify_reports_sample :
    Reported (sampleLogged.withLogs
      ⟨sampleChain.set 0 (sampleRow.changed .result (.str (py "ALLOWED"))), sampleLogged.db.auditLogs.seq⟩) := by
  have hrow : sampleLogged.db.auditLogs.rows[0]? = some sampleRow := by decide +kernel
  have hstored : (sampleRow.changed .result (.str (py "ALLOWED"))).Stored := by decide +kernel
  have hne : Value.str (py "ALLOWED") ≠ sampleRow.entry.get .result := by decide +kernel
  exact (verify_reports.2 sampleUnlogged sampleLogOps 0 sampleRow .result (.str (py "ALLOWED")) rfl hrow hne hstored
    (samplePlatform_idealHash _)).mpr ⟨rfl, by simp [Value.isBlob]⟩

end Sample

end MiniVault
