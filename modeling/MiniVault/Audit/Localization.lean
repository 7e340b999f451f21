import MiniVault.Audit.Tamper

/-!
# Where verification finds the damage

What verification says of rows that agree with an honest chain up to some row, whatever
follows: it gets past the rows that agree, and the first row that keeps its `entry_hash` but
is another is the one it reports.

## What is proved

* `head_commits` — rows that are valid with one head are the same rows.
* `damage_localized` — the first row that was edited is the one that is reported, with the
  hash of the honest row before it and the first of three reasons that applies.
-/

namespace MiniVault

open Foundations

section Localization

variable [Platform]

/-! ### A head commits to the rows -/

/-- **A head hash commits to the whole log**: rows that are valid with one head are as many, and
agree in the hashed columns, in `prev_hash` and in `entry_hash`. -/
theorem head_commits (rows rows' : List AuditLog) (head : PyStr) {report report' : Report}
    (hplain : ∀ row ∈ rows ++ rows', row.entry.Plain) (hideal : IdealHash (rows ++ rows'))
    (hrows : verifyChain rows (.str head) = .ok report) (hvalid : report.valid = true)
    (hrows' : verifyChain rows' (.str head) = .ok report') (hvalid' : report'.valid = true) :
    rows.map AuditLog.content = rows'.map AuditLog.content := by
  have hend : ∀ {rows : List AuditLog} {report : Report}, verifyChain rows (.str head) = .ok report →
      report.valid = true → follow linkRow genesisHash rows = some head := by
    intro rows report hrows hvalid
    obtain ⟨h, hintact, hexpected⟩ := verifyRows_valid_iff.mp ⟨report, hrows, hvalid⟩
    obtain rfl : head = h := by simpa using hexpected
    exact hintact.2
  exact content_eq_of_linked (fun row hrow => hplain row (List.mem_append_left _ hrow)) hideal (hend hrows hvalid)
    (hend hrows' hvalid')

/-! ### Rows that agree -/

omit [Platform] in
theorem AuditLog.content_eq_iff {row row' : AuditLog} :
    row.content = row'.content ↔ row.entry = row'.entry ∧ row.prevHash = row'.prevHash ∧ row.entryHash = row'.entryHash := by
  simp only [content, Prod.mk.injEq]

/-- A row is linked by what it contains. -/
theorem linkRow_congr {p : PyStr} {row row' : AuditLog} (h : row.content = row'.content) :
    linkRow p row = linkRow p row' := by
  obtain ⟨hentry, hprev, hhash⟩ := AuditLog.content_eq_iff.mp h
  unfold linkRow
  rw [hentry, hprev, hhash]

/-- So are rows. -/
theorem intact_congr {count : ℕ} {p h : PyStr} {rows rows' : List AuditLog}
    (hrows : rows.map AuditLog.content = rows'.map AuditLog.content) : Intact count p rows h ↔ Intact count p rows' h := by
  induction rows generalizing count p rows' with
  | nil =>
    obtain rfl := List.map_eq_nil_iff.mp hrows.symm
    rfl
  | cons row rows ih =>
    cases rows' with
    | nil => cases hrows
    | cons row' rows' =>
      obtain ⟨hrow, hrest⟩ := List.cons.inj hrows
      rw [intact_cons, intact_cons, linkRow_congr hrow, (AuditLog.content_eq_iff.mp hrow).1]
      simp only [ih hrest]

/-- **Verification gets past an intact beginning.** -/
theorem verifyRows_append {expected : Value} {count : ℕ} {p q : PyStr} {front : List AuditLog}
    (h : Intact count p front q) (back : List AuditLog) :
    verifyRows expected count p (front ++ back) = verifyRows expected (count + front.length) q back := by
  induction front generalizing count p with
  | nil =>
    obtain rfl := Option.some.inj h.2
    rfl
  | cons row front ih =>
    obtain ⟨hseq, r, hr, hrest⟩ := intact_cons.mp h
    obtain ⟨hprev, hhash, hentry⟩ := linkRow_eq_some.mp hr
    simp only [List.cons_append, verifyRows, hseq, hprev, hhash, hentry, Bool.not_true, Bool.false_eq_true, ↓reduceIte,
      ne_eq, not_true_eq_false, ok_bind]
    rw [ih hrest, List.length_cons, Nat.add_assoc, Nat.add_comm 1]

/-- A row with another number is reported as a gap. -/
theorem verifyRows_gap {expected : Value} {count : ℕ} {p : PyStr} {row : AuditLog} {rows : List AuditLog}
    (hseq : ¬ row.entry.sequence.eqInt (count + 1)) :
    verifyRows expected count p (row :: rows) = .ok (failure (count + 1) row.entry.sequence .sequenceGap p) := by
  simp only [verifyRows, hseq, Bool.not_false, ↓reduceIte]

/-- A row that names another predecessor is reported. -/
theorem verifyRows_prevHash {expected : Value} {count : ℕ} {p : PyStr} {row : AuditLog} {rows : List AuditLog}
    (hseq : row.entry.sequence.eqInt (count + 1)) (hprev : row.prevHash ≠ .str p) :
    verifyRows expected count p (row :: rows) =
      .ok (failure (count + 1) row.entry.sequence .prevHashMismatch p) := by
  simp only [verifyRows, hseq, Bool.not_true, Bool.false_eq_true, ↓reduceIte, ne_eq, hprev, not_false_eq_true]

/-- A row with another hash than its own is reported. -/
theorem verifyRows_entryHash {expected : Value} {count : ℕ} {p q : PyStr} {row : AuditLog} {rows : List AuditLog}
    (hseq : row.entry.sequence.eqInt (count + 1)) (hprev : row.prevHash = .str p)
    (hhash : computeEntryHash (.str p) row.entry = .ok q) (hentry : row.entryHash ≠ .str q) :
    verifyRows expected count p (row :: rows) =
      .ok (failure (count + 1) row.entry.sequence .entryHashMismatch p) := by
  simp only [verifyRows, hseq, Bool.not_true, Bool.false_eq_true, ↓reduceIte, ne_eq, hprev, not_true_eq_false, hhash,
    ok_bind, hentry, not_false_eq_true, pure_eq_ok]

/-- A row that fails is counted. -/
theorem verifyRows_count {expected : Value} {count : ℕ} {p : PyStr} {rows : List AuditLog} {report : Report}
    (h : verifyRows expected count p rows = .ok report) :
    count ≤ report.entryCount ∧ (report.reason ≠ none → report.reason ≠ some .headMismatch → count < report.entryCount) := by
  induction rows generalizing count p with
  | nil =>
    simp only [verifyRows] at h
    split_ifs at h <;> rw [← Except.ok.inj h] <;> simp
  | cons row rows ih =>
    simp only [verifyRows] at h
    split_ifs at h
    · rw [← Except.ok.inj h]
      simp [failure]
    · rw [← Except.ok.inj h]
      simp [failure]
    · cases hc : computeEntryHash (.str p) row.entry with
      | error e => simp [hc] at h
      | ok q =>
        rw [hc, ok_bind] at h
        split_ifs at h
        · rw [← Except.ok.inj h]
          simp [failure]
        · obtain ⟨hle, hlt⟩ := ih h
          exact ⟨by omega, fun hreason hhead => by have := hlt hreason hhead; omega⟩

/-! ### Damage -/

/-- Rows built by `compute_entry_hash` from the genesis hash, numbered from 1, up to the hash `h`. -/
structure HonestChain (rows : List AuditLog) (h : PyStr) : Prop where
  /-- The rows are numbered by their places. -/
  numbered : ∀ (i : ℕ) row, rows[i]? = some row → row.entry.sequence = .int (i + 1)
  /-- The rows are linked. -/
  linked : follow linkRow genesisHash rows = some h
  /-- The columns hold what the code puts there. -/
  plain : ∀ row ∈ rows, row.entry.Plain

omit [Platform] in
/-- An integer. -/
def Value.isInt : Value → Bool
  | .int _ => true
  | _ => false

omit [Platform] in
/-- Text, which has UTF-8 bytes in a database, or `NULL`. -/
def Value.isText : Value → Bool
  | .none => true
  | .str s => decide (Encodable s)
  | _ => false

omit [Platform] in
/-- The sequence is an integer, and the other cells are text or `NULL`. -/
structure AuditLog.Textual (row : AuditLog) : Prop where
  /-- `sequence`. -/
  sequence : row.entry.sequence.isInt
  /-- The others. -/
  cells : ∀ v ∈ [row.entry.requesterEmail, row.entry.action, row.entry.targetType, row.entry.targetIdentifier,
    row.entry.result, row.entry.createdAt, row.prevHash, row.entryHash], v.isText

instance (row : AuditLog) : Decidable row.Textual :=
  decidable_of_iff (_ ∧ _) ⟨fun h => ⟨h.1, h.2⟩, fun h => ⟨h.sequence, h.cells⟩⟩

/-- The hash in front of the row in place `j`. -/
def headBefore (rows : List AuditLog) : ℕ → Value
  | 0 => .str genesisHash
  | j + 1 => match rows[j]? with
    | some row => row.entryHash
    | none => .none

/-- The first thing in which a row differs from the one that was there. -/
def firstDifference (row honest : AuditLog) : Reason :=
  if row.entry.sequence ≠ honest.entry.sequence then .sequenceGap
  else if row.prevHash ≠ honest.prevHash then .prevHashMismatch
  else .entryHashMismatch

/-- An honest chain is intact up to every row of it, which is linked to what is before it. -/
theorem HonestChain.split {rows : List AuditLog} {h : PyStr} (hs : HonestChain rows h) {j : ℕ} {row : AuditLog}
    (hrow : rows[j]? = some row) :
    ∃ p q, Intact 0 genesisHash (rows.take j) p ∧ headBefore rows j = .str p ∧ linkRow p row = some q := by
  obtain ⟨hj, hget⟩ := List.getElem?_eq_some_iff.mp hrow
  have hlinked := hs.linked
  rw [← List.take_append_drop j rows, List.drop_eq_getElem_cons hj, hget, follow_append] at hlinked
  obtain ⟨p, hp, hrest⟩ := Option.bind_eq_some_iff.mp hlinked
  obtain ⟨q, hq, -⟩ := Option.bind_eq_some_iff.mp hrest
  refine ⟨p, q, ⟨numberedFrom_iff.mpr fun i r hr => ?_, hp⟩, ?_, hq⟩
  · have hold : rows[i]? = some r := by
      obtain ⟨hi, hri⟩ := List.getElem?_eq_some_iff.mp hr
      rw [← hri, List.getElem_take]
      exact List.getElem?_eq_getElem _
    rw [hs.numbered i r hold]
    simp [Value.eqInt]
  · cases j with
    | zero =>
      obtain rfl := Option.some.inj hp
      rfl
    | succ j =>
      have hlt : j < rows.length := by omega
      rw [List.take_succ_eq_append_getElem hlt] at hp
      obtain ⟨r, -, hlast⟩ := follow_concat.mp hp
      simp only [headBefore, List.getElem?_eq_getElem hlt]
      exact (linkRow_eq_some.mp hlast).2.2

/-- A row with textual cells can be hashed wherever its sequence number has been. -/
theorem AuditLog.Textual.hashable {row : AuditLog} (h : row.Textual) {i : ℤ} {t : PyStr} (hi : row.entry.sequence = .int i)
    (hrepr : intRepr i = .ok t) {p : PyStr} (hp : Encodable p) : ∃ q, computeEntryHash (.str p) row.entry = .ok q := by
  have hcell : ∀ {v : Value}, v.isText → ∃ u, dumpsValue v = .ok u ∧ Encodable u := by
    intro v hv
    cases v with
    | none => exact ⟨_, rfl, encodable_py _⟩
    | str s => exact ⟨_, rfl, AuditRepository.encodable_jsonString (of_decide_eq_true hv)⟩
    | int | real | undecodable | blob => cases hv
  refine AuditRepository.hashable ?_ hp
  simp only [Entry.members, List.mem_cons, List.not_mem_nil, or_false]
  rintro m (rfl | rfl | rfl | rfl | rfl | rfl | rfl)
  · exact hcell (h.cells _ (by simp))
  · exact hcell (h.cells _ (by simp))
  · exact hcell (h.cells _ (by simp))
  · exact hcell (h.cells _ (by simp))
  · refine ⟨t, by rw [hi]; exact hrepr, ?_⟩
    rw [intRepr_eq_ok hrepr]
    exact encodable_decimal i
  · exact hcell (h.cells _ (by simp))
  · exact hcell (h.cells _ (by simp))

/-- What is dumped has dumped members. -/
theorem dumpsFlat_mem {ms : List (String × Value)} {t : PyStr} (h : dumpsFlat ms = .ok t) {m : String × Value}
    (hm : m ∈ ms) : ∃ u, dumpsValue m.2 = .ok u := by
  induction ms generalizing t with
  | nil => cases hm
  | cons n ms ih =>
    obtain ⟨k, v⟩ := n
    obtain ⟨u, hu, hrest⟩ := bind_eq_ok.mp h
    obtain ⟨ts, hts, -⟩ := bind_eq_ok.mp hrest
    rcases List.mem_cons.mp hm with rfl | hm
    · exact ⟨u, hu⟩
    · exact ih hts hm

/-- The number of a row that was hashed has few enough digits. -/
theorem intRepr_of_hashed {p : Value} {entry : Entry} {q : PyStr} {i : ℤ} (h : computeEntryHash p entry = .ok q)
    (hi : entry.sequence = .int i) : ∃ t, intRepr i = .ok t := by
  obtain ⟨m, hm, -⟩ := computeEntryHash_eq_ok.mp h
  obtain ⟨text, htext, -⟩ := bind_eq_ok.mp hm
  unfold canonical at htext
  cases hflat : dumpsFlat entry.members with
  | error e => simp [hflat, Except.map] at htext
  | ok t =>
    obtain ⟨u, hu⟩ := dumpsFlat_mem (m := ("sequence", entry.sequence)) hflat (by simp [Entry.members])
    rw [hi] at hu
    exact ⟨u, hu⟩

/-- Two entries behind the same hash that have the same hash are the same. -/
theorem entry_eq_of_hash {rows : List AuditLog} (hinjective : InjectiveHash rows) {x y : AuditLog} (hx : x ∈ rows) (hy : y ∈ rows)
    (hplain : x.entry.Plain) {p q : PyStr} (hbar : PyChar.scalar '|' ∉ p) (hxp : x.prevHash = .str p)
    (hyp : y.prevHash = .str p) (hxq : computeEntryHash (.str p) x.entry = .ok q)
    (hyq : computeEntryHash (.str p) y.entry = .ok q) : x.entry = y.entry := by
  obtain ⟨m, hm, hmd⟩ := computeEntryHash_eq_ok.mp hxq
  obtain ⟨m', hm', hmd'⟩ := computeEntryHash_eq_ok.mp hyq
  obtain rfl := hinjective x hx y hy m m' (by rw [hxp, hm]) (by rw [hyp, hm']) (hmd.trans hmd'.symm)
  exact (hashMaterial_inj hplain hbar hbar hm hm').2

/-- **Verification localizes the damage.** Of rows that agree with an honest chain on the first `j`,
none of these is reported; and if the row behind them keeps its `entry_hash` but differs, it
is the one that is reported, whatever rows follow, with the hash of the honest row before it
and the first difference. -/
theorem damage_localized {honest rows : List AuditLog} {head : PyStr} {j : ℕ} (hhonest : HonestChain honest head)
    (hj : j < honest.length) (htextual : ∀ row ∈ rows, row.Textual) (hinjective : InjectiveHash (honest ++ rows))
    (hagree : (rows.take j).map AuditLog.content = (honest.take j).map AuditLog.content) :
    (∀ report, verifyChain rows (.str head) = .ok report → report.reason ≠ none → report.reason ≠ some .headMismatch →
        j < report.entryCount) ∧
      ∀ row orig, rows[j]? = some row → honest[j]? = some orig → row.entryHash = orig.entryHash →
        row.entry ≠ orig.entry ∨ row.prevHash ≠ orig.prevHash →
          ∃ report, verifyChain rows (.str head) = .ok report ∧ report.valid = false ∧ report.entryCount = j + 1 ∧
            .str report.headHash = headBefore honest j ∧ report.reason = some (firstDifference row orig) := by
  obtain ⟨p, q, hintact, hbefore, hlink⟩ := hhonest.split (List.getElem?_eq_getElem hj)
  obtain ⟨hencodable, hbar⟩ := good_of_linked hintact.2
  have hfront : Intact 0 genesisHash (rows.take j) p := (intact_congr hagree).mpr hintact
  have hlen : (rows.take j).length = j := by
    have := congrArg List.length hagree
    simp only [List.length_map, List.length_take] at this ⊢
    omega
  -- what is found behind the rows that agree
  have hbehind : verifyChain rows (.str head) = verifyRows (.str head) j p (rows.drop j) := by
    have happend : verifyRows (.str head) 0 genesisHash (rows.take j ++ rows.drop j) =
        verifyRows (.str head) (0 + (rows.take j).length) p (rows.drop j) := verifyRows_append hfront (rows.drop j)
    rwa [List.take_append_drop, hlen, Nat.zero_add] at happend
  refine ⟨fun report hreport hreason hhead => ?_, fun row orig hrow horig hhash hdiffer => ?_⟩
  · rw [hbehind] at hreport
    exact (verifyRows_count hreport).2 hreason hhead
  · obtain rfl := Option.some.inj ((List.getElem?_eq_getElem hj).symm.trans horig)
    obtain ⟨hprev, hcompute, hentry⟩ := linkRow_eq_some.mp hlink
    have hseq := hhonest.numbered j _ horig
    obtain ⟨hlt, hget⟩ := List.getElem?_eq_some_iff.mp hrow
    rw [hbehind, List.drop_eq_getElem_cons hlt, hget]
    have hrow' := htextual row (List.mem_of_getElem? hrow)
    by_cases hsame : row.entry.sequence = honest[j].entry.sequence
    · have heq : row.entry.sequence.eqInt (j + 1) = true := by
        rw [hsame, hseq]
        simp [Value.eqInt]
      by_cases hlast : row.prevHash = honest[j].prevHash
      · obtain ⟨t, ht⟩ := intRepr_of_hashed hcompute hseq
        obtain ⟨r, hr⟩ := hrow'.hashable (hsame.trans hseq) ht hencodable
        have hne : row.entryHash ≠ .str r := by
          -- the same hash would be of the same entry
          intro hsamehash
          obtain rfl : q = r := by
            rw [hhash, hentry] at hsamehash
            exact Value.str.inj hsamehash
          have hentries := entry_eq_of_hash hinjective (List.mem_append_left _ (List.getElem_mem hj))
            (List.mem_append_right _ (List.mem_of_getElem? hrow)) (hhonest.plain _ (List.getElem_mem hj)) hbar hprev
            (hlast.trans hprev) hcompute hr
          exact hdiffer.elim (fun h => h hentries.symm) (fun h => h hlast)
        rw [verifyRows_entryHash heq (hlast.trans hprev) hr hne]
        refine ⟨_, rfl, rfl, rfl, hbefore.symm, ?_⟩
        rw [firstDifference, if_neg (not_not.mpr hsame), if_neg (not_not.mpr hlast)]
        rfl
      · rw [verifyRows_prevHash heq fun h => hlast (h.trans hprev.symm)]
        exact ⟨_, rfl, rfl, rfl, hbefore.symm, by rw [firstDifference, if_neg (not_not.mpr hsame), if_pos hlast]; rfl⟩
    · have heq : ¬ row.entry.sequence.eqInt (j + 1) = true := by
        have hint := hrow'.sequence
        rw [hseq] at hsame
        cases hi : row.entry.sequence with
        | int i =>
          rw [hi] at hsame
          simp only [Value.eqInt, decide_eq_true_eq]
          rintro rfl
          exact hsame rfl
        | none | real | str | undecodable | blob =>
          rw [hi] at hint
          cases hint
      rw [verifyRows_gap heq]
      exact ⟨_, rfl, rfl, rfl, hbefore.symm, by rw [firstDifference, if_pos hsame]; rfl⟩

end Localization

/-! ### Logs on the sample platform -/

section Sample

attribute [local instance] samplePlatform
attribute [local irreducible] logSession

/-- The rows of a log of two entries. -/
def sampleChain : List AuditLog := sampleLogged.db.auditLogs.rows

/-- Its head. -/
def sampleHead : PyStr :=
  match headBefore sampleChain 2 with
  | .str h => h
  | _ => []

/-- The rows again, in another table. -/
def sampleCopy : List AuditLog := sampleChain.map fun row => { row with id := row.id + 7 }

/-- The rows, with another result in the first. -/
def sampleEdited : List AuditLog :=
  sampleChain.modifyHead fun row => { row with entry := { row.entry with result := .str (py "ALLOWED") } }

/-- The first row of the log. -/
def sampleRow : AuditLog := sampleChain.get ⟨0, by decide +kernel⟩

/-- The first row that was edited. -/
def sampleEditedRow : AuditLog := sampleEdited.get ⟨0, by decide +kernel⟩

/-- The log is honest, up to the head. -/
theorem sampleChain_honest : HonestChain sampleChain sampleHead := by
  obtain ⟨h, hs, -⟩ := honest_session (w := sampleUnlogged) rfl sampleLogOps
  exact ⟨hs.numbered, by decide +kernel, hs.plain⟩

/-- Rows that are valid with the head of the log have the contents of its rows. -/
theorem head_commits_sample : sampleChain.map AuditLog.content = sampleCopy.map AuditLog.content := by
  have hplain : ∀ row ∈ sampleChain ++ sampleCopy, row.entry.Plain := by
    intro row hrow
    rcases List.mem_append.mp hrow with hrow | hrow
    · exact sampleChain_honest.plain row hrow
    · obtain ⟨row', hrow', rfl⟩ := List.mem_map.mp hrow
      exact sampleChain_honest.plain row' hrow'
  have hrows : verifyChain sampleChain (.str sampleHead) = .ok ⟨true, 2, sampleHead, .none, none⟩ := by decide +kernel
  have hcopy : verifyChain sampleCopy (.str sampleHead) = .ok ⟨true, 2, sampleHead, .none, none⟩ := by decide +kernel
  exact head_commits sampleChain sampleCopy sampleHead hplain (samplePlatform_idealHash _) hrows rfl hcopy rfl

/-- A first row that was edited is reported. -/
theorem damage_localized_sample : ∃ report, verifyChain sampleEdited (.str sampleHead) = .ok report ∧
    report.valid = false ∧ report.entryCount = 1 ∧ .str report.headHash = headBefore sampleChain 0 ∧
      report.reason = some .entryHashMismatch := by
  have htextual : ∀ row ∈ sampleEdited, row.Textual := by decide +kernel
  have hlen : 0 < sampleChain.length := by decide +kernel
  have hrow : sampleEdited[0]? = some sampleEditedRow := by decide +kernel
  have horig : sampleChain[0]? = some sampleRow := by decide +kernel
  have hhash : sampleEditedRow.entryHash = sampleRow.entryHash := by decide +kernel
  have hdiffer : sampleEditedRow.entry ≠ sampleRow.entry := by decide +kernel
  have hreason : firstDifference sampleEditedRow sampleRow = .entryHashMismatch := by decide +kernel
  rw [← hreason]
  exact (damage_localized sampleChain_honest hlen htextual (samplePlatform_idealHash _).injective rfl).2 _ _ hrow horig hhash
    (.inl hdiffer)

end Sample

end MiniVault
