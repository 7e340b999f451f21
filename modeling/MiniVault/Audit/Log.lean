import MiniVault.Runtime.World

/-!
# The audit log

`audit/chain.py` and `audit/repository.py`: every entry carries the hash of its
predecessor, and the hash of the last one is kept in `schema_metadata` as well.

## The model

`log` is a look at the clock and one transaction. `verify` reads the rows in one
connection and the stored head in another. A row is verified with whatever its
cells hold: a blob in a hashed column makes `json.dumps` raise `TypeError`.
-/

namespace MiniVault

open Foundations

variable [Platform]

/-! ### The chain -/

/-- `GENESIS_HASH`: `prev_hash` of the first entry. -/
def genesisHash : PyStr := List.replicate 64 (.scalar '0')

/-- `json.dumps` of a cell. -/
def dumpsValue : Value → Except Exc PyStr
  | .none => .ok (py "null")
  | .int i => intRepr i
  | .real x => .ok (jsonFloat x)
  | .str s => .ok (jsonString s)
  -- fetching it has raised before
  | .undecodable _ => .error .operationalError
  | .blob _ => .error (.typeError "Object of type bytes is not JSON serializable")

/-- The members of the canonical encoding, `HASHED_FIELDS` in the order of
`sort_keys=True`. -/
def Entry.members (entry : Entry) : List (String × Value) :=
  [("action", entry.action), ("created_at", entry.createdAt), ("requester_email", entry.requesterEmail),
    ("result", entry.result), ("sequence", entry.sequence), ("target_identifier", entry.targetIdentifier),
    ("target_type", entry.targetType)]

/-- The members of a flat object, with commas between them. -/
def dumpsFlat : List (String × Value) → Except Exc PyStr
  | [] => .ok []
  | (k, v) :: ms => do
    let t ← dumpsValue v
    let ts ← dumpsFlat ms
    return jsonString (py k) ++ py ":" ++ t ++ (if ms.isEmpty then [] else py ",") ++ ts

/-- The canonical encoding of an entry. -/
def canonical (entry : Entry) : Except Exc PyStr :=
  (dumpsFlat entry.members).map fun t => py "\x7b" ++ t ++ py "\x7d"

/-- What is hashed: `f"{prev_hash}|{canonical}"` in UTF-8. -/
def hashMaterial (prevHash : Value) (entry : Entry) : Except Exc Bytes := do
  let text ← canonical entry
  match utf8Encode (formatValue prevHash ++ py "|" ++ text) with
  | some material => return material
  | none => throw .unicodeEncodeError

/-- `compute_entry_hash`. -/
def computeEntryHash (prevHash : Value) (entry : Entry) : Except Exc PyStr :=
  (hashMaterial prevHash entry).map hexdigest

/-- The reasons `verify_chain` gives. -/
inductive Reason where
  /-- `SEQUENCE_GAP`. -/
  | sequenceGap
  /-- `PREV_HASH_MISMATCH`. -/
  | prevHashMismatch
  /-- `ENTRY_HASH_MISMATCH`. -/
  | entryHashMismatch
  /-- `HEAD_MISMATCH`. -/
  | headMismatch
  deriving DecidableEq

/-- What `verify_chain` reports. -/
structure Report where
  /-- `valid`. -/
  valid : Bool
  /-- `entry_count`. -/
  entryCount : ℕ
  /-- `head_hash`. -/
  headHash : PyStr
  /-- `first_invalid_sequence`. -/
  firstInvalidSequence : Value
  /-- `reason`. -/
  reason : Option Reason
  deriving DecidableEq

/-- `_failure`. -/
def failure (count : ℕ) (sequence : Value) (reason : Reason) (head : PyStr) : Report :=
  ⟨false, count, head, sequence, some reason⟩

/-- `value == i`. -/
def Value.eqInt (value : Value) (i : ℤ) : Bool :=
  match value with
  | .int j => j = i
  | .real x => x.exponent ≠ 2047 && x.dyadic.1 = i * 2 ^ x.dyadic.2
  | _ => false

/-- The loop of `verify_chain` with what follows it: `count` rows are verified, and
`prevHash` is the hash of the last of them. -/
def verifyRows (expectedHead : Value) : ℕ → PyStr → List AuditLog → Except Exc Report
  | count, prevHash, [] =>
    if expectedHead ≠ .none ∧ expectedHead ≠ .str prevHash then
      .ok ⟨false, count, prevHash, .none, some .headMismatch⟩
    else .ok ⟨true, count, prevHash, .none, none⟩
  | count, prevHash, row :: rows =>
    if !row.entry.sequence.eqInt (count + 1) then
      .ok (failure (count + 1) row.entry.sequence .sequenceGap prevHash)
    else if row.prevHash ≠ .str prevHash then
      .ok (failure (count + 1) row.entry.sequence .prevHashMismatch prevHash)
    else do
      let recomputed ← computeEntryHash (.str prevHash) row.entry
      if row.entryHash ≠ .str recomputed then
        return failure (count + 1) row.entry.sequence .entryHashMismatch prevHash
      verifyRows expectedHead (count + 1) recomputed rows

/-- `verify_chain`; `Value.none` is no expected head. -/
def verifyChain (rows : List AuditLog) (expectedHead : Value) : Except Exc Report :=
  verifyRows expectedHead 0 genesisHash rows

/-! ### The repository -/

namespace AuditRepository

/-- `HEAD_KEY`. -/
def headKey : PyStr := py "audit_chain_head"

/-- `ACCESS_DENIED`. -/
def accessDenied : PyStr := py "ACCESS_DENIED"

/-- The sequence number behind the head. -/
def nextSequence : Option AuditLog → Except Exc ℤ
  | none => .ok 1
  | some head => (pyInt head.entry.sequence).map (· + 1)

/-- The hash an entry behind the head commits to. -/
def previousHash : Option AuditLog → Value
  | none => .str genesisHash
  | some head => head.entryHash

/-- What is logged. -/
structure Occurrence where
  /-- `requester_email`. -/
  requesterEmail : Option PyStr
  /-- `action`. -/
  action : PyStr
  /-- `target_type`. -/
  targetType : PyStr
  /-- `target_identifier`. -/
  targetIdentifier : PyStr
  /-- `result`. -/
  result : PyStr

/-- The entry for an occurrence. -/
def Occurrence.entry (o : Occurrence) (sequence : ℤ) (now : PyStr) : Entry where
  sequence := .int sequence
  requesterEmail := match o.requesterEmail with
    | none => .none
    | some e => .str e
  action := .str o.action
  targetType := .str o.targetType
  targetIdentifier := .str o.targetIdentifier
  result := .str o.result
  createdAt := .str now

/-- The transaction of `log`. -/
def append (o : Occurrence) (now : PyStr) : Act Unit := do
  let head ← query [] (fetchone AuditLog.headCells) Database.selectHead
  let sequence ← Prog.done (nextSequence head)
  let prevHash := previousHash head
  let entry := o.entry sequence now
  let entryHash ← Prog.done (computeEntryHash prevHash entry)
  -- `prev_hash` was read from a cell and `entry_hash` has 64 digits: binding them does not raise,
  -- and both count as 64 digits in the length of the row
  execute entry.cells <| limitRow (entry.cells ++ [.str genesisHash, .str genesisHash]) fun db =>
    (db.insertLog entry prevHash (.str entryHash)).map fun db => ((), db)
  execute [.str headKey] fun db => .ok ((), db.replaceMetadata headKey (.str entryHash))

/-- `AuditRepository.log`. -/
def log (o : Occurrence) : Act Unit := do
  let now ← now
  connection .transaction (append o now)

/-- `AuditRepository.log_denied_access`. -/
def logDeniedAccess (requesterEmail targetType targetIdentifier : PyStr) : Act Unit :=
  log ⟨some requesterEmail, accessDenied, targetType, targetIdentifier, py "DENIED"⟩

/-- `AuditRepository.list_for_requester`. -/
def listForRequester (requesterEmail : PyStr) (limit : ℤ) : Act (List AuditLog) :=
  connection .transaction <| query [.str requesterEmail, .int limit] (fetchall AuditLog.shownCells) fun db =>
    db.selectRequester requesterEmail limit

/-- `AuditRepository.stored_head`; `Value.none` where there is no such row. -/
def storedHead : Act Value := do
  let row ← connection .transaction (query [.str headKey] (fetchone SchemaMetadata.cells) fun db => db.selectMetadata headKey)
  return match row with
    | none => .none
    | some m => m.value

/-- `AuditRepository.verify`. -/
def verify : Act Report := do
  let rows ← connection .transaction (query [] (fetchall AuditLog.cells) Database.selectLogs)
  let stored ← storedHead
  let expected := if rows.isEmpty then .none else stored
  Prog.done (verifyChain rows expected)

end AuditRepository

/-! ### What the log leaves alone -/

/-- The world without the audit log and the stored head. -/
def World.besideLog (w : World) : World :=
  { w with db := { w.db with auditLogs := .empty, schemaMetadata := [] } }

omit [Platform] in
theorem World.besideLog_restore {w w' : World} (h : w'.besideLog = w.besideLog) :
    World.besideLog { w' with db := w.db } = w.besideLog := by
  have hrest := congrArg (fun v => ({ v with db := w.besideLog.db } : World)) h
  exact hrest

omit [Platform] in
/-- What changes only the log changes nothing that does not depend on it. -/
theorem Keeps.aside {γ α : Type} {g : World → γ} {p : Act α} (h : Keeps World.besideLog p)
    (hg : ∀ w, g w = g w.besideLog) : Keeps g p :=
  h.weaken fun {w w'} heq => by rw [hg w, hg w', heq]

namespace AuditRepository

theorem append_keeps (o : Occurrence) (now : PyStr) : Keeps World.besideLog (append o now) := by
  refine .bind (.query _ _) fun head => .bind (.done _) fun sequence => .bind (.done _) fun entryHash =>
    .bind (.execute fun w _ db hins => ?_) fun _ => .execute fun w _ db hrep => ?_
  · obtain ⟨-, hins⟩ := limitRow_eq_ok.mp hins
    simp only [Database.insertLog] at hins
    split_ifs at hins
    · simp [Except.map] at hins
    · cases hid : w.db.auditLogs.nextId AuditLog.id with
      | error e => simp [hid, Except.map] at hins
      | ok n =>
        simp only [hid, ok_bind] at hins
        obtain ⟨-, rfl⟩ := Prod.mk.inj (Except.ok.inj hins)
        rfl
  · obtain ⟨-, rfl⟩ := Prod.mk.inj (Except.ok.inj hrep)
    rfl

/-- Logging changes the log and the stored head only. -/
theorem log_keeps (o : Occurrence) : Keeps World.besideLog (log o) :=
  .bind .now fun _ => .connection (append_keeps _ _) fun _ _ => World.besideLog_restore

end AuditRepository

end MiniVault
