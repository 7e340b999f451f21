import MiniVault.Audit.Errors
import MiniVault.Core.Sample
import MiniVault.Services.Runs

/-!
# The log of denials

The services log one thing: that a requester was denied a path or a key. What was denied in
a run is said without the log (`denials`): the operations that were refused because of whom
the path or the key belongs to, in order.

## What is proved

* `Denies.step` — what one operation does to the log: it appends an entry where it is denied,
  and nothing elsewhere.
* `log_lists_denials` — after every run the log holds the denials of the run, in order, and
  each requester's list is theirs, newest first.
-/

namespace MiniVault

open Foundations

/-! ### What is denied -/

/-- A denial: to whom, and of what. -/
structure Denial where
  /-- `requester_email`. -/
  requester : PyStr
  /-- `target_type`. -/
  targetType : PyStr
  /-- `target_identifier`. -/
  targetIdentifier : PyStr
  deriving DecidableEq

/-- The columns of an entry besides its number and its time. -/
def AuditLog.shown (row : AuditLog) : List Value :=
  [row.entry.requesterEmail, row.entry.action, row.entry.targetType, row.entry.targetIdentifier, row.entry.result]

/-- What the entry of a denial shows. -/
def Denial.shown (d : Denial) : List Value :=
  [.str d.requester, .str AuditRepository.accessDenied, .str d.targetType, .str d.targetIdentifier, .str (py "DENIED")]

/-- The errors that refuse an operation because of an owner. -/
def Exc.isRefusal : Exc → Bool
  | .permissionDeniedError => true
  | .keyUnavailableError => true
  | _ => false

theorem Exc.isRefusal_of_library {e : Exc} (h : e.isLibrary) : e.isRefusal = false := by
  cases e <;> first | rfl | cases h

/-- The error an operation is refused with. -/
def ServiceOp.refusal : ServiceOp → Exc
  | .kv _ => .permissionDeniedError
  | .transit _ => .keyUnavailableError

/-- An operation ended with the error. -/
def endedWith {α : Type} (e : Exc) : Except Exc α → Bool
  | .error e' => e' = e
  | .ok _ => false

variable [Platform]

/-- What is denied to an operation: a path that is foreign or malformed. -/
def KvOp.denial (op : KvOp) : Option Denial :=
  match op.target with
  | none => none
  | some (owner, path) =>
    if (extractOwnerEmailFromPath path).toOption = some owner then none else some ⟨owner, py "kv_path", path⟩

omit [Platform] in
/-- What is denied to an operation: a key with a well-formed name that is not the owner's. -/
def TransitOp.denial (db : Database) (op : TransitOp) : Option Denial :=
  match op.target with
  | none => none
  | some (owner, name) =>
    if keyNamePattern name ∧ db.selectKey owner name = none then some ⟨owner, py "named_key", name⟩ else none

/-- What is denied to an operation, where its requester does not own what it names. -/
def ServiceOp.denial (db : Database) : ServiceOp → Option Denial
  | .kv op => op.denial
  | .transit op => op.denial db

/-- What an operation was denied: it was refused, and for that reason. -/
def ServiceOp.denied (passphrase : PyStr) (w : World) (op : ServiceOp) : Option Denial :=
  if endedWith op.refusal ((op.exec passphrase).run w).1 then op.denial w.db else none

/-- The denials of a run, in order. -/
def denials (passphrase : PyStr) : World → List ServiceOp → List Denial
  | _, [] => []
  | w, op :: ops => (op.denied passphrase w).toList ++ denials passphrase ((op.exec passphrase).run w).2 ops

/-! ### What an operation does to the log -/

/-- What `log_denied_access` logs. -/
def Denial.occurrence (d : Denial) : AuditRepository.Occurrence :=
  ⟨some d.requester, AuditRepository.accessDenied, d.targetType, d.targetIdentifier, py "DENIED"⟩

/-- Where there is a cause, the program logs it and is refused, unless the requester could not be looked
up at all; where there is none, it leaves the log. -/
structure Denies {α : Type} (cause : Database → Option Denial) (refusal : Exc) (p : Act α) : Prop where
  /-- Without a cause. -/
  quiet : ∀ w, cause w.db = none → (p.run w).2.db.logPart = w.db.logPart
  /-- With one. -/
  logs : ∀ w d, cause w.db = some d →
    (¬ Bindable d.requester ∧ ∃ e, e ≠ refusal ∧ p.run w = (.error e, w)) ∨
      p.run w = (AuditRepository.log d.occurrence >>= fun _ => throw refusal : Act α).run w

/-- A program that leaves the log denies nothing. -/
theorem Keeps.denies {α : Type} {p : Act α} (h : Keeps (fun w => w.db.logPart) p) (refusal : Exc) :
    Denies (fun _ => none) refusal p :=
  ⟨fun w _ => h.run w, fun _ _ hd => by cases hd⟩

/-- **Authorization denies foreign paths**, and what follows it denies nothing. -/
theorem denies_authorize {α : Type} {owner path : PyStr} {k : Unit → Act α}
    (hk : ∀ u, Keeps (fun w => w.db.logPart) (k u)) :
    Denies (fun _ => if (extractOwnerEmailFromPath path).toOption = some owner then none
      else some ⟨owner, py "kv_path", path⟩) .permissionDeniedError (KvService.authorize owner path >>= k) := by
  by_cases hown : (extractOwnerEmailFromPath path).toOption = some owner
  · have hauth : KvService.authorize owner path = pure () := by
      simp only [KvService.authorize, hown, ne_eq, not_true_eq_false, ↓reduceIte]
    simp only [hown, ↓reduceIte, hauth]
    exact (hk ()).denies _
  · have hauth : KvService.authorize owner path =
        AuditRepository.log (Denial.occurrence ⟨owner, py "kv_path", path⟩) >>= fun _ => throw .permissionDeniedError := by
      simp only [KvService.authorize, ne_eq, hown, not_false_eq_true, ↓reduceIte]
      rfl
    simp only [hown, ↓reduceIte, hauth]
    refine ⟨fun _ h => (by cases h), fun w d hd => .inr ?_⟩
    rw [← Option.some.inj hd, Prog.bind_assoc]
    rfl

/-- The rest of the look for a key, by the row that was found. -/
def foundKey (owner name : PyStr) : Option NamedKey → Act NamedKey
  | none => AuditRepository.log (Denial.occurrence ⟨owner, py "named_key", name⟩) >>= fun _ => throw .keyUnavailableError
  | some row => pure row

theorem TransitService.ownedKey_eq (owner name : PyStr) :
    ownedKey owner name =
      validateKeyName name >>= fun _ => NamedKeyRepository.getOwned owner name >>= foundKey owner name := by
  refine congrArg (_ >>= ·) (funext fun _ => congrArg (_ >>= ·) (funext fun row => ?_))
  cases row <;> rfl

/-- **The look for a key denies the keys of others**, and what follows it denies nothing. -/
theorem denies_ownedKey {α : Type} {owner name : PyStr} {k : NamedKey → Act α}
    (hk : ∀ r, Keeps (fun w => w.db.logPart) (k r)) :
    Denies (fun db => if keyNamePattern name ∧ db.selectKey owner name = none then some ⟨owner, py "named_key", name⟩
      else none) .keyUnavailableError (TransitService.ownedKey owner name >>= k) := by
  by_cases hname : keyNamePattern name
  · have hvalid : ∀ w, (TransitService.validateKeyName name).run w = (.ok (), w) :=
      fun w => TransitService.run_validateKeyName_eq_ok.mpr ⟨hname, rfl⟩
    -- what is left after the name was found to be one
    have hrun : ∀ w, (TransitService.ownedKey owner name >>= k).run w =
        (NamedKeyRepository.getOwned owner name >>= fun row => foundKey owner name row >>= k).run w := by
      intro w
      rw [TransitService.ownedKey_eq, Prog.bind_assoc, Prog.run_bind_ok (hvalid w), Prog.bind_assoc]
    by_cases howner : Bindable owner
    · refine ⟨fun w hcause => ?_, fun w d hcause => .inr ?_⟩
      · rw [Database.selectKey_eq] at hcause
        have hreads : Keeps (fun w => w) (NamedKeyRepository.getOwned owner name) := TransitService.reads_keep
        rw [hrun]
        rcases hget : (NamedKeyRepository.getOwned owner name).run w with ⟨e | row, w'⟩
        · rw [Prog.run_bind_error hget]
          exact congrArg (fun w => w.db.logPart) ((congrArg Prod.snd hget).symm.trans (hreads.run w))
        obtain ⟨-, -, -, hkey, rfl⟩ := TransitService.run_getOwned_eq_ok.mp hget
        rw [Prog.run_bind_ok hget]
        cases row with
        | none => simp [hname, hkey] at hcause
        | some r => exact (hk r).run w
      · rw [Database.selectKey_eq] at hcause
        rw [hrun]
        cases hkey : w.db.keyAt owner name with
        | some r => simp [hkey] at hcause
        | none =>
          simp only [hname, hkey, and_self, ↓reduceIte, Option.some.injEq] at hcause
          have hget := TransitService.run_getOwned_eq_ok.mpr ⟨howner, bindable_keyName hname, by simp, hkey, rfl⟩
          rw [Prog.run_bind_ok hget, ← hcause, foundKey, Prog.bind_assoc]
          rfl
    · obtain ⟨e, he⟩ := bindValue_str_error howner
      have hbind : bindAll [.str owner, .str name] = .error e := by rw [bindAll, he, error_bind]
      have hget : ∀ w, (NamedKeyRepository.getOwned owner name).run w = (.error e, w) := by
        intro w
        unfold NamedKeyRepository.getOwned
        rw [run_connection, run_query_error hbind]
      refine ⟨fun w _ => by rw [hrun, Prog.run_bind_error (hget w)], fun w d hcause => .inl ?_⟩
      split_ifs at hcause
      rw [← Option.some.inj hcause]
      refine ⟨howner, e, ?_, by rw [hrun, Prog.run_bind_error (hget w)]⟩
      rintro rfl
      cases bindAll_isLibrary hbind
  · have hrun : ∀ w, (TransitService.ownedKey owner name >>= k).run w = (.error .invalidKeyNameError, w) := by
      intro w
      have hvalid : (TransitService.validateKeyName name).run w = (.error .invalidKeyNameError, w) := by
        simp [TransitService.validateKeyName, hname]
      unfold TransitService.ownedKey
      rw [Prog.bind_assoc, Prog.run_bind_error hvalid]
    refine ⟨fun w _ => by rw [hrun], fun w d hcause => ?_⟩
    rw [if_neg fun h => hname h.1] at hcause
    cases hcause

/-- An operation that answers denies what its program denies. -/
theorem Denies.answer {α β : Type} {cause : Database → Option Denial} {refusal : Exc} {p : Act α}
    (h : Denies cause refusal p) (f : α → β) : Denies cause refusal (p >>= fun a => pure (f a)) := by
  refine ⟨fun w hw => ?_, fun w d hd => ?_⟩
  · have hquiet := h.quiet w hw
    rw [run_answer]
    rcases hrun : p.run w with ⟨e | a, w'⟩ <;> rw [hrun] at hquiet <;> exact hquiet
  · rcases h.logs w d hd with ⟨hrequester, e, he, hrun⟩ | hrun
    · exact .inl ⟨hrequester, e, he, by rw [run_answer, hrun]⟩
    · refine .inr ?_
      rw [run_answer, hrun]
      rcases hlog : (AuditRepository.log d.occurrence).run w with ⟨e | u, w'⟩
      · rw [Prog.run_bind_error hlog, Prog.run_bind_error hlog]
      · rw [Prog.run_bind_ok hlog, Prog.run_bind_ok hlog]
        rfl

/-- **What an operation denies**, whatever its kind. -/
theorem ServiceOp.exec_denies (passphrase : PyStr) (op : ServiceOp) :
    Denies (fun db => op.denial db) op.refusal (op.exec passphrase) := by
  cases op with
  | kv op =>
    refine Denies.answer (p := op.exec passphrase) ?_ ServiceAnswer.kv
    cases htarget : op.target with
    | none =>
      simp only [ServiceOp.denial, KvOp.denial, htarget]
      exact (op.exec_keepsDb passphrase htarget).besideDb.denies _
    | some target =>
      obtain ⟨owner, path⟩ := target
      obtain ⟨k, hexec, hk⟩ := op.afterAuthorize passphrase htarget
      simp only [ServiceOp.denial, KvOp.denial, htarget, hexec]
      exact denies_authorize fun u => (hk u).ofTables Database.logPart_of_besideRecords
  | transit op =>
    refine Denies.answer (p := op.exec passphrase) ?_ ServiceAnswer.transit
    cases htarget : op.target with
    | none =>
      simp only [ServiceOp.denial, TransitOp.denial, htarget]
      exact ((op.exec_besideKeys passphrase htarget).ofTables Database.logPart_of_besideKeys).denies _
    | some target =>
      obtain ⟨owner, name⟩ := target
      obtain ⟨k, hexec, hk⟩ := op.afterOwnedKey passphrase htarget
      simp only [ServiceOp.denial, TransitOp.denial, htarget, hexec]
      exact denies_ownedKey fun r => (hk r).ofTables Database.logPart_of_besideKeys

/-! ### Runs -/

omit [Platform] in
theorem denial_shown_rowOf (d : Denial) (n : ℕ) (now : PyStr) (id : ℤ) (h q : PyStr) :
    (AuditRepository.rowOf d.occurrence n now id h q).shown = d.shown := rfl

omit [Platform] in
theorem endedWith_error {α : Type} {e e' : Exc} : endedWith e (.error e' : Except Exc α) = true ↔ e' = e := by
  simp [endedWith]

/-- The log can take the entry of the denial: its texts have UTF-8 bytes, and there is room for its row. -/
def Denial.Loggable (d : Denial) (w : World) : Prop :=
  d.occurrence.Encodable ∧ AuditRepository.HasRoom w.db ∧ d.occurrence.RowFits w.db (isoformat w.clock)

omit [Platform] in
/-- The requester of a denial that can be logged can be bound. -/
theorem Denial.Loggable.bindable {d : Denial} {w : World} (h : d.Loggable w) : Bindable d.requester :=
  bindable_of_row h.2.2 (List.mem_append_left _ (by simp [Entry.cells, AuditRepository.Occurrence.entry, occurrence]))
    (h.1.1 d.requester rfl)

/-- The log is one that only `log` wrote. -/
def LogKept (db : Database) : Prop := ∃ h, LogSound db h

theorem LogKept.of_logPart {db db' : Database} (h : LogKept db) (hpart : db'.logPart = db.logPart) :
    LogKept db' ∧ db'.auditLogs = db.auditLogs := by
  simp only [Database.logPart, Prod.mk.injEq] at hpart
  obtain ⟨q, hq⟩ := h
  exact ⟨⟨q, by rw [hpart.1]; exact hq.numbered, by rw [hpart.1]; exact hq.linked, by rw [hpart.1]; exact hq.plain⟩, hpart.1⟩

/-- **What one operation does to the log**: it appends the entry of its denial, where there is one, and
nothing else; and where there is a cause, it is denied unless the log cannot take the entry. -/
theorem Denies.step {α : Type} {cause : Database → Option Denial} {refusal : Exc} {p : Act α}
    (h : Denies cause refusal p) (hrefusal : refusal.isRefusal) {w : World} (hs : LogKept w.db) :
    (LogKept (p.run w).2.db ∧ (p.run w).2.db.auditLogs.rows.map AuditLog.shown =
      w.db.auditLogs.rows.map AuditLog.shown ++
        (if endedWith refusal (p.run w).1 then cause w.db else none).toList.map Denial.shown) ∧
      ∀ d, cause w.db = some d → d.Loggable w → endedWith refusal (p.run w).1 := by
  cases hcause : cause w.db with
  | none =>
    obtain ⟨hkept, hlogs⟩ := hs.of_logPart (h.quiet w hcause)
    exact ⟨⟨hkept, by simp [hlogs]⟩, fun _ hd => by cases hd⟩
  | some d =>
    rcases h.logs w d hcause with ⟨hrequester, e, he, hrun⟩ | hrun
    · refine ⟨⟨by rwa [hrun], by simp [hrun, endedWith, he]⟩, fun d' hd hloggable => ?_⟩
      rw [← Option.some.inj hd] at hloggable
      exact absurd hloggable.bindable hrequester
    · obtain ⟨q, hq⟩ := hs
      rcases hlog : (AuditRepository.log d.occurrence).run w with ⟨e | u, w'⟩
      · -- the log does not take the entry
        have hne : e ≠ refusal := by
          rintro rfl
          rw [Exc.isRefusal_of_library ((AuditRepository.log_fails d.occurrence).run hlog)] at hrefusal
          cases hrefusal
        rw [Prog.run_bind_error hlog] at hrun
        obtain rfl := AuditRepository.run_log_error hlog
        refine ⟨⟨by rw [hrun]; exact ⟨q, hq⟩, by simp [hrun, endedWith, hne]⟩, fun d' hd hloggable => ?_⟩
        rw [← Option.some.inj hd] at hloggable
        obtain ⟨w'', hok⟩ := AuditRepository.run_log_ok hq hloggable.1 hloggable.2.1 hloggable.2.2
        rw [hlog] at hok
        cases hok
      · rw [Prog.run_bind_ok hlog, Prog.run_throw] at hrun
        obtain ⟨-, -, -, id, q', hq', rfl⟩ := AuditRepository.run_log_eq_ok hq hlog
        refine ⟨⟨?_, ?_⟩, fun _ _ _ => by rw [hrun]; exact endedWith_error.mpr rfl⟩
        · rw [hrun]
          exact ⟨q', AuditRepository.logged_sound hq hq'⟩
        · have hrows : (AuditRepository.logged w.db (AuditRepository.rowOf d.occurrence w.db.auditLogs.rows.length
              (isoformat w.clock) id q q') q').auditLogs.rows = w.db.auditLogs.rows ++
                [AuditRepository.rowOf d.occurrence w.db.auditLogs.rows.length (isoformat w.clock) id q q'] := rfl
          rw [hrun]
          simp only [hrows, endedWith, decide_true, ↓reduceIte, Option.toList_some, List.map_append, List.map_cons,
            List.map_nil, denial_shown_rowOf]

omit [Platform] in
theorem ServiceOp.isRefusal_refusal (op : ServiceOp) : op.refusal.isRefusal := by
  cases op <;> rfl

/-- **What a run does to the log**: it appends the denials of the run, in order. -/
theorem serviceSession_log (passphrase : PyStr) (ops : List ServiceOp) {w : World} (hs : LogKept w.db) :
    LogKept (serviceSession passphrase w ops).2.db ∧
      (serviceSession passphrase w ops).2.db.auditLogs.rows.map AuditLog.shown =
        w.db.auditLogs.rows.map AuditLog.shown ++ (denials passphrase w ops).map Denial.shown := by
  induction ops generalizing w with
  | nil => exact ⟨hs, by simp [serviceSession, Prog.session, denials]⟩
  | cons op ops ih =>
    obtain ⟨⟨hkept, hlogs⟩, -⟩ := (op.exec_denies passphrase).step op.isRefusal_refusal hs
    obtain ⟨hkept', hlogs'⟩ := ih hkept
    refine ⟨hkept', hlogs'.trans ?_⟩
    rw [hlogs, denials, List.map_append, List.append_assoc]
    rfl

/-! ### The list of a requester -/

omit [Platform] in
theorem limited_natCast {ρ : Type} (limit : ℕ) (rows : List ρ) : Database.limited limit rows = rows.take limit := by
  simp [Database.limited]

omit [Platform] in
theorem mem_of_mem_limited {ρ : Type} {limit : ℤ} {rows : List ρ} {r : ρ} (h : r ∈ Database.limited limit rows) : r ∈ rows := by
  unfold Database.limited at h
  split_ifs at h
  · exact h
  · exact List.mem_of_mem_take h

/-- The columns shown are of the requester. -/
def shownTo (u : PyStr) (columns : List Value) : Bool := columns.head? = some (.str u)

omit [Platform] in
theorem shownTo_denial (u : PyStr) (d : Denial) : shownTo u d.shown = decide (d.requester = u) := by
  simp [shownTo, Denial.shown]

omit [Platform] in
theorem shownTo_row (u : PyStr) (row : AuditLog) : shownTo u row.shown = row.entry.requesterEmail.sqlEq (.str u) := by
  cases hrequester : row.entry.requesterEmail <;> simp [shownTo, AuditLog.shown, hrequester, Value.sqlEq]

/-- What a requester is shown can be fetched. -/
theorem LogSound.fetchable_requester {db : Database} {h : PyStr} (hs : LogSound db h) {u : PyStr} {limit : ℤ} :
    Fetchable (fetchall AuditLog.shownCells (db.selectRequester u limit)) := by
  rw [fetchable_fetchall]
  intro row hrow
  have hsorted := mem_of_mem_limited hrow
  have hmem := (List.mem_filter.mp ((List.perm_insertionSort _ _).mem_iff.mp hsorted)).1
  apply (hs.fetchable row hmem).subset
  simp [AuditLog.shownCells, AuditLog.cells]

/-- **A requester is shown their own denials**, newest first. -/
theorem LogSound.run_listForRequester {w : World} {h : PyStr} (hs : LogSound w.db h) {denied : List Denial}
    (hlogs : w.db.auditLogs.rows.map AuditLog.shown = denied.map Denial.shown) {u : PyStr} (hu : Bindable u) {limit : ℕ}
    (hlimit : Fits limit) :
    ∃ rows, (AuditRepository.listForRequester u limit).run w = (.ok rows, w) ∧
      rows.map AuditLog.shown = ((denied.filter (·.requester = u)).reverse.take limit).map Denial.shown := by
  have hbind : bindAll [.str u, .int limit] = .ok () := bindAll_ok (by simp [bindValue_str hu, bindValue_int hlimit])
  refine ⟨_, run_connection_eq_ok.mpr (run_query_eq_ok.mpr ⟨hbind, hs.fetchable_requester, rfl, rfl⟩), ?_⟩
  have hsorted : (w.db.auditLogs.rows.filter fun r => r.entry.requesterEmail.sqlEq (.str u)).Pairwise
      fun a b => ¬ b.entry.sequence.le a.entry.sequence := by
    apply (hs.pairwise.filter _).imp
    rintro a b ⟨m, n, ha, hb, hmn⟩
    rw [ha, hb]
    simpa using hmn
  have hmine : (w.db.auditLogs.rows.filter fun r => r.entry.requesterEmail.sqlEq (.str u)).map AuditLog.shown =
      (denied.filter (·.requester = u)).map Denial.shown := by
    calc _ = (w.db.auditLogs.rows.map AuditLog.shown).filter (shownTo u) := by
          rw [List.filter_map]
          exact congrArg _ (List.filter_congr fun row _ => (shownTo_row u row).symm)
      _ = (denied.map Denial.shown).filter (shownTo u) := by rw [hlogs]
      _ = _ := by
          rw [List.filter_map]
          exact congrArg _ (List.filter_congr fun d _ => shownTo_denial u d)
  unfold Database.selectRequester
  rw [limited_natCast, insertionSort_eq_reverse hsorted, List.map_take, List.map_reverse, hmine, ← List.map_reverse,
    ← List.map_take]

/-- A fresh log was written by `log` alone. -/
theorem logKept_fresh : LogKept .fresh :=
  ⟨genesisHash, fun _ _ h => (by cases h), rfl, fun _ h => (by cases h)⟩

/-- **The audit log is the list of denials.** After every run the entries are, in the order
of their numbers, the denials of the run; an operation with a cause is denied unless the log
cannot take its entry; and each requester is shown their own denials, newest first. -/
theorem log_lists_denials (environ : PyStr → Option PyStr) (passphrase : PyStr) (coins : VaultService.InitCoins)
    (ops : List ServiceOp) :
    let start := serviceStart environ passphrase coins
    let w := (serviceSession passphrase start ops).2
    let denied := denials passphrase start ops
    w.db.selectLogs.map AuditLog.shown = denied.map Denial.shown ∧
      (∀ (i : ℕ) row, w.db.selectLogs[i]? = some row → row.entry.sequence = .int (i + 1)) ∧
      (∀ before op after, ops = before ++ op :: after → ∀ d,
        op.denial (serviceSession passphrase start before).2.db = some d →
          d.Loggable (serviceSession passphrase start before).2 →
            endedWith op.refusal ((op.exec passphrase).run (serviceSession passphrase start before).2).1) ∧
      ∀ (u : PyStr) (limit : ℕ), Bindable u → Fits limit →
        ∃ rows, (AuditRepository.listForRequester u limit).run w = (.ok rows, w) ∧
          rows.map AuditLog.shown = ((denied.filter (·.requester = u)).reverse.take limit).map Denial.shown := by
  intro start w denied
  have hstart : start.db = .fresh := serviceStart_db environ passphrase coins
  have hfresh : LogKept start.db := hstart ▸ logKept_fresh
  obtain ⟨⟨h, hs⟩, hlogs⟩ := serviceSession_log passphrase ops hfresh
  have hrows : w.db.auditLogs.rows.map AuditLog.shown = denied.map Denial.shown := by
    apply hlogs.trans
    rw [hstart]
    rfl
  refine ⟨by rw [hs.selectLogs_eq, hrows], by rw [hs.selectLogs_eq]; exact hs.numbered, ?_, ?_⟩
  · intro before op after _ d hcause hloggable
    have hkept := (serviceSession_log passphrase before hfresh).1
    exact ((op.exec_denies passphrase).step op.isRefusal_refusal hkept).2 d hcause hloggable
  · intro u limit hu hlimit
    exact hs.run_listForRequester hrows hu hlimit

end MiniVault

namespace MiniVault

open Foundations

/-! ### An example -/

section Sample

attribute [local instance] samplePlatform

/-- A user who owns nothing. -/
def sampleStranger : PyStr := py "d@e.f"

/-- A run with the vault locked: a path of another user, a key that is not there, and a path
of one's own. -/
def sampleDenied : List ServiceOp :=
  [.kv (.write sampleStranger samplePath [] (sampleNonce 5)), .transit (.deleteKey sampleOwner sampleKeyName),
    .kv (.read sampleOwner samplePath none)]

/-- The world after it. -/
def sampleDeniedWorld : World :=
  (serviceSession samplePassphrase (serviceStart (fun _ => none) samplePassphrase sampleCoins) sampleDenied).2

/-- What was denied. -/
def sampleDenials : List Denial :=
  [⟨sampleStranger, py "kv_path", samplePath⟩, ⟨sampleOwner, py "named_key", sampleKeyName⟩]

theorem sampleDenials_eq :
    denials samplePassphrase (serviceStart (fun _ => none) samplePassphrase sampleCoins) sampleDenied = sampleDenials := by
  decide +kernel

attribute [local irreducible] Prog.session

/-- The first two operations are denied, and each user is shown their own denial. -/
theorem log_lists_denials_sample :
    sampleDeniedWorld.db.selectLogs.map AuditLog.shown = sampleDenials.map Denial.shown ∧
      ∃ rows, (AuditRepository.listForRequester sampleOwner (100 : ℕ)).run sampleDeniedWorld = (.ok rows, sampleDeniedWorld) ∧
        rows.map AuditLog.shown = [Denial.shown ⟨sampleOwner, py "named_key", sampleKeyName⟩] := by
  unfold sampleDeniedWorld
  obtain ⟨hlogs, -, -, hlists⟩ := log_lists_denials (fun _ => none) samplePassphrase sampleCoins sampleDenied
  obtain ⟨rows, hrun, hrows⟩ := hlists sampleOwner 100 (by decide) (by decide)
  rw [sampleDenials_eq] at hlogs hrows
  have hown : ((sampleDenials.filter (·.requester = sampleOwner)).reverse.take 100).map Denial.shown =
      [Denial.shown ⟨sampleOwner, py "named_key", sampleKeyName⟩] := by decide +kernel
  exact ⟨hlogs, rows, hrun, hrows.trans hown⟩

end Sample

end MiniVault
