import MiniVault.Audit.Localization
import MiniVault.Foundations.Interference
import MiniVault.Services.Exceptions

/-!
# Requests at once

The server answers its requests in threads. What the tables hold in common to all of them —
the numbers of versions, the chain of the log — has to stand whatever the order in which
their transactions commit.

## The model

* A pool of requests is any list of operations of the application (`AppOp`), each a program
  in atomic steps, run by any schedule.
* `LogsFor` — what a request adds to the audit log, as far as its answer shows.

## What is proved

* `tables_in_order` — the version tables of both services are gapless in every state that
  any interleaving reaches.
* `log_in_order` — so is the audit log: `verify` finds it valid, with every row it has.
* `log_lists_refusals` — it holds an entry for each request that was refused, and nothing
  else, in some order.
-/

namespace MiniVault

open Foundations

section Interleavings

variable [Platform]

/-- The requests at work. -/
def requests (w : World) (ops : List AppOp) : Config World Label Exc Unit := ⟨w, ops.map AppOp.exec⟩

/-! ### The version tables -/

/-- The steps of the program leave the tables of the key-value store in order. -/
def KeepsSound {α : Type} (p : Act α) : Prop := p.Sat (fun _ => True) fun _ w w' => w.db.KvSound → w'.db.KvSound

section KeepsSound

variable {α β : Type}

omit [Platform] in
theorem KeepsSound.bind {p : Act α} {f : α → Act β} (hp : KeepsSound p) (hf : ∀ a, KeepsSound (f a)) :
    KeepsSound (p >>= f) :=
  Prog.Sat.bind hp hf

omit [Platform] in
/-- What keeps the tables keeps them in order. -/
theorem Keeps.keepsSound {p : Act α} (h : Keeps (fun w => w.db.recordPart) p) : KeepsSound p :=
  Prog.Sat.mono h (fun _ => id) fun _ _ _ hpart hsound => hsound.of_recordPart hpart

omit [Platform] in
/-- A transaction leaves them in order where it does when it commits. -/
theorem KeepsSound.connection {label : Label} {body : Act α}
    (h : ∀ w a w', w.db.KvSound → body.run w = (.ok a, w') → w'.db.KvSound) :
    KeepsSound (MiniVault.connection label body) := by
  refine Prog.Sat.atomic fun w _ hsound => ?_
  show ((MiniVault.connection label body).run w).2.db.KvSound
  rw [run_connection]
  rcases hrun : body.run w with ⟨e | a, w'⟩
  · exact hsound
  · exact h w a w' hsound hrun

end KeepsSound

/-- **The operations of the key-value store leave its tables in order**, step by step. -/
theorem KvOp.exec_keepsSound (passphrase : PyStr) (op : KvOp) : KeepsSound (op.exec passphrase) := by
  have hauth : ∀ owner path, KeepsSound (KvService.authorize owner path) :=
    fun owner path => Keeps.keepsSound ((KvService.authorize_keeps owner path).aside fun _ => rfl)
  cases op with
  | write owner path data nonce =>
    refine .bind (.bind (hauth _ _) fun _ => .bind Keeps.getDek.keepsSound fun _ =>
      .bind (Keeps.done _).keepsSound fun plaintext => .bind Keeps.getDek.keepsSound fun dek => ?_) fun _ => .pure _
    rw [KvService.appendVersion_eq]
    refine .bind Keeps.now.keepsSound fun now => .connection fun w a w' hsound hrun => ?_
    obtain ⟨-, -, _, _, -, -, _, _, _, halloc, hins, rfl⟩ := KvService.run_appendBody_eq_ok hrun
    exact (halloc.append hsound hins).1
  | delete owner path =>
    refine .bind (.bind (hauth _ _) fun _ => .bind Keeps.getDek.keepsSound fun _ =>
      .bind (.connection fun w b w' hsound hrun => ?_)
      fun deleted => Prog.Sat.ite (fun _ => .throw _) fun _ => .pure _) fun _ => .pure _
    obtain ⟨_, _, hexecute, h⟩ := Prog.run_bind_eq_ok.mp hrun
    obtain ⟨-, db, hdb, rfl⟩ := run_execute_eq_ok.mp hexecute
    obtain ⟨-, rfl⟩ := Prod.mk.inj (Except.ok.inj hdb)
    obtain ⟨-, rfl⟩ := Prod.mk.inj h
    exact (Database.deleteRecord_spec hsound owner path).1
  | read owner path version =>
    exact .bind (Keeps.keepsSound ((KvService.read_keeps owner path version).aside fun _ => rfl)) fun _ => .pure _
  | versions owner path =>
    exact .bind (Keeps.keepsSound ((KvService.versions_keeps owner path).aside fun _ => rfl)) fun _ => .pure _
  | lock => exact Keeps.keepsSound (KvOp.lock.exec_keepsDb passphrase rfl).besideDb
  | unlock => exact Keeps.keepsSound (KvOp.unlock.exec_keepsDb passphrase rfl).besideDb
  | restart => exact Keeps.keepsSound (KvOp.restart.exec_keepsDb passphrase rfl).besideDb
  | tick time => exact Keeps.keepsSound ((KvOp.tick time).exec_keepsDb passphrase rfl).besideDb

/-- What the operations of the application that are none of the two services keep. -/
theorem AppOp.exec_keepsRest {γ : Type} {f : Database → γ}
    (hf : ∀ db db' : Database, db'.besideAccounts = db.besideAccounts → f db' = f db) {op : AppOp}
    (hop : ∀ passphrase service, op ≠ .service passphrase service) : Keeps (fun w => f w.db) op.exec := by
  cases op with
  | vault op => exact .bind op.exec_keepsDb.besideDb fun _ => .pure _
  | service passphrase op => exact absurd rfl (hop passphrase op)
  | auth op => exact .bind (op.exec_besideAccounts.ofTables (hf _ _)) fun _ => .pure _
  | currentUser credentials => exact .bind (getCurrentUser_keeps credentials) fun _ => .pure _
  | listAudit requesterEmail limit =>
    exact .bind (Keeps.connectionDb (.query _ _)) fun _ => .pure _
  | verifyAudit =>
    exact .bind (.bind (Keeps.connectionDb (.query _ _)) fun rows => .bind (.bind (Keeps.connectionDb (.query _ _))
      fun row => .pure _) fun stored => .done _) fun _ => .pure _

omit [Platform] in
/-- The accounts are none of the other tables. -/
theorem Database.parts_of_besideAccounts {db db' : Database} (h : db'.besideAccounts = db.besideAccounts) :
    db'.recordPart = db.recordPart ∧ db'.keyTables = db.keyTables ∧ db'.logPart = db.logPart := by
  simp only [besideAccounts, Database.mk.injEq] at h
  simp only [recordPart, keyTables, logPart, h, and_self]

/-- Every request leaves the tables of the key-value store in order, step by step. -/
theorem AppOp.exec_keepsSound (op : AppOp) : KeepsSound op.exec := by
  by_cases hop : ∃ passphrase service, op = .service passphrase service
  · obtain ⟨passphrase, service, rfl⟩ := hop
    cases service with
    | kv op => exact .bind (.bind (op.exec_keepsSound passphrase) fun _ => .pure _) fun _ => .pure _
    | transit op =>
      exact .bind (.bind (op.exec_keepsRecords passphrase).keepsSound fun _ => .pure _) fun _ => .pure _
  · simp only [not_exists] at hop
    exact Keeps.keepsSound (AppOp.exec_keepsRest (fun _ _ h => (Database.parts_of_besideAccounts h).1) hop)

/-- And those of the named keys. -/
theorem AppOp.exec_keepsFit (op : AppOp) : KeepsFit op.exec := by
  by_cases hop : ∃ passphrase service, op = .service passphrase service
  · obtain ⟨passphrase, service, rfl⟩ := hop
    cases service with
    | kv op => exact .bind (.bind (op.exec_keepsKeys passphrase).keepsFit fun _ => .pure _) fun _ => .pure _
    | transit op => exact .bind (.bind (op.exec_keepsFit passphrase) fun _ => .pure _) fun _ => .pure _
  · simp only [not_exists] at hop
    exact Keeps.keepsFit (AppOp.exec_keepsRest (fun _ _ h => (Database.parts_of_besideAccounts h).2.1) hop)

omit [Platform] in
/-- What every step of every program preserves holds after every interleaving. -/
theorem exec_preserves {α : Type} {J : Database → Prop} {c : Config World Label Exc α}
    (h : ∀ p ∈ c.procs, p.Sat (fun _ => True) fun _ (w w' : World) => J w.db → J w'.db) (hJ : J c.state.db) (sched : List ℕ) :
    J (c.exec sched).state.db := by
  refine Config.exec_invariant (I := fun w => J w.db) (G := fun _ (w w' : World) => J w.db → J w'.db) (C := fun _ _ => True)
    (fun _ _ _ hI hstep _ => hstep hI) (fun p hp => ?_) hJ fun _ _ => trivial
  exact (h p hp).mono (fun _ _ => trivial) fun _ _ _ => id

/-- **The version tables are in order in every state that an interleaving of requests reaches**: a record for each
owner and path, a key for each owner and name, the versions of each numbered from one to its latest, once each, and no
version without the row it belongs to. -/
theorem tables_in_order (environ : PyStr → Option PyStr) (ops : List AppOp) (sched : List ℕ) :
    ((requests (.fresh environ) ops).exec sched).state.db.KvSound ∧
      ((requests (.fresh environ) ops).exec sched).state.db.KeySound := by
  refine ⟨exec_preserves (fun p hp => ?_) Database.KvSound.fresh sched,
    (exec_preserves (J := KeysFit) (fun p hp => ?_) KeysFit.fresh sched).sound⟩
  · obtain ⟨op, -, rfl⟩ := List.mem_map.mp hp
    exact op.exec_keepsSound
  · obtain ⟨op, -, rfl⟩ := List.mem_map.mp hp
    exact op.exec_keepsFit

/-! ### The log -/

/-- The log is sound, and the stored head is its last hash; there is none where it has no rows. -/
def LogInOrder (db : Database) : Prop :=
  ∃ h, LogSound db h ∧ (db.selectMetadata AuditRepository.headKey).map SchemaMetadata.value =
    if db.auditLogs.rows = [] then none else some (.str h)

/-- The steps of the program leave the log in order, and `P` holds of its result and the rows it appended. -/
def Writes {α : Type} (P : Except Exc α → List AuditLog → Prop) (p : Act α) : Prop :=
  p.Emits (fun w => LogInOrder w.db) (fun w => w.db.auditLogs.rows) P

/-- The program logs nothing, and is not refused. -/
def Unlogged {α : Type} (p : Act α) : Prop := Writes (fun r acc => acc = [] ∧ ∀ e, r = .error e → e.isRefusal = false) p

namespace LogInOrder

variable {db db' : Database}

theorem fresh : LogInOrder .fresh :=
  ⟨genesisHash, ⟨by simp [Database.fresh, Table.empty], rfl, by simp [Database.fresh, Table.empty]⟩, by decide +kernel⟩

theorem of_logPart (h : LogInOrder db) (hpart : db'.logPart = db.logPart) : LogInOrder db' := by
  simp only [Database.logPart, Prod.mk.injEq] at hpart
  obtain ⟨q, hq, hhead⟩ := h
  refine ⟨q, ⟨by rw [hpart.1]; exact hq.numbered, by rw [hpart.1]; exact hq.linked, by rw [hpart.1]; exact hq.plain⟩, ?_⟩
  simp only [Database.selectMetadata, hpart.1, hpart.2]
  exact hhead

/-- The stored head can be fetched. -/
theorem fetchable_metadata (h : LogInOrder db) :
    Fetchable (fetchone SchemaMetadata.cells (db.selectMetadata AuditRepository.headKey)) := by
  obtain ⟨h, -, hhead⟩ := h
  rw [fetchable_fetchone]
  intro m hm
  rw [Option.mem_def.mp hm] at hhead
  split_ifs at hhead
  · cases hhead
  · simp [SchemaMetadata.cells, Option.some.inj hhead]

/-- **What is verified in such a state**: every row, up to the last hash. -/
theorem run_verify {w : World} {h : PyStr} (hs : LogSound w.db h)
    (hhead : (w.db.selectMetadata AuditRepository.headKey).map SchemaMetadata.value =
      if w.db.auditLogs.rows = [] then none else some (.str h)) :
    AuditRepository.verify.run w = (.ok ⟨true, w.db.auditLogs.rows.length, h, .none, none⟩, w) := by
  have hexpected : expectedHead w.db = .none ∨ expectedHead w.db = .str h := by
    by_cases hrows : w.db.auditLogs.rows = []
    · exact .inl (expectedHead_nil (by rw [hs.selectLogs_eq, hrows]))
    · rw [if_neg hrows] at hhead
      exact .inr (expectedHead_stored (by rwa [hs.selectLogs_eq]) hhead)
  have hrows : verifyRows (expectedHead w.db) 0 genesisHash (w.db.auditLogs.rows ++ []) = _ :=
    verifyRows_append hs.intact []
  rw [List.append_nil, Nat.zero_add, verifyRows] at hrows
  have hlegible : Legible w.db := ⟨hs.fetchable, fetchable_fetchone.mp (fetchable_metadata ⟨h, hs, hhead⟩)⟩
  rw [MiniVault.run_verify hlegible, hs.selectLogs_eq, verifyChain, hrows]
  rcases hexpected with hnone | hstr
  · simp only [hnone, ne_eq, not_true_eq_false, false_and, ↓reduceIte]
  · simp only [hstr, ne_eq, not_true_eq_false, and_false, ↓reduceIte]

end LogInOrder

section Writes

variable {α β : Type}

/-- The log is in order as long as it is left alone. -/
theorem Keeps.keepsLog {p : Act α} (h : Keeps (fun w => w.db.logPart) p) :
    p.Sat (fun w => LogInOrder w.db) fun _ w w' => LogInOrder w'.db ∧ w'.db.auditLogs.rows = w.db.auditLogs.rows := by
  refine Prog.Sat.invariant h fun w w' hw hpart => ⟨hw.of_logPart hpart, ?_⟩
  simp only [Database.logPart, Prod.mk.injEq] at hpart
  rw [hpart.1]

/-- What keeps the log appends nothing. -/
theorem Keeps.writes {p : Act α} (h : Keeps (fun w => w.db.logPart) p) : Writes (fun _ acc => acc = []) p :=
  .quiet h.keepsLog

/-- **What logging does**: it appends one row, or fails, with an error of a library, and appends none. -/
theorem AuditRepository.log_writes (o : Occurrence) :
    Writes (fun r acc => ((∃ u n now id h q, r = .ok u ∧ acc = [rowOf o n now id h q]) ∨ ∃ e, r = .error e ∧ acc = []) ∧
      ∀ e, r = .error e → e.isLibrary) (log o) := by
  refine Prog.Emits.fails (.bind_quiet (Keeps.keepsLog .now) (fun now => .atomic fun w hw => ?_) fun e => .inr ⟨e, rfl, rfl⟩)
    (log_fails o)
  obtain ⟨h, hs, hhead⟩ := hw
  show ∃ more, LogInOrder ((connection .transaction (append o now)).run w).2.db ∧
    ((connection .transaction (append o now)).run w).2.db.auditLogs.rows = w.db.auditLogs.rows ++ more ∧
      ((∃ u n now' id h q, ((connection .transaction (append o now)).run w).1 = .ok u ∧ more = [rowOf o n now' id h q]) ∨
        ∃ e, ((connection .transaction (append o now)).run w).1 = .error e ∧ more = [])
  rw [run_connection]
  rcases hrun : (append o now).run w with ⟨e | u, w'⟩
  · -- the transaction is rolled back
    exact ⟨[], ⟨h, hs, hhead⟩, (List.append_nil _).symm, .inr ⟨e, rfl, rfl⟩⟩
  · obtain ⟨-, -, -, id, q, hq, rfl⟩ := run_append_eq_ok hs hrun
    refine ⟨[rowOf o w.db.auditLogs.rows.length now id h q], ⟨q, logged_sound hs hq, ?_⟩, rfl,
      .inl ⟨u, _, _, _, _, _, rfl, rfl⟩⟩
    have hne : (logged w.db (rowOf o w.db.auditLogs.rows.length now id h q) q).auditLogs.rows ≠ [] :=
      List.append_ne_nil_of_right_ne_nil _ (List.cons_ne_nil _ _)
    rw [if_neg hne]
    exact headStored_replaceMetadata _ q

/-- A refusal that is logged: the row shows what was denied, unless an error of a library came first. -/
def Refused {α : Type} (e : Exc) (d : Denial) (r : Except Exc α) (acc : List AuditLog) : Prop :=
  (r = .error e ∧ acc.map AuditLog.shown = [d.shown]) ∨ ∃ e', r = .error e' ∧ e'.isLibrary ∧ acc = []

/-- **A denial is logged before it is raised.** -/
theorem denial_writes (d : Denial) (e : Exc) :
    Writes (Refused e d) (AuditRepository.log d.occurrence >>= fun _ => throw e : Act α) := by
  refine (AuditRepository.log_writes d.occurrence).bind (fun u acc h => ?_) fun e' acc h => ?_
  · obtain ⟨⟨_, n, now, id, h, q, -, rfl⟩ | ⟨e', he', -⟩, -⟩ := h
    · exact .done (.inl ⟨rfl, rfl⟩)
    · cases he'
  · obtain ⟨⟨_, _, _, _, _, _, hu, -⟩ | ⟨_, -, rfl⟩, hlibrary⟩ := h
    · cases hu
    · exact .inr ⟨e', rfl, hlibrary e' rfl, rfl⟩

/-- What keeps the log and does not fail with a refusal is unlogged. -/
theorem Keeps.unlogged {p : Act α} (h : Keeps (fun w => w.db.logPart) p) (hF : p.Fails fun e => e.isRefusal = false) :
    Unlogged p :=
  Prog.Emits.fails h.writes hF

theorem Unlogged.bind {p : Act α} {f : α → Act β} (hp : Unlogged p) (hf : ∀ a, Unlogged (f a)) : Unlogged (p >>= f) := by
  refine Prog.Emits.bind hp (fun a acc h => ?_) fun e acc h => ⟨h.1, fun e' he' => ?_⟩
  · obtain ⟨rfl, -⟩ := h
    exact (hf a).mono fun _ _ h => h
  · obtain rfl := Except.error.inj he'
    exact h.2 e rfl

theorem Unlogged.done {r : Except Exc α} (h : ∀ e, r = .error e → e.isRefusal = false) : Unlogged (Prog.done r) :=
  Prog.Emits.done ⟨rfl, h⟩

theorem Unlogged.pure (a : α) : Unlogged (pure a : Act α) := .done fun e he => by cases he

theorem Unlogged.throw {e : Exc} (h : e.isRefusal = false) : Unlogged (throw e : Act α) :=
  .done fun e' he => by rwa [← Except.error.inj he]

theorem Unlogged.ite {c : Prop} [Decidable c] {p q : Act α} (hp : Unlogged p) (hq : Unlogged q) :
    Unlogged (if c then p else q) := by
  split
  · exact hp
  · exact hq

theorem Unlogged.getDek : Unlogged getDek :=
  Keeps.unlogged .getDek (.look fun w e h => by
    cases hdek : w.dek with
    | none =>
      rw [hdek] at h
      rw [← Except.error.inj h]
      rfl
    | some k => simp [hdek] at h)

/-! #### The key-value store -/

/-- **What an operation on a path writes**: the row of its denial, where it is refused, and nothing elsewhere. -/
theorem KvOp.exec_writes (passphrase : PyStr) (op : KvOp) :
    Writes (fun r acc => acc.map AuditLog.shown =
      (if endedWith .permissionDeniedError r then op.denial else none).toList.map Denial.shown) (op.exec passphrase) := by
  cases htarget : op.target with
  | none =>
    refine (Keeps.writes (op.exec_keepsDb passphrase htarget).besideDb).mono fun r acc h => ?_
    simp [h, denial, htarget]
  | some target =>
    obtain ⟨owner, path⟩ := target
    obtain ⟨k, hexec, hk⟩ := op.afterAuthorize passphrase htarget
    rw [hexec]
    by_cases hown : (extractOwnerEmailFromPath path).toOption = some owner
    · have hauth : KvService.authorize owner path = pure () := by
        simp only [KvService.authorize, hown, ne_eq, not_true_eq_false, ↓reduceIte]
      rw [hauth]
      refine (Keeps.writes ((hk ()).ofTables Database.logPart_of_besideRecords)).mono fun r acc h => ?_
      simp [h, denial, htarget, hown]
    · have hauth : KvService.authorize owner path =
          AuditRepository.log (Denial.occurrence ⟨owner, py "kv_path", path⟩) >>= fun _ => throw .permissionDeniedError := by
        simp only [KvService.authorize, ne_eq, hown, not_false_eq_true, ↓reduceIte]
        rfl
      have hdenial : op.denial = some ⟨owner, py "kv_path", path⟩ := by
        simp only [denial, htarget, hown, ↓reduceIte]
      rw [hauth, hdenial]
      refine (denial_writes _ _).bind (fun u acc h => ?_) fun e acc h => ?_
      · rcases h with ⟨h, -⟩ | ⟨_, h, -⟩ <;> cases h
      · obtain ⟨he, hacc⟩ | ⟨e', he, hlibrary, rfl⟩ := h
        · rw [Except.error.inj he, hacc]
          simp [endedWith]
        · obtain rfl := Except.error.inj he
          have hne : e ≠ .permissionDeniedError := by
            rintro rfl
            cases hlibrary
          simp [endedWith, hne]

/-! #### The named keys -/

namespace TransitService

variable {owner name : PyStr} {keyRow : NamedKey} {row : NamedKeyVersion}

/-- **The look for a key** logs where it does not find it, and fails with no refusal elsewhere. -/
theorem ownedKey_writes (owner name : PyStr) :
    Writes (fun r acc => ((∃ row, r = .ok row) ∧ acc = []) ∨ (∃ e, r = .error e ∧ e.isRefusal = false ∧ acc = []) ∨
      (r = .error .keyUnavailableError ∧ acc.map AuditLog.shown = [Denial.shown ⟨owner, py "named_key", name⟩]))
      (ownedKey owner name) := by
  have hget : Unlogged (NamedKeyRepository.getOwned owner name) :=
    Keeps.unlogged reads_keep (.atomic ((query_fails _ _).mono fun e h => Exc.isRefusal_of_library h))
  have hvalid : Unlogged (validateKeyName name) := .ite (.pure _) (.throw rfl)
  have hlook : Unlogged (validateKeyName name >>= fun _ => NamedKeyRepository.getOwned owner name) := hvalid.bind fun _ => hget
  rw [ownedKey_eq, ← Prog.bind_assoc]
  refine Prog.Emits.bind hlook (fun found acc h => ?_) fun e acc h => .inr (.inl ⟨e, rfl, h.2 e rfl, h.1⟩)
  obtain ⟨rfl, -⟩ := h
  cases found with
  | some row => exact .done (.inl ⟨⟨row, rfl⟩, rfl⟩)
  | none =>
    refine (denial_writes _ _).mono fun r acc h => ?_
    obtain ⟨hr, hacc⟩ | ⟨e, hr, hlibrary, rfl⟩ := h
    · exact .inr (.inr ⟨hr, hacc⟩)
    · exact .inr (.inl ⟨e, hr, Exc.isRefusal_of_library hlibrary, rfl⟩)

/-! What follows the look for a key is refused nothing. -/

omit [Platform] in
theorem isRefusal_of_tampering {e : Exc} (h : isTampering e) : e.isRefusal = false := by
  cases e <;> first | rfl | cases h

theorem keyVersion_unlogged (keyRow : NamedKey) (version : ℤ) : Unlogged (keyVersion keyRow version) := by
  have hread : Unlogged (NamedKeyRepository.getVersion keyRow.id version) :=
    Keeps.unlogged reads_keep (.atomic ((query_fails _ _).mono fun e h => Exc.isRefusal_of_library h))
  apply hread.bind
  intro found
  cases found with
  | none => exact .throw rfl
  | some row => exact .pure row

theorem openVersion_unrefused (hrejects : GcmRejects) {dek : Key} {e : Exc} (h : openVersion dek keyRow row = .error e) :
    e.isRefusal = false := by
  unfold openVersion at h
  obtain h | ⟨blob, -, h⟩ := bind_eq_error h
  · exact isRefusal_of_tampering (blobOf_isTampering h)
  obtain h | ⟨version, -, h⟩ := bind_eq_error h
  · exact Exc.isRefusal_of_library (pyInt_isLibrary h)
  obtain h | ⟨associatedData, -, h⟩ := bind_eq_error h
  · unfold keyAad at h
    split at h
    · cases h
    · rw [← Except.error.inj h]
      rfl
  · exact isRefusal_of_tampering (hrejects.isTampering h)

/-- Neither an exception that is caught nor one that is not is a refusal. -/
theorem mapExc_unlogged {α : Type} {p : Act α} {caught : Exc → Bool} {e : Exc} (hp : Keeps (fun w => w.db.logPart) p)
    (hF : p.Fails fun x => caught x ∨ x.isRefusal = false) (he : e.isRefusal = false) : Unlogged (mapExc caught e p) := by
  refine Keeps.unlogged hp.mapExc (hF.handle fun x hx => ?_)
  by_cases hcaught : caught x
  · rw [if_pos hcaught]
    exact .throw he
  · rw [if_neg hcaught]
    exact .throw (hx.resolve_left hcaught)

theorem unwrap_unlogged (hrejects : GcmRejects) (keyRow : NamedKey) (row : NamedKeyVersion) :
    Unlogged (unwrap keyRow row) := by
  refine mapExc_unlogged (.bind .getDek fun _ => .done _) ?_ rfl
  refine .bind (.look fun w e h => .inr ?_) fun dek => .done fun e h => .inr (openVersion_unrefused hrejects h)
  cases hdek : w.dek with
  | none =>
    rw [hdek] at h
    rw [← Except.error.inj h]
    rfl
  | some k => simp [hdek] at h

omit [Platform] in
theorem decodePayload_unrefused {text : PyStr} {e : Exc} (h : decodePayload text = .error e) : e.isRefusal = false := by
  unfold decodePayload at h
  split at h
  · cases h
  · rw [← Except.error.inj h]
    rfl

omit [Platform] in
theorem dataAad_unrefused {owner name : PyStr} {version : ℤ} {e : Exc} (h : dataAad owner name version = .error e) :
    e.isRefusal = false := by
  unfold dataAad at h
  split at h
  · cases h
  · rw [← Except.error.inj h]
    rfl

theorem messageDigest_unrefused {message type : PyStr} {e : Exc} (h : messageDigest message type = .error e) :
    e.isRefusal = false := by
  unfold messageDigest at h
  obtain h | ⟨b, -, h⟩ := bind_eq_error h
  · exact decodePayload_unrefused h
  dsimp only at h
  split_ifs at h <;> rw [← Except.error.inj h] <;> rfl

theorem matchedVersion_unrefused {rows : List NamedKeyVersion} {signature : PyStr} {digest : Bytes} {e : Exc}
    (h : matchedVersion rows signature digest = .error e) : e.isRefusal = false := by
  unfold matchedVersion at h
  split at h
  · cases h
  · split at h
    · cases h
    · exact Exc.isRefusal_of_library (pyInt_isLibrary (map_eq_error.mp h))

theorem candidates_unlogged (keyRow : NamedKey) (version : Option ℤ) : Unlogged (candidates keyRow version) := by
  have hrows : ∀ rows, Unlogged (candidateRows keyRow rows) := by
    intro rows
    induction rows with
    | nil => exact .pure _
    | cons row rows ih =>
      exact .bind (.done fun _ h => Exc.isRefusal_of_library (pyInt_isLibrary h)) fun version =>
        .bind (keyVersion_unlogged _ _) fun found => ih.bind fun more => .pure _
  cases version with
  | some version => exact (keyVersion_unlogged _ _).bind fun _ => .pure _
  | none =>
    exact .bind (Keeps.unlogged reads_keep (.atomic ((query_fails _ _).mono fun _ h => Exc.isRefusal_of_library h)))
      fun rows => hrows _

end TransitService

/-- The denial an operation on a key can come to. -/
def TransitOp.refusable (op : TransitOp) : Option Denial :=
  op.target.map fun (owner, name) => ⟨owner, py "named_key", name⟩

/-- The key of the operation may be revoked between its look for the key and its own transaction. -/
def TransitOp.overtakable : TransitOp → Bool
  | .rotateKey .. => true
  | .deleteKey .. => true
  | _ => false

/-- **An operation that only uses a key** is refused nothing once it has found it. -/
theorem TransitOp.afterOwnedKey_unlogged (hlimits : GcmLimits) (hrejects : GcmRejects) (passphrase : PyStr) {op : TransitOp}
    {owner name : PyStr} (htarget : op.target = some (owner, name)) (hop : op.overtakable = false) :
    ∃ k : NamedKey → Act TransitAnswer, op.exec passphrase = TransitService.ownedKey owner name >>= k ∧ ∀ r, Unlogged (k r) := by
  have hnumber : ∀ v, Unlogged (Prog.done (pyInt v)) :=
    fun v => .done fun _ h => Exc.isRefusal_of_library (pyInt_isLibrary h)
  have hdecode : ∀ text, Unlogged (Prog.done (TransitService.decodePayload text)) :=
    fun text => .done fun _ h => TransitService.decodePayload_unrefused h
  have hdigest : ∀ message type, Unlogged (Prog.done (TransitService.messageDigest message type)) :=
    fun message type => .done fun _ h => TransitService.messageDigest_unrefused h
  have halgorithm : ∀ row algorithm, Unlogged (TransitService.validateAlgorithm row algorithm) :=
    fun row algorithm => .ite (.throw rfl) (.pure _)
  cases op with
  | encrypt o n plaintext nonce =>
    obtain ⟨rfl, rfl⟩ := Prod.mk.inj (Option.some.inj htarget)
    refine ⟨_, Prog.bind_assoc _ _ _, fun keyRow => .bind (.ite (.throw rfl) (.bind .getDek fun _ => .bind (hdecode _)
      fun plaintext => .bind (hnumber _) fun version => .bind (TransitService.keyVersion_unlogged _ _) fun row =>
        .bind (TransitService.unwrap_unlogged hrejects _ _) fun material => .ite (.throw rfl) ?_)) fun _ => .pure _⟩
    refine .bind (.done fun _ h => TransitService.dataAad_unrefused h) fun associatedData => .bind ?_ fun blob =>
      .bind (.done fun e h => ?_) fun _ => .pure _
    · exact Keeps.unlogged (encryptAesGcm_keeps fun _ _ => rfl)
        ((hlimits.encryptAesGcm_fails _ _ _ _).mono fun _ h => Exc.isRefusal_of_library h)
    · unfold formatCiphertext at h
      split_ifs at h
      · rw [← Except.error.inj h]
        rfl
      · rw [← Except.error.inj h]
        rfl
      · obtain h := map_eq_error.mp h
        unfold intRepr at h
        split_ifs at h
        rw [← Except.error.inj h]
        rfl
  | decrypt o ciphertext =>
    cases hparsed : parseCiphertext ciphertext with
    | error e => simp [TransitOp.target, hparsed, Except.toOption] at htarget
    | ok parsed =>
      simp only [TransitOp.target, hparsed, Except.toOption, Option.map_some, Option.some.injEq, Prod.mk.injEq] at htarget
      obtain ⟨rfl, rfl⟩ := htarget
      simp only [TransitOp.exec, TransitService.decrypt, hparsed]
      refine ⟨_, Prog.bind_assoc (TransitService.ownedKey o parsed.keyName) _ _, fun keyRow => .bind (.ite (.throw rfl)
        (.bind .getDek fun _ => .bind (TransitService.keyVersion_unlogged _ _) fun row =>
          .bind (TransitService.unwrap_unlogged hrejects _ _) fun material => .bind (TransitService.mapExc_unlogged (.done _)
            (.done fun e h => ?_) rfl) fun _ => .pure _)) fun _ => .pure _⟩
      obtain h | ⟨associatedData, -, h⟩ := bind_eq_error h
      · exact .inr (TransitService.dataAad_unrefused h)
      · exact .inl (hrejects.isTampering h)
  | sign o n message type algorithm =>
    obtain ⟨rfl, rfl⟩ := Prod.mk.inj (Option.some.inj htarget)
    exact ⟨_, Prog.bind_assoc _ _ _, fun keyRow => .bind (.ite (.throw rfl) (.bind (halgorithm _ _) fun _ => .bind .getDek
      fun _ => .bind (hdigest _ _) fun digest => .bind (hnumber _) fun version =>
        .bind (TransitService.keyVersion_unlogged _ _) fun row => .bind (TransitService.unwrap_unlogged hrejects _ _)
          fun privateKey => .ite (.throw rfl)
            (.bind (Keeps.unlogged (.change fun _ => rfl) (.atom fun _ => .pure _)) fun _ => .pure _)))
            fun _ => .pure _⟩
  | verify o n message type signature algorithm version =>
    obtain ⟨rfl, rfl⟩ := Prod.mk.inj (Option.some.inj htarget)
    exact ⟨_, Prog.bind_assoc _ _ _, fun keyRow => .bind (.ite (.throw rfl) (.bind (halgorithm _ _) fun _ => .bind .getDek
      fun _ => .bind (hdigest _ _) fun digest => .bind (TransitService.candidates_unlogged _ _) fun rows =>
        .bind (.done fun _ h => TransitService.matchedVersion_unrefused h) fun _ => .pure _)) fun _ => .pure _⟩
  | rotateKey | deleteKey => cases hop
  | createKey | createSigningKey | listKeys | lock | unlock | restart | tick => cases htarget

/-- What an operation on named keys writes, as far as its result shows. -/
def TransitOp.LogsFor {α : Type} (op : TransitOp) (r : Except Exc α) (rows : List (List Value)) : Prop :=
  match op.refusable with
  | none => rows = []
  | some d => (rows = [] ∧ (endedWith .keyUnavailableError r → op.overtakable)) ∨
      (endedWith .keyUnavailableError r ∧ rows = [d.shown])

/-- **What an operation on named keys writes**: the row of its denial, where it is refused because it does not find the
key, and nothing elsewhere. -/
theorem TransitOp.exec_writes (hlimits : GcmLimits) (hrejects : GcmRejects) (passphrase : PyStr) (op : TransitOp) :
    Writes (fun r acc => op.LogsFor r (acc.map AuditLog.shown)) (op.exec passphrase) := by
  cases htarget : op.target with
  | none =>
    refine (Keeps.writes ((op.exec_besideKeys passphrase htarget).ofTables Database.logPart_of_besideKeys)).mono
      fun r acc h => ?_
    simp [LogsFor, refusable, htarget, h]
  | some target =>
    obtain ⟨owner, name⟩ := target
    have hrefusable : op.refusable = some ⟨owner, py "named_key", name⟩ := by simp [refusable, htarget]
    -- what follows the look for the key, where it finds it
    have hfollows : ∃ k : NamedKey → Act TransitAnswer, op.exec passphrase = TransitService.ownedKey owner name >>= k ∧
        ∀ row, Writes (fun r acc => acc = [] ∧ (endedWith .keyUnavailableError r → op.overtakable)) (k row) := by
      by_cases hop : op.overtakable
      · obtain ⟨k, hexec, hk⟩ := op.afterOwnedKey passphrase htarget
        exact ⟨k, hexec, fun row => (Keeps.writes ((hk row).ofTables Database.logPart_of_besideKeys)).mono
          fun _ _ h => ⟨h, fun _ => hop⟩⟩
      · obtain ⟨k, hexec, hk⟩ := op.afterOwnedKey_unlogged hlimits hrejects passphrase htarget (Bool.not_eq_true _ ▸ hop)
        refine ⟨k, hexec, fun row => (hk row).mono fun r acc h => ⟨h.1, fun hended => ?_⟩⟩
        cases r with
        | ok a => cases hended
        | error e =>
          obtain rfl := endedWith_error.mp hended
          cases h.2 _ rfl
    obtain ⟨k, hexec, hk⟩ := hfollows
    rw [hexec]
    simp only [LogsFor, hrefusable]
    refine (TransitService.ownedKey_writes owner name).bind (fun row acc h => ?_) fun e acc h => ?_
    · obtain ⟨-, rfl⟩ | ⟨_, h, -⟩ | ⟨h, -⟩ := h
      · exact (hk row).mono fun r acc h => .inl ⟨by simp [h.1], h.2⟩
      · cases h
      · cases h
    · obtain ⟨⟨_, h⟩, -⟩ | ⟨e', he, hmild, rfl⟩ | ⟨he, hacc⟩ := h
      · cases h
      · obtain rfl := Except.error.inj he
        refine .inl ⟨rfl, fun hended => ?_⟩
        obtain rfl := endedWith_error.mp hended
        cases hmild
      · obtain rfl := Except.error.inj he
        exact .inr ⟨endedWith_error.mpr rfl, hacc⟩

/-! #### All requests -/

/-- What a request adds to the log, as far as its answer shows. A request on a path adds the row of its denial exactly
where it is refused. So does one that uses a key; one that rotates or revokes a key may also be refused because it was
overtaken by the revocation of the key, and adds nothing then. The others add nothing. -/
def AppOp.LogsFor (op : AppOp) (r : Except Exc Unit) (rows : List (List Value)) : Prop :=
  match op with
  | .service _ (.kv op) => rows = (if endedWith .permissionDeniedError r then op.denial else none).toList.map Denial.shown
  | .service _ (.transit op) => op.LogsFor r rows
  | _ => rows = []

/-- An answer that is given on does not change what was refused. -/
theorem Writes.answer {P : Except Exc α → List AuditLog → Prop} {Q : Except Exc β → List AuditLog → Prop} {p : Act α}
    {f : α → β} (hp : Writes P p) (hok : ∀ a acc, P (.ok a) acc → Q (.ok (f a)) acc)
    (herror : ∀ e acc, P (.error e) acc → Q (.error e) acc) : Writes Q (p >>= fun a => pure (f a)) := by
  refine Prog.Emits.bind hp (fun a acc h => .done ?_) herror
  rw [List.append_nil]
  exact hok a acc h

/-- **Every request writes what its answer shows**. -/
theorem AppOp.exec_writes (hlimits : GcmLimits) (hrejects : GcmRejects) (op : AppOp) :
    Writes (fun r acc => op.LogsFor r (acc.map AuditLog.shown)) op.exec := by
  by_cases hop : ∃ passphrase service, op = .service passphrase service
  · obtain ⟨passphrase, service, rfl⟩ := hop
    cases service with
    | kv op =>
      have hservice := Writes.answer (Q := fun r acc => (AppOp.service passphrase (.kv op)).LogsFor (r.map fun _ => ())
        (acc.map AuditLog.shown)) (f := ServiceAnswer.kv) (op.exec_writes passphrase) (fun _ _ h => h) fun _ _ h => h
      exact Writes.answer (f := fun _ => ()) hservice (fun _ _ h => h) fun _ _ h => h
    | transit op =>
      have hservice := Writes.answer (Q := fun r acc => (AppOp.service passphrase (.transit op)).LogsFor (r.map fun _ => ())
        (acc.map AuditLog.shown)) (f := ServiceAnswer.transit) (op.exec_writes hlimits hrejects passphrase)
          (fun _ _ h => h) fun _ _ h => h
      exact Writes.answer (f := fun _ => ()) hservice (fun _ _ h => h) fun _ _ h => h
  · simp only [not_exists] at hop
    refine (Keeps.writes (AppOp.exec_keepsRest (fun _ _ h => (Database.parts_of_besideAccounts h).2.2) hop)).mono
      fun r acc h => ?_
    cases op with
    | service passphrase service => exact absurd rfl (hop passphrase service)
    | vault | auth | currentUser | listAudit | verifyAudit => simp [LogsFor, h]

/-- Every request leaves the log in order and only appends to it, step by step. -/
theorem AppOp.exec_appends (op : AppOp) :
    op.exec.Sat (fun w => LogInOrder w.db) fun _ w w' =>
      LogInOrder w'.db ∧ ∃ more, w'.db.auditLogs.rows = w.db.auditLogs.rows ++ more := by
  suffices hwrites : Writes (fun _ _ => True) op.exec from Prog.Emits.sat hwrites
  by_cases hop : ∃ passphrase service, op = .service passphrase service
  · obtain ⟨passphrase, service, rfl⟩ := hop
    suffices hservice : Writes (fun _ _ => True) (service.exec passphrase) from
      hservice.answer (fun _ _ _ => trivial) fun _ _ _ => trivial
    cases service with
    | kv op => exact (op.exec_writes passphrase).answer (fun _ _ _ => trivial) fun _ _ _ => trivial
    | transit op =>
      suffices htransit : Writes (fun _ _ => True) (op.exec passphrase) from
        htransit.answer (fun _ _ _ => trivial) fun _ _ _ => trivial
      cases htarget : op.target with
      | none =>
        exact (Keeps.writes ((op.exec_besideKeys passphrase htarget).ofTables Database.logPart_of_besideKeys)).mono
          fun _ _ _ => trivial
      | some target =>
        obtain ⟨owner, name⟩ := target
        obtain ⟨k, hexec, hk⟩ := op.afterOwnedKey passphrase htarget
        rw [hexec]
        exact (TransitService.ownedKey_writes owner name).bind (fun row _ _ =>
          (Keeps.writes ((hk row).ofTables Database.logPart_of_besideKeys)).mono fun _ _ _ => trivial) fun _ _ _ => trivial
  · simp only [not_exists] at hop
    exact (Keeps.writes (AppOp.exec_keepsRest (fun _ _ h => (Database.parts_of_besideAccounts h).2.2) hop)).mono
      fun _ _ _ => trivial

end Writes

/-- The requests write what their answers show. -/
theorem requests_write (hlimits : GcmLimits) (hrejects : GcmRejects) (w : World) (ops : List AppOp) (i : ℕ) (p : Act Unit)
    (hp : (requests w ops).procs[i]? = some p) :
    p.Emits (fun w => LogInOrder w.db) (fun w => w.db.auditLogs.rows) fun r acc =>
      ∀ op, ops[i]? = some op → op.LogsFor r (acc.map AuditLog.shown) := by
  obtain ⟨op, hop, rfl⟩ := Option.map_eq_some_iff.mp ((List.getElem?_map (f := AppOp.exec)).symm.trans hp)
  refine (op.exec_writes hlimits hrejects).mono fun r acc h op' hop' => ?_
  rwa [← Option.some.inj (hop.symm.trans hop')]

/-- **The log accounts for the refusals.** After any interleaving of requests the log holds the rows that the requests
wrote, in some order, each request those that its answer shows; one that has not finished may have written its row
already. -/
theorem log_lists_refusals (hlimits : GcmLimits) (hrejects : GcmRejects) (environ : PyStr → Option PyStr)
    (ops : List AppOp) (sched : List ℕ) :
    let c := (requests (.fresh environ) ops).exec sched
    ∃ accs : List (List (List Value)), accs.length = ops.length ∧
      (c.state.db.auditLogs.rows.map AuditLog.shown).Perm accs.flatten ∧
        ∀ i rows op, accs[i]? = some rows → ops[i]? = some op → ∃ r rest, op.LogsFor r (rows ++ rest) ∧
          ∀ r', c.result i = some r' → r' = r ∧ rest = [] := by
  intro c
  obtain ⟨-, accs, written, hlen, hout, hperm, haccs⟩ :=
    Config.exec_output (c := requests (.fresh environ) ops) LogInOrder.fresh (requests_write hlimits hrejects _ ops) sched
  rw [show (requests (.fresh environ) ops).state.db.auditLogs.rows = [] from rfl, List.nil_append] at hout
  refine ⟨accs.map (List.map AuditLog.shown), by simpa [requests] using hlen, ?_, fun i rows op hrows hop => ?_⟩
  · rw [hout, ← List.map_flatten]
    exact hperm.map _
  · obtain ⟨acc, hacc, rfl⟩ := Option.map_eq_some_iff.mp ((List.getElem?_map (f := List.map AuditLog.shown)).symm.trans hrows)
    obtain ⟨r, rest, hlogs, hdone⟩ := haccs i acc hacc
    refine ⟨r, rest.map AuditLog.shown, ?_, fun r' hr' => ?_⟩
    · rw [← List.map_append]
      exact hlogs op hop
    · obtain ⟨heq, hrest⟩ := hdone r' hr'
      exact ⟨heq, by rw [hrest]; rfl⟩

/-- **The log is in order in every state that an interleaving of requests reaches**: its rows are numbered from one
without a gap, each carries the hash of the one before, the stored head is the hash of the last and is there exactly
where a row is, and `verify` finds all of it valid. -/
theorem log_in_order (environ : PyStr → Option PyStr) (ops : List AppOp) (sched : List ℕ) :
    let w := ((requests (.fresh environ) ops).exec sched).state
    ∃ h, LogSound w.db h ∧ (w.db.selectMetadata AuditRepository.headKey).map SchemaMetadata.value =
        (if w.db.auditLogs.rows = [] then none else some (.str h)) ∧
      AuditRepository.verify.run w = (.ok ⟨true, w.db.auditLogs.rows.length, h, .none, none⟩, w) := by
  intro w
  have hinv : LogInOrder w.db := by
    refine Config.exec_invariant (I := fun w : World => LogInOrder w.db) (G := fun _ _ (w' : World) => LogInOrder w'.db)
      (C := fun _ _ => True)
      (fun _ _ _ _ hstep _ => hstep) (fun p hp => ?_) LogInOrder.fresh fun _ _ => trivial
    obtain ⟨op, -, rfl⟩ := List.mem_map.mp hp
    exact op.exec_appends.mono (fun _ => id) fun _ _ _ h => h.1
  obtain ⟨h, hs, hhead⟩ := hinv
  exact ⟨h, hs, hhead, LogInOrder.run_verify hs hhead⟩

/-! ### Verification among others -/

/-- A verification of the log and other requests at once. -/
def verification (w : World) (ops : List AppOp) : Config World Label Exc (Option Report) :=
  ⟨w, (do return some (← AuditRepository.verify)) :: ops.map fun op => do
    op.exec
    return none⟩

/-- The log was only appended to. -/
def LogGrows (w w' : World) : Prop := (LogInOrder w.db → LogInOrder w'.db) ∧ w.db.auditLogs.rows <+: w'.db.auditLogs.rows

theorem LogGrows.refl (w : World) : LogGrows w w := ⟨id, List.prefix_refl _⟩

theorem LogGrows.trans {w₁ w₂ w₃ : World} (h₁ : LogGrows w₁ w₂) (h₂ : LogGrows w₂ w₃) : LogGrows w₁ w₃ :=
  ⟨fun h => h₂.1 (h₁.1 h), h₁.2.trans h₂.2⟩

omit [Platform] in
/-- A look at the database among others sees it as it is at some point. -/
theorem among_query {α : Type} {R : World → World → Prop} {params : List Value} {cells : α → List Value}
    {g : Database → α} {r : Except Exc α} {w w' : World} (hparams : bindAll params = .ok ())
    (hfetch : ∀ w₁, R w w₁ → Fetchable (cells (g w₁.db)))
    (h : (connection .transaction (query params cells g)).Among R w r w') :
    ∃ w₁, R w w₁ ∧ r = .ok (g w₁.db) ∧ R w₁ w' := by
  obtain ⟨w₁, hbefore, h⟩ := Prog.among_atom.mp h
  have hrun : (query params cells g).run w₁ = (.ok (g w₁.db), w₁) :=
    run_query_eq_ok.mpr ⟨hparams, hfetch w₁ hbefore, rfl, rfl⟩
  obtain ⟨rfl, hafter⟩ := Prog.among_done.mp h
  rw [hrun] at hafter ⊢
  exact ⟨w₁, hbefore, rfl, hafter⟩

/-- A verification among requests reads the rows at one point and the head at a later one. -/
theorem among_verify {w w' : World} {r : Except Exc Report} (hlog : LogInOrder w.db)
    (h : AuditRepository.verify.Among LogGrows w r w') :
    ∃ w₁ w₂, LogGrows w w₁ ∧ LogGrows w₁ w₂ ∧ LogGrows w₂ w' ∧
      r = verifyChain w₁.db.selectLogs (if w₁.db.selectLogs.isEmpty then .none
        else ((w₂.db.selectMetadata AuditRepository.headKey).map SchemaMetadata.value).getD .none) := by
  have hlogs : ∀ w₁, LogGrows w w₁ → Fetchable (fetchall AuditLog.cells w₁.db.selectLogs) := by
    intro w₁ hw₁
    obtain ⟨_, hs, -⟩ := hw₁.1 hlog
    rw [hs.selectLogs_eq, fetchable_fetchall]
    exact hs.fetchable
  rcases h.bind_cases LogGrows.refl with ⟨e, -, hfail⟩ | ⟨rows, w₁', hrows, h⟩
  · obtain ⟨_, _, hr, _⟩ := among_query bindAll_nil hlogs hfail
    cases hr
  obtain ⟨w₁, hw₁, hrows, hafter⟩ := among_query bindAll_nil hlogs hrows
  have hmetadata : ∀ w₂, LogGrows w₁' w₂ →
      Fetchable (fetchone SchemaMetadata.cells (w₂.db.selectMetadata AuditRepository.headKey)) :=
    fun w₂ hw₂ => (hw₂.1 (hafter.1 (hw₁.1 hlog))).fetchable_metadata
  obtain rfl := Except.ok.inj hrows
  rcases h.bind_cases LogGrows.refl with ⟨e, -, hfail⟩ | ⟨stored, w₂', hstored, h⟩
  · rcases hfail.bind_cases LogGrows.refl with ⟨e', -, hfail⟩ | ⟨row, _, -, hfail⟩
    · obtain ⟨_, _, hr, _⟩ := among_query (by decide) hmetadata hfail
      cases hr
    · cases (Prog.among_done.mp hfail).1
  rcases hstored.bind_cases LogGrows.refl with ⟨e', he', -⟩ | ⟨row, w₃, hquery, hvalue⟩
  · cases he'
  obtain ⟨w₂, hw₂, hrow, hafter₂⟩ := among_query (by decide) hmetadata hquery
  obtain rfl := Except.ok.inj hrow
  obtain ⟨hvalue, hafter₃⟩ := Prog.among_done.mp hvalue
  obtain ⟨rfl, hlast⟩ := Prog.among_done.mp h
  refine ⟨w₁, w₂, hw₁, hafter.trans hw₂, (hafter₂.trans hafter₃).trans hlast, ?_⟩
  obtain rfl := Except.ok.inj hvalue
  cases w₂.db.selectMetadata AuditRepository.headKey <;> rfl

/-- The hash that rows of a log end at. -/
def headHash (rows : List AuditLog) : Option PyStr := follow linkRow genesisHash rows

/-- What is reported of rows that are in order, with the head of a log that goes on from them. -/
theorem verifyChain_ahead {w₁ w₂ : World} (h₁ : LogInOrder w₁.db) (hgrows : LogGrows w₁ w₂) :
    ∃ back h h', w₂.db.auditLogs.rows = w₁.db.auditLogs.rows ++ back ∧ headHash w₁.db.auditLogs.rows = some h ∧
      headHash (w₁.db.auditLogs.rows ++ back) = some h' ∧
      verifyChain w₁.db.selectLogs (if w₁.db.selectLogs.isEmpty then .none
        else ((w₂.db.selectMetadata AuditRepository.headKey).map SchemaMetadata.value).getD .none) =
        .ok (if w₁.db.auditLogs.rows = [] ∨ h' = h then ⟨true, w₁.db.auditLogs.rows.length, h, .none, none⟩
          else ⟨false, w₁.db.auditLogs.rows.length, h, .none, some .headMismatch⟩) := by
  obtain ⟨h', hs', hhead'⟩ := hgrows.1 h₁
  obtain ⟨h, hs, -⟩ := h₁
  obtain ⟨back, hback⟩ := hgrows.2
  refine ⟨back, h, h', hback.symm, hs.linked, by rw [hback]; exact hs'.linked, ?_⟩
  have hverify : ∀ expected, verifyRows expected 0 genesisHash (w₁.db.auditLogs.rows ++ []) = _ :=
    fun expected => verifyRows_append hs.intact []
  simp only [List.append_nil, Nat.zero_add, verifyRows] at hverify
  rw [hs.selectLogs_eq, verifyChain, hverify]
  by_cases hrows : w₁.db.auditLogs.rows = []
  · simp only [hrows, List.isEmpty_nil, ↓reduceIte, ne_eq, not_true_eq_false, false_and, true_or]
  · have hne : w₂.db.auditLogs.rows ≠ [] := by
      rw [← hback]
      exact List.append_ne_nil_of_left_ne_nil hrows _
    rw [if_neg hne] at hhead'
    have hempty : w₁.db.auditLogs.rows.isEmpty = false := by simpa using hrows
    simp only [hempty, hhead', hrows, Bool.false_eq_true, ↓reduceIte, Option.getD_some, false_or]
    by_cases hsame : h' = h <;> simp [hsame]

/-- **A verification among requests** reads some of the rows that the log comes to have, all that were there before it
began among them, and the head of these or more. It never raises and reports the rows it read as valid exactly where there
are none or the two heads are the same; otherwise it reports them as a mismatch of the head. -/
theorem verify_among_requests {w : World} (hlog : LogInOrder w.db) (ops : List AppOp) (sched : List ℕ)
    {r : Except Exc (Option Report)} (hr : ((verification w ops).exec sched).result 0 = some r) :
    ∃ front back h h', w.db.auditLogs.rows <+: front ∧
      front ++ back <+: ((verification w ops).exec sched).state.db.auditLogs.rows ∧
      headHash front = some h ∧ headHash (front ++ back) = some h' ∧
      r = .ok (some (if front = [] ∨ h' = h then ⟨true, front.length, h, .none, none⟩
        else ⟨false, front.length, h, .none, some .headMismatch⟩)) := by
  have hkeeps : Keeps (fun w => w.db.logPart) (do return some (← AuditRepository.verify)) :=
    .bind (.bind TransitService.reads_keep fun rows => .bind (.bind TransitService.reads_keep fun row => .pure _) fun stored =>
      .done _) fun _ => .pure _
  have hamong := Config.exec_among (c := verification w ops) (I := fun w => LogInOrder w.db) LogGrows.refl
    (fun _ _ _ => LogGrows.trans) (i := 0) rfl hlog (hkeeps.keepsLog.mono (fun _ => id) fun _ _ _ h => h.1) ?_ hr
  · have hverified : ∀ {r w'}, AuditRepository.verify.Among LogGrows w r w' → ∃ w₁ w₂, LogGrows w w₁ ∧ LogGrows w₁ w₂ ∧
        LogGrows w₂ w' ∧ r = verifyChain w₁.db.selectLogs (if w₁.db.selectLogs.isEmpty then .none
          else ((w₂.db.selectMetadata AuditRepository.headKey).map SchemaMetadata.value).getD .none) := among_verify hlog
    rcases hamong.bind_cases LogGrows.refl with ⟨e, -, hfail⟩ | ⟨report, w₃, hok, hpure⟩
    · obtain ⟨w₁, w₂, hw₁, hw₂, -, he⟩ := hverified hfail
      obtain ⟨_, _, _, -, -, -, hreport⟩ := verifyChain_ahead (hw₁.1 hlog) hw₂
      cases he.trans hreport
    · obtain ⟨w₁, w₂, hw₁, hw₂, hw₃, he⟩ := hverified hok
      obtain ⟨back, h, h', hback, hh, hh', hreport⟩ := verifyChain_ahead (hw₁.1 hlog) hw₂
      obtain ⟨rfl, hlast⟩ := Prog.among_done.mp hpure
      refine ⟨w₁.db.auditLogs.rows, back, h, h', hw₁.2, ?_, hh, hh', ?_⟩
      · rw [← hback]
        exact (hw₃.trans hlast).2
      · rw [Except.ok.inj (he.trans hreport)]
  · -- the other requests only append
    intro j p hj hp
    obtain ⟨i, rfl⟩ : ∃ i, j = i + 1 := Nat.exists_eq_succ_of_ne_zero hj
    have hmem : p ∈ ops.map fun op => op.exec >>= fun _ => pure none := List.mem_of_getElem? hp
    obtain ⟨op, -, rfl⟩ := List.mem_map.mp hmem
    refine Prog.Sat.bind ?_ fun _ => .pure _
    refine op.exec_appends.mono (fun _ => id) fun _ _ _ h => ⟨h.1, fun _ => h.1, ?_⟩
    obtain ⟨more, hmore⟩ := h.2
    exact ⟨more, hmore.symm⟩

end Interleavings

/-! ### A sample -/

section Sample

attribute [local instance] limitedPlatform

/-- The database with nothing in it. -/
def sampleEmpty : World := .fresh fun _ => none

/-- Two requests for a path of somebody else, which are refused. -/
def sampleIntrusions : List AppOp :=
  [.service samplePassphrase (.kv (.read (py "mallory@example.com") samplePath none)),
    .service samplePassphrase (.kv (.delete (py "mallory@example.com") samplePath))]

/-- The second is logged between the two looks of a verification. -/
def sampleStraddle : List ℕ := [1, 1, 0, 2, 2, 0]

attribute [local irreducible] Config.exec

/-- Both refusals are in the log. -/
theorem log_lists_refusals_sample : ∃ accs : List (List (List Value)), accs.length = 2 ∧
    (((requests sampleEmpty sampleIntrusions).exec [0, 1, 1, 0]).state.db.auditLogs.rows.map AuditLog.shown).Perm
      accs.flatten := by
  obtain ⟨accs, hlen, hperm, -⟩ := log_lists_refusals limitedPlatform_gcmLimits limitedPlatform_gcmRejects (fun _ => none)
    sampleIntrusions [0, 1, 1, 0]
  exact ⟨accs, hlen, hperm⟩

/-- An alarm that nobody caused. -/
theorem verify_among_requests_sample : ∃ report : Report,
    ((verification sampleEmpty sampleIntrusions).exec sampleStraddle).result 0 = some (.ok (some report)) ∧
      ∃ (front : List AuditLog) (h : PyStr), front ≠ [] ∧
        report = ⟨false, front.length, h, .none, some .headMismatch⟩ := by
  have hvalid : (((verification sampleEmpty sampleIntrusions).exec sampleStraddle).result 0).map
      (fun r => r.toOption.map fun report => report.map Report.valid) = some (some (some false)) := by
    decide +kernel
  obtain ⟨r, hr, hsome⟩ := Option.map_eq_some_iff.mp hvalid
  obtain ⟨front, back, h, h', -, -, -, -, rfl⟩ := verify_among_requests .fresh sampleIntrusions sampleStraddle hr
  by_cases hfront : front = [] ∨ h' = h
  · simp [hfront, Except.toOption] at hsome
  · rw [if_neg hfront] at hr
    exact ⟨_, hr, front, h, fun hnil => hfront (.inl hnil), rfl⟩

end Sample

end MiniVault
