import MiniVault.Audit.Chain

/-!
# What logging fails with

An entry cannot be logged where a text has no UTF-8 bytes, a number does not fit into a cell
or a constraint does not hold. What is raised then is an error of the language or of
`sqlite3`, and none of the services' own.
-/

namespace MiniVault

open Foundations

/-- An error of the language, its standard library or another library. -/
def Exc.isLibrary : Exc → Bool
  | .valueError _ => true
  | .typeError _ => true
  | .runtimeError _ => true
  | .recursionError => true
  | .keyError => true
  | .overflowError => true
  | .fileNotFoundError => true
  | .binasciiError => true
  | .unicodeEncodeError => true
  | .unicodeDecodeError => true
  | .jsonDecodeError => true
  | .integrityError => true
  | .operationalError => true
  | .dataError => true
  | .invalidTag => true
  | .invalidSignature => true
  | .hashingError => true
  | _ => false

variable [Platform]

omit [Platform] in
theorem bindAll_isLibrary {vs : List Value} {e : Exc} (h : bindAll vs = .error e) : e.isLibrary := by
  induction vs with
  | nil => cases h
  | cons v vs ih =>
    cases hv : bindValue v with
    | ok u => exact ih (by simpa [bindAll, hv] using h)
    | error e' =>
      simp only [bindAll, hv, error_bind, Except.error.injEq] at h
      subst h
      cases v with
      | int i =>
        simp only [bindValue] at hv
        split_ifs at hv
        rw [← Except.error.inj hv]
        rfl
      | str s =>
        simp only [bindValue] at hv
        split_ifs at hv <;>
        · rw [← Except.error.inj hv]
          rfl
      | undecodable b =>
        rw [← Except.error.inj hv]
        rfl
      | none | real | blob => cases hv

omit [Platform] in
/-- So does a statement that stores a row, where what it does fails so. -/
theorem limitRow_isLibrary {α : Type} {row : List Value} {f : Database → Except Exc (α × Database)} {db : Database} {e : Exc}
    (hf : ∀ e, f db = .error e → e.isLibrary) (h : limitRow row f db = .error e) : e.isLibrary := by
  unfold limitRow at h
  split_ifs at h
  · exact hf e h
  · rw [← Except.error.inj h]
    rfl

theorem pyInt_isLibrary {v : Value} {e : Exc} (h : pyInt v = .error e) : e.isLibrary := by
  unfold pyInt at h
  split at h <;> first | cases h | skip
  · rfl
  all_goals first | rfl | skip
  all_goals
    split at h
    · cases h
    · rw [← Except.error.inj h]
      rfl

theorem dumpsFlat_isLibrary {ms : List (String × Value)} {e : Exc} (h : dumpsFlat ms = .error e) : e.isLibrary := by
  induction ms generalizing e with
  | nil => cases h
  | cons m ms ih =>
    obtain ⟨k, v⟩ := m
    cases hv : dumpsValue v with
    | error e' =>
      simp only [dumpsFlat, hv, error_bind, Except.error.injEq] at h
      subst h
      cases v with
      | int i =>
        simp only [dumpsValue, intRepr] at hv
        split_ifs at hv
        rw [← Except.error.inj hv]
        rfl
      | undecodable b | blob b =>
        rw [← Except.error.inj hv]
        rfl
      | none | real | str => cases hv
    | ok t =>
      cases hms : dumpsFlat ms with
      | error e' =>
        simp only [dumpsFlat, hv, hms, ok_bind, error_bind, Except.error.injEq] at h
        rw [← h]
        exact ih hms
      | ok ts => simp [dumpsFlat, hv, hms] at h

theorem computeEntryHash_isLibrary {p : Value} {entry : Entry} {e : Exc} (h : computeEntryHash p entry = .error e) :
    e.isLibrary := by
  unfold computeEntryHash hashMaterial canonical at h
  cases hms : dumpsFlat entry.members with
  | error e' =>
    simp only [hms, Except.map, error_bind, Except.error.injEq] at h
    rw [← h]
    exact dumpsFlat_isLibrary hms
  | ok t =>
    simp only [hms, Except.map, ok_bind] at h
    split at h
    · next e' hmaterial =>
      split at hmaterial
      · cases hmaterial
      · rw [← Except.error.inj h, ← Except.error.inj hmaterial]
        rfl
    · cases h

omit [Platform] in
theorem query_fails {α : Type} (params : List Value) {cells : α → List Value} (g : Database → α) :
    (query params cells g).Fails (·.isLibrary) := by
  refine .look fun w e h => ?_
  cases hb : bindAll params with
  | ok u =>
    simp only [hb, ok_bind] at h
    split_ifs at h
    · cases h
    · rw [← Except.error.inj h]
      rfl
  | error e' =>
    simp only [hb, error_bind, Except.error.injEq] at h
    exact h ▸ bindAll_isLibrary hb

omit [Platform] in
theorem execute_fails {α : Type} {params : List Value} {f : Database → Except Exc (α × Database)}
    (hf : ∀ db e, f db = .error e → e.isLibrary) : (execute params f).Fails (·.isLibrary) := by
  refine .attempt fun w e h => ?_
  cases hb : bindAll params with
  | error e' =>
    simp only [hb, error_bind, Except.error.injEq] at h
    exact h ▸ bindAll_isLibrary hb
  | ok u =>
    cases hdb : f w.db with
    | error e' =>
      simp only [hb, hdb, ok_bind, error_bind, Except.error.injEq] at h
      exact h ▸ hf _ _ hdb
    | ok r => simp [hb, hdb] at h

/-- **Where logging fails, it fails with an error of a library.** -/
theorem AuditRepository.log_fails (o : AuditRepository.Occurrence) : (AuditRepository.log o).Fails (·.isLibrary) := by
  refine .bind (.look fun _ _ h => by cases h) fun now => .atomic (.bind (query_fails _ _) fun head => .bind (.done ?_)
    fun sequence => .bind (.done fun _ h => computeEntryHash_isLibrary h) fun entryHash => .bind (execute_fails ?_)
      fun _ => execute_fails fun _ _ h => by cases h)
  · intro e h
    cases head with
    | none => cases h
    | some row =>
      cases hseq : pyInt row.entry.sequence with
      | error e' =>
        simp only [AuditRepository.nextSequence, hseq, Except.map, Except.error.injEq] at h
        exact h ▸ pyInt_isLibrary hseq
      | ok n => simp [AuditRepository.nextSequence, hseq, Except.map] at h
  · refine fun db e h => limitRow_isLibrary (fun e h => ?_) h
    simp only [Database.insertLog] at h
    split_ifs at h
    · rw [← Except.error.inj h]
      rfl
    · cases hid : db.auditLogs.nextId AuditLog.id with
      | ok id => simp [hid, Except.map] at h
      | error e' =>
        simp only [hid, error_bind, Except.map, Except.error.injEq] at h
        simp only [Table.nextId] at hid
        split_ifs at hid
        rw [← h, ← Except.error.inj hid]
        rfl

end MiniVault
