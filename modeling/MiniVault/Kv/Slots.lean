import MiniVault.Kv.AssociatedData
import MiniVault.Kv.History

/-!
# The slots of the key-value store

A write encrypts under associated data made of the owner, the path and the number of
the version: its slot. What keeps a blob of an earlier write from being put back in
place of a later one is that no slot is used twice.

`append_version` numbers from the rows that are there, and `delete` removes the rows.
So a path that is written, deleted and written again starts over at number one, and
uses the slots of its first life a second time.

## What is proved

* `slots_nodup_iff` — a run uses every slot once exactly if it never writes to a path
  after deleting it.
* `slots_used_once` — in exactly these runs the slots are used once and, whatever blob of
  the run is put into whatever row, a read that succeeds returns what the row's own write
  stored.
* `slot_reused_sample` — a run that uses a slot twice, and reads what was deleted.
-/

namespace MiniVault

open Foundations

/-- An operation with its answer. -/
abbrev KvEvent := KvOp × Except Exc KvAnswer

/-- The slot a write that succeeded encrypted under: owner, path and number. -/
def slotOf : KvEvent → Option (PyStr × PyStr × ℤ)
  | (.write owner path _ _, .ok (.appended a)) => some (owner, path, a.version)
  | _ => none

/-- What a delete that succeeded deleted. -/
def deletedBy : KvEvent → Option (PyStr × PyStr)
  | (.delete owner path, .ok _) => some (owner, path)
  | _ => none

/-- The slots a run used, in order. -/
def slots (t : KvTrace) : List (PyStr × PyStr × ℤ) := t.filterMap slotOf

/-- No path is written to after it was deleted. -/
def NoRewrite (t : KvTrace) : Prop :=
  t.Pairwise fun e e' => ∀ u p n, deletedBy e = some (u, p) → slotOf e' ≠ some (u, p, n)

/-! ### What the operations answer -/

/-- What an event says about the history it happens to: a write is the owner's and gets
the next number, a delete removes something. -/
def Genuine [Platform] (h : PyStr → PyStr → List Data) : KvEvent → Prop
  | (.write u p _ _, .ok answer) =>
    extractOwnerEmailFromPath p = .ok u ∧ ∃ a, answer = .appended a ∧ a.version = (h u p).length + 1
  | (.delete u p, .ok _) => h u p ≠ []
  | _ => True

/-- The traces whose events are genuine. -/
inductive GenuineTrace [Platform] : KvTrace → Prop where
  /-- Nothing has happened. -/
  | nil : GenuineTrace []
  /-- One more thing happens. -/
  | snoc {t : KvTrace} {e : KvEvent} : GenuineTrace t → Genuine (history t) e → GenuineTrace (t ++ [e])

section Runs

variable [Platform]

/-- **What an event does** under an owner and a path: it writes, it deletes, or it does
nothing there. -/
theorem Genuine.effect {h : PyStr → PyStr → List Data} {e : KvEvent} (hg : Genuine h e) (u p : PyStr) :
    (∃ data nonce answer, e = (.write u p data nonce, .ok answer) ∧ slotOf e = some (u, p, ((h u p).length : ℤ) + 1) ∧
        extractOwnerEmailFromPath p = .ok u ∧ recordKv h e u p = h u p ++ [data]) ∨
      (deletedBy e = some (u, p) ∧ (∀ n, slotOf e ≠ some (u, p, n)) ∧ h u p ≠ [] ∧ recordKv h e u p = []) ∨
        (deletedBy e ≠ some (u, p) ∧ (∀ n, slotOf e ≠ some (u, p, n)) ∧ recordKv h e u p = h u p) := by
  obtain ⟨op, r⟩ := e
  cases r with
  | error x =>
    refine .inr (.inr ⟨?_, fun n => ?_, ?_⟩) <;> cases op <;> simp [deletedBy, slotOf, recordKv]
  | ok answer =>
    cases op with
    | write u' p' data nonce =>
      obtain ⟨hown, a, rfl, hversion⟩ := hg
      by_cases hup : u' = u ∧ p' = p
      · obtain ⟨rfl, rfl⟩ := hup
        exact .inl ⟨data, nonce, _, rfl, by simp [slotOf, hversion], hown, by simp [recordKv]⟩
      · refine .inr (.inr ⟨by simp [deletedBy], fun n hs => ?_, by simp [recordKv, hup]⟩)
        simp only [slotOf, Option.some.injEq, Prod.mk.injEq] at hs
        exact hup ⟨hs.1, hs.2.1⟩
    | delete u' p' =>
      by_cases hup : u = u' ∧ p = p'
      · obtain ⟨rfl, rfl⟩ := hup
        exact .inr (.inl ⟨rfl, by simp [slotOf], hg, by simp [recordKv]⟩)
      · refine .inr (.inr ⟨fun hd => ?_, by simp [slotOf], by simp [recordKv, hup]⟩)
        simp only [deletedBy, Option.some.injEq, Prod.mk.injEq] at hd
        exact hup ⟨hd.1.symm, hd.2.symm⟩
    | _ => exact .inr (.inr ⟨by simp [deletedBy], by simp [slotOf], rfl⟩)

omit [Platform] in
theorem slots_append (t : KvTrace) (e : KvEvent) : slots (t ++ [e]) = slots t ++ (slotOf e).toList := by
  unfold slots
  rw [List.filterMap_append]
  cases h : slotOf e <;> simp [h]

omit [Platform] in
theorem mem_slots {t : KvTrace} {s : PyStr × PyStr × ℤ} : s ∈ slots t ↔ ∃ e ∈ t, slotOf e = some s :=
  List.mem_filterMap

/-- What stands in the history was written under the number of its place. -/
theorem GenuineTrace.written {t : KvTrace} (ht : GenuineTrace t) {u p : PyStr} {i : ℕ} {data : Data}
    (hi : (history t u p)[i]? = some data) : ∃ nonce answer,
      (KvOp.write u p data nonce, Except.ok answer) ∈ t ∧
        slotOf (.write u p data nonce, .ok answer) = some (u, p, (i : ℤ) + 1) := by
  induction ht with
  | nil => simp [history] at hi
  | @snoc t e _ hg ih =>
    have hold : (history t u p)[i]? = some data → ∃ nonce answer,
        (KvOp.write u p data nonce, Except.ok answer) ∈ t ++ [e] ∧
          slotOf (.write u p data nonce, .ok answer) = some (u, p, (i : ℤ) + 1) := by
      intro hi
      obtain ⟨nonce, answer, hmem, hs⟩ := ih hi
      exact ⟨nonce, answer, List.mem_append_left _ hmem, hs⟩
    rw [history_append] at hi
    rcases hg.effect u p with ⟨d, nonce, answer, rfl, hs, -, hrec⟩ | ⟨-, -, -, hrec⟩ | ⟨-, -, hrec⟩ <;> rw [hrec] at hi
    · rcases lt_or_ge i (history t u p).length with hlt | hge
      · rw [List.getElem?_append_left hlt] at hi
        exact hold hi
      · obtain ⟨hlt, hget⟩ := List.getElem?_eq_some_iff.mp hi
        rw [List.length_append, List.length_singleton] at hlt
        obtain rfl : i = (history t u p).length := by omega
        rw [List.getElem_concat_length rfl] at hget
        subst hget
        exact ⟨nonce, answer, by simp, hs⟩
    · simp at hi
    · exact hold hi

/-! ### Slots used once -/

theorem genuineTrace_append {t : KvTrace} {e : KvEvent} :
    GenuineTrace (t ++ [e]) ↔ GenuineTrace t ∧ Genuine (history t) e := by
  constructor
  · intro h
    generalize hs : t ++ [e] = s at h
    cases h with
    | nil => simp at hs
    | snoc ht hg =>
      obtain ⟨rfl, he⟩ := List.append_inj' hs rfl
      obtain rfl := List.singleton_inj.mp he
      exact ⟨ht, hg⟩
  · rintro ⟨ht, hg⟩
    exact ht.snoc hg

/-- A path that has no history and then has one was written under number one. -/
theorem slot_one_of_history {t₁ t₂ : KvTrace} (ht : GenuineTrace (t₁ ++ t₂)) {u p : PyStr}
    (h₁ : history t₁ u p = []) (h₂ : history (t₁ ++ t₂) u p ≠ []) : (u, p, 1) ∈ slots t₂ := by
  induction t₂ using List.reverseRecOn with
  | nil =>
    rw [List.append_nil] at h₂
    exact absurd h₁ h₂
  | append_singleton t e ih =>
    rw [← List.append_assoc] at ht h₂
    obtain ⟨ht, hg⟩ := genuineTrace_append.mp ht
    rw [slots_append, List.mem_append]
    by_cases hne : history (t₁ ++ t) u p = []
    · -- the event wrote the first version
      rw [history_append] at h₂
      rcases hg.effect u p with ⟨_, _, _, -, hs, -⟩ | ⟨-, -, -, hrec⟩ | ⟨-, -, hrec⟩
      · rw [hne] at hs
        right
        rw [hs]
        simp
      · exact absurd hrec h₂
      · exact absurd (hrec.trans hne) h₂
    · exact .inl (ih ht hne)

/-- Where nothing was deleted, the numbers used are those of the history. -/
theorem slot_le_of_not_deleted {t : KvTrace} (ht : GenuineTrace t) {u p : PyStr} {n : ℤ}
    (hdel : ∀ e ∈ t, deletedBy e ≠ some (u, p)) (hs : (u, p, n) ∈ slots t) : n ≤ (history t u p).length := by
  induction ht with
  | nil => cases hs
  | @snoc t e _ hg ih =>
    have hold := ih fun e he => hdel e (List.mem_append_left _ he)
    rw [history_append]
    rw [slots_append, List.mem_append, Option.mem_toList] at hs
    rcases hg.effect u p with ⟨_, _, _, -, hslot, -, hrec⟩ | ⟨hd, -⟩ | ⟨-, hnot, hrec⟩
    · rw [hrec, List.length_append, List.length_singleton]
      rcases hs with hs | hs
      · have := hold hs
        omega
      · rw [hslot] at hs
        simp only [Option.some.injEq, Prod.mk.injEq, true_and] at hs
        omega
    · exact absurd hd (hdel e (by simp))
    · rw [hrec]
      rcases hs with hs | hs
      · exact hold hs
      · exact absurd hs (hnot n)

theorem GenuineTrace.left {t₁ t₂ : KvTrace} (ht : GenuineTrace (t₁ ++ t₂)) : GenuineTrace t₁ := by
  induction t₂ using List.reverseRecOn with
  | nil => rwa [List.append_nil] at ht
  | append_singleton t e ih =>
    rw [← List.append_assoc] at ht
    exact ih (genuineTrace_append.mp ht).1

/-- What was deleted, and not written again, has no history, and its number one is used. -/
theorem slot_one_of_deleted {t : KvTrace} (ht : GenuineTrace t) (hno : NoRewrite t) {u p : PyStr} {e : KvEvent}
    (he : e ∈ t) (hd : deletedBy e = some (u, p)) : history t u p = [] ∧ (u, p, 1) ∈ slots t := by
  obtain ⟨t₁, t₂, rfl⟩ := List.append_of_mem he
  have hsplit : GenuineTrace ((t₁ ++ [e]) ++ t₂) := by simpa using ht
  obtain ⟨hbefore, hg⟩ := genuineTrace_append.mp hsplit.left
  have hafter : history (t₁ ++ [e]) u p = [] ∧ history t₁ u p ≠ [] := by
    rw [history_append]
    rcases hg.effect u p with ⟨_, _, _, rfl, -⟩ | ⟨-, -, hne, hrec⟩ | ⟨hd', -⟩
    · cases hd
    · exact ⟨hrec, hne⟩
    · exact absurd hd hd'
  constructor
  · by_contra hne
    have hone : (u, p, 1) ∈ slots t₂ := slot_one_of_history hsplit hafter.1 (by simpa using hne)
    obtain ⟨e', he', hs⟩ := mem_slots.mp hone
    have hpair := (List.pairwise_cons.mp (List.pairwise_append.mp hno).2.1).1 e' he'
    exact hpair u p 1 hd hs
  · obtain ⟨e', he', hs⟩ := mem_slots.mp (slot_one_of_history (show GenuineTrace ([] ++ t₁) from hbefore) rfl hafter.2)
    exact mem_slots.mpr ⟨e', List.mem_append_left _ he', hs⟩

/-- **Slots and deletes.** The slots of a run are used once exactly if no path is written
to after it was deleted. -/
theorem slots_nodup_iff {t : KvTrace} (ht : GenuineTrace t) : (slots t).Nodup ↔ NoRewrite t := by
  induction ht with
  | nil => simp [slots, NoRewrite]
  | @snoc t e ht hg ih =>
    rw [slots_append, List.nodup_append, ih]
    conv_rhs => rw [NoRewrite, List.pairwise_append]
    refine and_congr_right fun hno => ?_
    cases he : slotOf e with
    | none => simp [he]
    | some s =>
      obtain ⟨u, p, n⟩ := s
      simp only [Option.toList_some, List.nodup_singleton, List.mem_singleton, List.pairwise_singleton, true_and,
        forall_eq, he, Option.some.injEq, Prod.mk.injEq, ne_eq]
      -- the number of the write is one more than the length of the history
      obtain rfl : n = (history t u p).length + 1 := by
        rcases hg.effect u p with ⟨_, _, _, -, hs, -⟩ | ⟨-, hs, -⟩ | ⟨-, hs, -⟩
        · rw [he] at hs
          simpa using hs
        · exact absurd he (hs n)
        · exact absurd he (hs n)
      constructor
      · rintro hfresh e' he' u' p' n' hd ⟨rfl, rfl, -⟩
        obtain ⟨hnil, hone⟩ := slot_one_of_deleted ht hno he' hd
        exact hfresh _ hone (by simp [hnil])
      · rintro hnot s hs rfl
        have hle := slot_le_of_not_deleted ht (fun e' he' hd => hnot e' he' u p _ hd ⟨rfl, rfl, rfl⟩) hs
        omega

omit [Platform] in
/-- Two writes under one slot are one write. -/
theorem event_eq_of_slot {t : KvTrace} (hnodup : (slots t).Nodup) {e e' : KvEvent} (he : e ∈ t) (he' : e' ∈ t)
    {s : PyStr × PyStr × ℤ} (hs : slotOf e = some s) (hs' : slotOf e' = some s) : e = e' := by
  unfold slots List.Nodup at hnodup
  rw [List.pairwise_filterMap] at hnodup
  have : Std.Symm fun e e' : KvEvent => ∀ b, slotOf e = some b → ∀ b', slotOf e' = some b' → b ≠ b' :=
    ⟨fun _ _ h b hb b' hb' heq => h b' hb' b hb heq.symm⟩
  by_contra hne
  exact hnodup.forall he he' hne s hs s hs' rfl

/-! ### The events of a run -/

/-- The events of a run are genuine. -/
theorem Refines.genuine {passphrase : PyStr} {dek : Key} {t : KvTrace} {w : World} (op : KvOp)
    (h : Refines passphrase dek t w) : Genuine (history t) (op, ((op.exec passphrase).run w).1) := by
  cases op with
  | write owner path data nonce =>
    simp only [KvOp.exec, run_answer]
    rcases hrun : (KvService.write owner path data nonce).run w with ⟨e | a, w'⟩
    · trivial
    · obtain ⟨hown, -, -, _, _, _, _, -, -, -, -, _, _, _, _, halloc, hins, -⟩ := KvService.run_write_eq_ok hrun
      obtain ⟨-, -, hversion, -⟩ := halloc.append h.sound hins
      rw [(h.holds owner path).length_eq] at hversion
      exact ⟨hown, a, rfl, hversion⟩
  | delete owner path =>
    simp only [KvOp.exec, Prog.run_bind]
    rcases hrun : (KvService.delete owner path).run w with ⟨e | u, w'⟩
    · trivial
    · obtain ⟨-, -, -, -, hpos, -⟩ := KvService.run_delete_eq_ok hrun
      have hne := (Database.deleteRecord_spec h.sound owner path).2.2.1.mp hpos
      intro hnil
      have hlen := (h.holds owner path).length_eq
      rw [hnil] at hlen
      exact hne (List.length_eq_zero_iff.mp hlen)
  | _ => trivial

theorem genuine_session (hgcm : GcmCorrect) {passphrase : PyStr} {dek : Key} {w : World}
    (h : Refines passphrase dek [] w) (ops : List KvOp) : GenuineTrace (kvSession passphrase w ops).1 := by
  have hinv : Refines passphrase dek (kvSession passphrase w ops).1 (kvSession passphrase w ops).2 ∧
      GenuineTrace (kvSession passphrase w ops).1 :=
    Prog.session_invariant (I := fun t w => Refines passphrase dek t w ∧ GenuineTrace t) ⟨h, .nil⟩
      (fun _ _ op hs => ⟨hs.1.step hgcm op, hs.2.snoc (hs.1.genuine op)⟩) ops
  exact hinv.2

/-! ### Blobs put back -/

/-- The blob a write that succeeded produced, with the associated data of its slot. -/
def blobProduced (dek : Key) : KvEvent → Option (Bytes × EncryptedBlob)
  | (.write owner path data nonce, .ok (.appended a)) => do
    let plaintext ← (KvService.encodeData data).toOption
    let associatedData ← (KvService.aad owner path a.version).toOption
    let encrypted ← (Platform.aesGcmEncrypt dek nonce plaintext associatedData).toOption
    return (associatedData, .split nonce encrypted)
  | _ => none

omit [Platform] in
/-- The row with a blob put into it. -/
def KvVersion.withBlob (row : KvVersion) (blob : EncryptedBlob) : KvVersion :=
  { row with
    nonceB64 := .str (encodeB64 blob.nonce)
    ciphertextB64 := .str (encodeB64 blob.ciphertext)
    tagB64 := .str (encodeB64 blob.tag) }

omit [Platform] in
/-- A blob put into a row of `kv_versions` behind the store's back. -/
def World.putBack (w : World) (row : KvVersion) (blob : EncryptedBlob) : World :=
  { w with db := { w.db with
      kvVersions := ⟨w.db.kvVersions.rows.map fun v => if v = row then v.withBlob blob else v, w.db.kvVersions.seq⟩ } }

/-- Whatever blob of the run is put into whatever row, a read that succeeds returns what
was written under the number it reports. -/
def ReplaySafe (dek : Key) (t : KvTrace) (w : World) : Prop :=
  ∀ e ∈ t, ∀ associatedData blob, blobProduced dek e = some (associatedData, blob) →
    ∀ row ∈ w.db.kvVersions.rows, ∀ owner path version r w',
      (KvService.read owner path version).run (w.putBack row blob) = (.ok r, w') →
        ∃ i : ℕ, r.version = i + 1 ∧ (history t owner path)[i]? = some r.data

/-- Whose path an event that uses a slot writes to. -/
theorem GenuineTrace.owner {t : KvTrace} (ht : GenuineTrace t) {e : KvEvent} (he : e ∈ t) {u p : PyStr} {n : ℤ}
    (hs : slotOf e = some (u, p, n)) : extractOwnerEmailFromPath p = .ok u := by
  obtain ⟨t₁, t₂, rfl⟩ := List.append_of_mem he
  have hsplit : GenuineTrace ((t₁ ++ [e]) ++ t₂) := by simpa using ht
  rcases (genuineTrace_append.mp hsplit.left).2.effect u p with ⟨_, _, _, -, -, hown, -⟩ | ⟨-, hnot, -⟩ | ⟨-, hnot, -⟩
  · exact hown
  · exact absurd hs (hnot n)
  · exact absurd hs (hnot n)

/-- What a blob produced by a write is: the write's data, sealed under its slot. -/
theorem blobProduced_eq_some {dek : Key} {e : KvEvent} {associatedData : Bytes} {blob : EncryptedBlob}
    (h : blobProduced dek e = some (associatedData, blob)) :
    ∃ u p data nonce a plaintext encrypted, e = (.write u p data nonce, .ok (.appended a)) ∧
      KvService.encodeData data = .ok plaintext ∧ KvService.aad u p a.version = .ok associatedData ∧
        Platform.aesGcmEncrypt dek nonce plaintext associatedData = .ok encrypted ∧ blob = .split nonce encrypted := by
  unfold blobProduced at h
  split at h
  · next u p data nonce a =>
    refine ⟨u, p, data, nonce, a, ?_⟩
    cases hdata : KvService.encodeData data with
    | error e => simp [hdata, Except.toOption] at h
    | ok plaintext =>
      cases haad : KvService.aad u p a.version with
      | error e => simp [hdata, haad, Except.toOption] at h
      | ok ad =>
        cases henc : Platform.aesGcmEncrypt dek nonce plaintext ad with
        | error e => simp [hdata, haad, henc, Except.toOption] at h
        | ok encrypted =>
          simp only [hdata, haad, henc, Except.toOption, Option.bind_eq_bind, Option.bind_some, Option.pure_def,
            Option.some.injEq, Prod.mk.injEq] at h
          obtain ⟨rfl, rfl⟩ := h
          exact ⟨plaintext, encrypted, rfl, rfl, rfl, henc, rfl⟩
  · cases h

/-- In a run that uses its slots once, blobs put back are not taken for others. -/
theorem Refines.replaySafe (hgcm : GcmCorrect) (hlower : LowerKeepsSlash) {passphrase : PyStr} {dek : Key}
    {t : KvTrace} {w : World} (h : Refines passphrase dek t w) (ht : GenuineTrace t) (hnodup : (slots t).Nodup)
    (hbound : ∀ e ∈ t, ∀ associatedData blob, blobProduced dek e = some (associatedData, blob) →
      BoundTo dek associatedData blob)
    (hjson : ∀ u p data nonce answer, (KvOp.write u p data nonce, Except.ok answer) ∈ t → JsonFaithful data) :
    ReplaySafe dek t w := by
  intro e he associatedData blob hblob target _ owner path version r w' hread
  obtain ⟨-, hown, -, -, k, requested, row, record, hk, -, hsel, -, hopen, hn, -⟩ := KvService.run_read_eq_ok hread
  obtain rfl := h.memory k hk
  -- the row that is read, as it was before
  have hsound : (w.putBack target blob).db.KvSound := by
    refine ⟨Versioning.Sound.map h.sound.toSound (fun v => ?_) fun v => ?_, h.sound.recordCells, fun v hv => ?_⟩
    · split_ifs <;> rfl
    · split_ifs <;> rfl
    · obtain ⟨v', hv', rfl⟩ := List.mem_map.mp hv
      have hold := h.sound.versionCells v' hv'
      split_ifs
      · simp only [KvVersion.cells, fetchable_cons, fetchable_nil, and_true] at hold ⊢
        exact ⟨hold.1, hold.2.1, rfl, rfl, rfl, hold.2.2.2.2.2⟩
      · exact hold
  have hat : (w.putBack target blob).db.versionsAt owner path =
      (w.db.versionsAt owner path).map fun v => if v = target then v.withBlob blob else v := by
    refine Versioning.versionsOf_map (fun v => ?_) _
    split_ifs <;> rfl
  have hmem := KvService.selected_mem hsound hsel
  rw [hat] at hmem
  obtain ⟨v, hv, rfl⟩ := List.mem_map.mp hmem
  obtain ⟨i, hi⟩ := List.getElem?_of_mem hv
  have hlt : i < (history t owner path).length := by
    rw [← (h.holds owner path).length_eq]
    exact (List.getElem?_eq_some_iff.mp hi).1
  have hversion : v.version = .int (i + 1) := Database.versionsAt_number h.sound hi
  have hsame : (if v = target then v.withBlob blob else v).version = v.version := by split_ifs <;> rfl
  rw [hsame, hversion, pyInt_int] at hn
  refine ⟨i, (Except.ok.inj hn).symm, ?_⟩
  obtain ⟨nonce, answer, hwrote, hslot⟩ := ht.written (List.getElem?_eq_getElem hlt)
  have hfaithful := hjson _ _ _ _ _ hwrote
  rw [List.getElem?_eq_getElem hlt]
  by_cases htarget : v = target
  · -- the blob was put into this row, and opens: then it is this row's
    rw [if_pos htarget] at hopen hsame
    obtain ⟨blob', n, ad, plaintext, hb, hn', haad, hopens, hdec⟩ := KvService.openRow_eq_ok.mp hopen
    rw [hsame, hversion, pyInt_int] at hn'
    obtain rfl := Except.ok.inj hn'
    obtain rfl : blob = blob' := by
      simpa [KvService.blobOf, KvVersion.withBlob, pure, Except.pure] using hb
    obtain rfl := hbound e he _ _ hblob _ _ hopens
    obtain ⟨u, p, data, nonce', a, plaintext', encrypted, rfl, hdata, haad', henc, rfl⟩ := blobProduced_eq_some hblob
    obtain ⟨rfl, rfl, hnumber⟩ := KvService.aad_inj hlower (ht.owner he rfl) hown haad' haad
    have heq := event_eq_of_slot hnodup he hwrote rfl (by rw [hslot, hnumber])
    simp only [Prod.mk.injEq, KvOp.write.injEq, true_and] at heq
    obtain rfl := hopens.unique (hgcm.opens k.2 henc)
    rw [← heq.1.1] at hfaithful ⊢
    rw [hfaithful.decodeData hdata] at hdec
    simpa using hdec
  · rw [if_neg htarget] at hopen
    obtain ⟨row', hrow', hholds⟩ := h.row hlt
    obtain rfl := Option.some.inj (hi.symm.trans hrow')
    rw [hholds.openRow hfaithful] at hopen
    simpa using hopen

/-- **Slots are used once exactly where no path is written again after it was deleted.**
In every run from an empty database and a vault that has just been initialized, the writes
use their slots once, and no blob of the run that is put into a row is taken for another
one, exactly if no write follows a delete of its path. -/
theorem slots_used_once (hgcm : GcmCorrect) (hlower : LowerKeepsSlash) (environ : PyStr → Option PyStr)
    (passphrase : PyStr) (coins : VaultService.InitCoins) (ops : List KvOp) :
    let start := (VaultService.initializeVault passphrase coins).run (.fresh environ)
    let run := kvSession passphrase start.2 ops
    start.1.isOk →
      (∀ e ∈ run.1, ∀ associatedData blob, blobProduced coins.dek e = some (associatedData, blob) →
        BoundTo coins.dek associatedData blob) →
        (∀ u p data nonce answer, (KvOp.write u p data nonce, Except.ok answer) ∈ run.1 → JsonFaithful data) →
          ((slots run.1).Nodup ∧ ReplaySafe coins.dek run.1 run.2 ↔ NoRewrite run.1) := by
  intro start run hinit hbound hjson
  have hstart := Refines.start hgcm hinit
  have ht := genuine_session hgcm hstart ops
  rw [← slots_nodup_iff ht]
  refine ⟨fun h => h.1, fun hnodup => ⟨hnodup, ?_⟩⟩
  exact (refines_session hgcm hstart ops).replaySafe hgcm hlower ht hnodup hbound hjson

end Runs

/-! ### Runs on the sample platform -/

section Sample

attribute [local instance] samplePlatform

/-- The slots of the sample run are used once, and its blobs stay where they are. -/
theorem slots_used_once_sample :
    (slots (kvSession samplePassphrase sampleStart.2 sampleOps).1).Nodup ∧
        ReplaySafe sampleCoins.dek (kvSession samplePassphrase sampleStart.2 sampleOps).1
          (kvSession samplePassphrase sampleStart.2 sampleOps).2 ↔
      NoRewrite (kvSession samplePassphrase sampleStart.2 sampleOps).1 := by
  refine slots_used_once samplePlatform_gcmCorrect samplePlatform_lowerKeepsSlash (fun _ => none) samplePassphrase
    sampleCoins sampleOps (by decide +kernel) ?_ ?_
  · intro e _ associatedData blob hblob
    obtain ⟨_, _, _, nonce, _, plaintext, _, -, -, -, henc, rfl⟩ := blobProduced_eq_some hblob
    exact samplePlatform_boundTo henc
  · intro u p data nonce answer hmem
    exact sampleOps_jsonFaithful hmem

/-- A path that is written, deleted and written again. -/
def sampleRewrite : List KvOp :=
  [.unlock, .write sampleOwner samplePath [] (sampleNonce 3), .delete sampleOwner samplePath,
    .write sampleOwner samplePath [(py "a", .null)] (sampleNonce 4)]

/-- The run. -/
def sampleRewritten : KvTrace × World := kvSession samplePassphrase sampleStart.2 sampleRewrite

/-- What is read after the blob of the first write, which was deleted, is put into the row
of the second. -/
def sampleReplayed : Option ReadResult := do
  let (_, blob) ← sampleRewritten.1[1]? >>= blobProduced sampleCoins.dek
  let row ← sampleRewritten.2.db.kvVersions.rows.head?
  ((KvService.read sampleOwner samplePath none).run (sampleRewritten.2.putBack row blob)).1.toOption

/-- The run uses a slot twice, and reads the empty object that was deleted where an object
with one member was written. -/
theorem slot_reused_sample :
    sampleStart.1.isOk ∧ ¬ (slots sampleRewritten.1).Nodup ∧
      sampleReplayed.map (fun r => (r.version, r.data.length)) = some (1, 0) ∧
        (history sampleRewritten.1 sampleOwner samplePath).map List.length = [1] := by
  refine ⟨by decide +kernel, by decide +kernel, by decide +kernel, by decide +kernel⟩

end Sample

end MiniVault
