import MiniVault.Audit.Errors
import MiniVault.Kv.Operations

/-!
# What a write fails with

A write encodes its data, allocates a version and encrypts for it. Where one of these fails, it fails with an error of
the language or of another library.

## What is proved

* `dumps_dumpedIf` — the JSON values that have a text with UTF-8 bytes.
* `KvService.exists_encodeData` — the data that can be encoded.
* `KvService.appendVersion_fails` — what the transaction of a write fails with.
-/

namespace MiniVault

open Foundations

variable [Platform]

/-! ### Data that can be stored -/

mutual

/-- The value has a text, and the text has UTF-8 bytes: it is at most `depth` containers deep, its integers are not
too long, and no string has a lone surrogate. -/
def Json.writable (depth : ℕ) : Json → Bool
  | .int i => (Nat.toDigits 10 i.natAbs).length ≤ 4300
  | .str s => Encodable s
  | .arr items => 0 < depth && Json.writableItems (depth - 1) items
  | .obj members => 0 < depth && Json.writableMembers (depth - 1) members
  | _ => true

/-- So have the items of an array. -/
def Json.writableItems (depth : ℕ) : List Json → Bool
  | [] => true
  | v :: vs => v.writable depth && Json.writableItems depth vs

/-- So have the members of an object. -/
def Json.writableMembers (depth : ℕ) : List (PyStr × Json) → Bool
  | [] => true
  | (k, v) :: ms => Encodable k && v.writable depth && Json.writableMembers depth ms

end

/-- Whether a text that is dumped has bytes, and that nothing but an error of a library is raised. -/
structure DumpedIf (r : Except Exc PyStr) (b : Bool) : Prop where
  /-- There is a text, and it has bytes. -/
  text : (∃ t, r = .ok t ∧ Encodable t) ↔ b
  /-- The errors. -/
  error : ∀ e, r = .error e → e.isLibrary

namespace DumpedIf

variable {r r' : Except Exc PyStr} {b b' : Bool}

omit [Platform] in
theorem ok {t : PyStr} (h : Encodable t ↔ b) : DumpedIf (.ok t) b := by
  refine ⟨⟨?_, fun hb => ⟨t, rfl, h.mpr hb⟩⟩, nofun⟩
  rintro ⟨t', ht', hencodable⟩
  rw [← Except.ok.inj ht'] at hencodable
  exact h.mp hencodable

omit [Platform] in
/-- There is none. -/
theorem fail {e : Exc} (h : e.isLibrary) : DumpedIf (.error e) false :=
  ⟨⟨nofun, nofun⟩, fun e' he => by rw [← Except.error.inj he]; exact h⟩

omit [Platform] in
/-- Some text around it, with bytes where `c` is. -/
theorem map (h : DumpedIf r b) {f : PyStr → PyStr} {c : Bool} (hf : ∀ t, Encodable (f t) ↔ c ∧ Encodable t) :
    DumpedIf (r.map f) (c && b) := by
  rcases r with e | t
  · refine ⟨⟨nofun, fun hb => ?_⟩, fun e' he => h.error e' (congrArg _ (Except.error.inj he))⟩
    obtain ⟨t, ht, -⟩ := h.text.mpr (Bool.and_eq_true _ _ ▸ hb).2
    cases ht
  · apply ok
    rw [hf, Bool.and_eq_true, ← h.text]
    exact and_congr_right fun _ => ⟨fun ht => ⟨t, rfl, ht⟩, fun ⟨t', ht', ht⟩ => by rwa [Except.ok.inj ht']⟩

omit [Platform] in
/-- Two texts, one after the other. -/
theorem append (h : DumpedIf r b) (h' : DumpedIf r' b') {f : PyStr → PyStr → PyStr} {c : Bool}
    (hf : ∀ t t', Encodable (f t t') ↔ c ∧ Encodable t ∧ Encodable t') :
    DumpedIf (do let t ← r; let t' ← r'; return f t t') (c && b && b') := by
  rcases r with e | t
  · refine ⟨⟨nofun, fun hb => ?_⟩, fun e' he => h.error e' (congrArg _ (Except.error.inj he))⟩
    simp only [Bool.and_eq_true] at hb
    obtain ⟨t, ht, -⟩ := h.text.mpr hb.1.2
    cases ht
  · have hmap := h'.map (f := f t) (c := c && Encodable t) fun t' => by
      rw [hf, Bool.and_eq_true, decide_eq_true_eq, and_assoc]
    have hb : (Encodable t : Bool) = b := by
      rw [Bool.eq_iff_iff, ← h.text, decide_eq_true_eq]
      exact ⟨fun ht => ⟨t, rfl, ht⟩, fun ⟨t', ht', ht⟩ => by rwa [Except.ok.inj ht']⟩
    rw [hb] at hmap
    rcases r' with e | t'
    · exact hmap
    · exact hmap

end DumpedIf

omit [Platform] in
/-- A JSON string has the surrogates of the text. -/
theorem encodable_jsonString_iff {s : PyStr} : Encodable (jsonString s) ↔ Encodable s := by
  refine ⟨fun h c hc => ?_, AuditRepository.encodable_jsonString⟩
  cases c with
  | scalar c => rfl
  | surrogate k =>
    unfold jsonString at h
    have hmem : PyChar.surrogate k ∈ s.flatMap jsonEscape := List.mem_flatMap.mpr ⟨_, hc, List.mem_singleton_self _⟩
    exact h _ (List.mem_append_left _ (List.mem_append_right _ hmem))

theorem encodable_jsonFloat (x : PyFloat) : Encodable (jsonFloat x) := by
  unfold jsonFloat
  split_ifs <;> simp

mutual

/-- **Which values can be written**. -/
theorem dumps_dumpedIf (depth : ℕ) : ∀ v : Json, DumpedIf (dumps depth v) (v.writable depth)
  | .null => .ok (by simp [Json.writable])
  | .bool b => .ok (by cases b <;> simp [Json.writable])
  | .int i => by
    unfold dumps intRepr Json.writable
    split_ifs with h
    · exact .ok (by simp [h])
    · exact ⟨⟨nofun, fun hb => absurd (of_decide_eq_true hb) h⟩, fun e he => by rw [← Except.error.inj he]; rfl⟩
  | .float x => .ok (by simp [Json.writable, encodable_jsonFloat])
  | .str s => .ok (by simp [Json.writable, encodable_jsonString_iff])
  | .arr items => by
    have h := (dumpsItems_dumpedIf (depth - 1) items).map (f := fun t => py "[" ++ t ++ py "]") (c := true) (by simp)
    unfold dumps Json.writable
    rcases Nat.eq_zero_or_pos depth with rfl | hdepth
    · exact .fail rfl
    · simpa [hdepth, hdepth.ne'] using h
  | .obj members => by
    have h := (dumpsMembers_dumpedIf (depth - 1) members).map (f := fun t => py "\x7b" ++ t ++ py "\x7d") (c := true)
      (by simp)
    unfold dumps Json.writable
    rcases Nat.eq_zero_or_pos depth with rfl | hdepth
    · exact .fail rfl
    · simpa [hdepth, hdepth.ne'] using h

theorem dumpsItems_dumpedIf (depth : ℕ) :
    ∀ vs : List Json, DumpedIf (dumpsItems depth vs) (Json.writableItems depth vs)
  | [] => .ok (by simp [Json.writableItems])
  | [v] => by
    unfold dumpsItems Json.writableItems Json.writableItems
    rw [Bool.and_true]
    exact dumps_dumpedIf depth v
  | v :: v' :: vs => by
    have h := (dumps_dumpedIf depth v).append (dumpsItems_dumpedIf depth (v' :: vs)) (f := fun t ts => t ++ py "," ++ ts)
      (c := true) (by simp)
    exact h

theorem dumpsMembers_dumpedIf (depth : ℕ) :
    ∀ ms : List (PyStr × Json), DumpedIf (dumpsMembers depth ms) (Json.writableMembers depth ms)
  | [] => .ok (by simp [Json.writableMembers])
  | [(k, v)] => by
    have h := (dumps_dumpedIf depth v).map (f := fun t => jsonString k ++ py ":" ++ t) (c := Encodable k)
      (by simp [encodable_jsonString_iff])
    unfold dumpsMembers Json.writableMembers Json.writableMembers
    rw [Bool.and_true]
    exact h
  | (k, v) :: m :: ms => by
    have h := (dumps_dumpedIf depth v).append (dumpsMembers_dumpedIf depth (m :: ms))
      (f := fun t ts => jsonString k ++ py ":" ++ t ++ py "," ++ ts) (c := Encodable k)
      (by simp [encodable_jsonString_iff])
    exact h

end

/-! ### Writes -/

/-- `AESGCM.encrypt` raises `OverflowError` where the plaintext or the associated data has more bytes than it takes, and
encrypts everything else, to as many bytes and a tag. -/
structure GcmLimits : Prop where
  /-- What it takes. -/
  ok : ∀ (key : Key) (nonce : Nonce) (plaintext aad : Bytes), plaintext.length < 2 ^ 31 → aad.length < 2 ^ 31 →
    ∃ encrypted, Platform.aesGcmEncrypt key nonce plaintext aad = .ok encrypted ∧
      encrypted.length = plaintext.length + gcmTagLength
  /-- What it does not. -/
  overflow : ∀ (key : Key) (nonce : Nonce) (plaintext aad : Bytes), ¬ (plaintext.length < 2 ^ 31 ∧ aad.length < 2 ^ 31) →
    Platform.aesGcmEncrypt key nonce plaintext aad = .error .overflowError

omit [Platform] in
theorem map_eq_error {α β : Type} {r : Except Exc α} {f : α → β} {e : Exc} : r.map f = .error e ↔ r = .error e := by
  cases r <;> simp [Except.map]

omit [Platform] in
theorem nextId_isLibrary {ρ : Type} {t : Table ρ} {id : ρ → ℤ} {e : Exc} (h : t.nextId id = .error e) : e.isLibrary := by
  unfold Table.nextId at h
  dsimp only at h
  split_ifs at h
  rw [← Except.error.inj h]
  rfl

omit [Platform] in
theorem insertRecord_isLibrary {db : Database} {owner path now : PyStr} {version : ℤ} {e : Exc}
    (h : db.insertRecord owner path version now = .error e) : e.isLibrary := by
  unfold Database.insertRecord at h
  split_ifs at h
  · rw [← Except.error.inj h]
    rfl
  · rcases hid : db.kvRecords.nextId KvRecord.id with e' | n
    · rw [hid] at h
      rw [← Except.error.inj h]
      exact nextId_isLibrary hid
    · rw [hid] at h
      cases h

omit [Platform] in
theorem insertKvVersion_isLibrary {db : Database} {recordId version : ℤ} {nonce ciphertext tag now : PyStr} {e : Exc}
    (h : db.insertKvVersion recordId version nonce ciphertext tag now = .error e) : e.isLibrary := by
  simp only [Database.insertKvVersion] at h
  split_ifs at h
  · rw [← Except.error.inj h]
    rfl
  · rw [← Except.error.inj h]
    rfl
  · rw [← Except.error.inj h]
    rfl
  · rcases hid : db.kvVersions.nextId KvVersion.id with e' | n
    · rw [hid] at h
      rw [← Except.error.inj h]
      exact nextId_isLibrary hid
    · rw [hid] at h
      cases h

/-- An encryption fails with an error of a library. -/
theorem GcmLimits.encryptAesGcm_fails (h : GcmLimits) (key plaintext aad : Bytes) (nonce : Nonce) :
    (encryptAesGcm key plaintext aad nonce).Fails (·.isLibrary) := by
  unfold encryptAesGcm
  by_cases hk : key.length = aes256KeyLength
  · rw [if_neg (not_not.mpr hk)]
    refine .bind (.done fun e he => ?_) fun encrypted => .bind ?_ fun _ => .pure _
    · by_cases hlimits : plaintext.length < 2 ^ 31 ∧ aad.length < 2 ^ 31
      · obtain ⟨encrypted, hok, -⟩ := h.ok ⟨key, hk⟩ nonce plaintext aad hlimits.1 hlimits.2
        cases he.symm.trans hok
      · rw [← Except.error.inj ((h.overflow ⟨key, hk⟩ nonce plaintext aad hlimits).symm.trans he)]
        rfl
    · exact .atom fun _ => .pure _
  · rw [if_pos hk]
    exact .throw rfl

namespace KvService

/-- **The data that can be encoded**. -/
theorem exists_encodeData {data : List (PyStr × Json)} :
    (∃ b, encodeData data = .ok b) ↔ (Json.obj data).writable Platform.dumpsDepth := by
  have h := dumps_dumpedIf Platform.dumpsDepth (.obj data)
  rw [← h.text]
  unfold encodeData
  constructor
  · rintro ⟨b, hb⟩
    obtain ⟨t, ht, hb⟩ := bind_eq_ok.mp hb
    refine ⟨t, ht, (utf8Encode_isSome_iff t).mp ?_⟩
    rcases hencode : utf8Encode t with - | b'
    · rw [hencode] at hb
      cases hb
    · rfl
  · rintro ⟨t, ht, hencodable⟩
    obtain ⟨b, hb⟩ := Option.isSome_iff_exists.mp ((utf8Encode_isSome_iff t).mpr hencodable)
    exact ⟨b, by simp only [ht, ok_bind, hb]; rfl⟩

theorem encodeData_isLibrary {data : List (PyStr × Json)} {e : Exc} (h : encodeData data = .error e) : e.isLibrary := by
  unfold encodeData at h
  rcases ht : dumps Platform.dumpsDepth (.obj data) with e' | t
  · rw [ht] at h
    rw [← Except.error.inj h]
    exact (dumps_dumpedIf _ _).error e' ht
  · rw [ht, ok_bind] at h
    split at h
    · cases h
    · rw [← Except.error.inj h]
      rfl

omit [Platform] in
theorem aad_isLibrary {owner path : PyStr} {version : ℤ} {e : Exc} (h : aad owner path version = .error e) :
    e.isLibrary := by
  unfold aad at h
  split at h
  · cases h
  · rw [← Except.error.inj h]
    rfl

/-- **The transaction of a write fails with an error of a library**. -/
theorem appendVersion_fails (hlimits : GcmLimits) (owner path : PyStr) (dek : Key) (plaintext : Bytes) (nonce : Nonce) :
    (KvRepository.appendVersion owner path (encryptFor dek plaintext owner path nonce)).Fails (·.isLibrary) := by
  refine .bind (.look fun _ _ h => by cases h) fun now => .atomic (.bind ?_ fun _ => .bind ?_ fun _ =>
    .bind (execute_fails fun db e h => ?_) fun _ => .pure _)
  · refine .bind (query_fails _ _) fun record => ?_
    cases record with
    | none =>
      exact .bind (execute_fails fun _ _ h => limitRow_isLibrary (fun _ h => insertRecord_isLibrary h) h) fun _ => .pure _
    | some record =>
      exact .bind (.done fun _ h => pyInt_isLibrary h) fun _ => .bind
        (execute_fails fun _ _ h => limitRow_isLibrary (fun _ h => by cases h) h) fun _ => .pure _
  · exact .bind (.done fun _ h => aad_isLibrary h) fun _ => .bind (hlimits.encryptAesGcm_fails _ _ _ _) fun _ => .pure _
  · exact limitRow_isLibrary (fun _ h => insertKvVersion_isLibrary (map_eq_error.mp h)) h

end KvService

end MiniVault
