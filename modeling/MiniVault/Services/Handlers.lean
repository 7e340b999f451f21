import MiniVault.Core.Runs
import MiniVault.Kv.Errors
import MiniVault.Services.Denials
import MiniVault.Services.Namespaces
import MiniVault.Transit.Signatures

/-!
# Errors with a handler

`register_error_handlers` of `main.py` maps the exceptions of the application to answers. Any other exception that
leaves a service is an internal error of the server.

## The model

`Handled p w` says that a program, run in a world, returns or raises an exception with a handler. It
is pushed through the calls step by step, as an equivalence each time, so that what is left at the end is exactly
what a call asks of its arguments and of the state.

## What is proved

* `handled_authorize_bind`, `handled_ownedKey_bind` — what the look at the owner asks.
* `handled_write_iff`, `handled_read_iff`, `handled_versions_iff`, `handled_delete_iff` — the exact condition for each
  call of the key-value store, where its tables are in order.
-/

namespace MiniVault

open Foundations

/-! ### Handlers -/

/-- The exceptions in the list of `register_error_handlers`. -/
def Exc.isHandled : Exc → Bool
  | .vaultAlreadyInitializedError => true
  | .vaultNotInitializedError => true
  | .invalidMasterPassphrasePolicyError _ => true
  | .invalidMasterPassphraseError => true
  | .vaultLockedError => true
  | .vaultConfigCorruptedError => true
  | .storageError _ => true
  | .legacySchemaError => true
  | .duplicateEmailError => true
  | .passphraseMismatchError => true
  | .weakPassphraseError _ => true
  | .invalidCredentialsError => true
  | .accountLockedError => true
  | .unauthenticatedError => true
  | .permissionDeniedError => true
  | .recordNotFoundError => true
  | .recordTamperedError => true
  | .invalidVersionError => true
  | .keyAlreadyExistsError => true
  | .keyUnavailableError => true
  | .keyVersionUnavailableError => true
  | .invalidKeyUsageError => true
  | .invalidSigningAlgorithmError => true
  | .invalidMessageTypeError => true
  | .invalidDigestLengthError => true
  | .invalidBase64PayloadError => true
  | .invalidKeyNameError => true
  | .malformedCiphertextError => true
  | .transitTamperedError => true
  | _ => false

theorem Exc.isHandled_of_library {e : Exc} (h : e.isLibrary) : e.isHandled = false := by
  cases e <;> first | rfl | cases h

/-- The program, run in the world, returns or raises an exception with a handler. -/
def Handled {α : Type} (p : Act α) (w : World) : Prop := ∀ e, (p.run w).1 = .error e → e.isHandled

section Steps

variable {α β : Type} {p : Act α} {f : α → Act β} {w w' : World}

theorem handled_pure (a : α) : Handled (pure a) w := nofun

theorem handled_throw {e : Exc} : Handled (throw e : Act α) w ↔ e.isHandled :=
  ⟨fun h => h e rfl, fun h e' he => by rwa [← Except.error.inj he]⟩

/-- After a part that returns, it is about the rest. -/
theorem handled_bind_ok {a : α} (h : p.run w = (.ok a, w')) : Handled (p >>= f) w ↔ Handled (f a) w' := by
  unfold Handled
  rw [Prog.run_bind_ok h]

/-- After a part that raises, it is about what that raises. -/
theorem handled_bind_error {e : Exc} (h : p.run w = (.error e, w')) : Handled (p >>= f) w ↔ e.isHandled := by
  unfold Handled
  rw [Prog.run_bind_error h]
  exact ⟨fun h => h e rfl, fun h e' he => by rwa [← Except.error.inj he]⟩

/-- A computation without state. -/
theorem handled_done_bind {r : Except Exc α} : Handled (Prog.done r >>= f) w ↔
    (∀ e, r = .error e → e.isHandled) ∧ ∀ a, r = .ok a → Handled (f a) w := by
  rcases r with e | a
  · rw [handled_bind_error (Prog.run_done _ _)]
    exact ⟨fun h => ⟨fun e' he => by rwa [← Except.error.inj he], nofun⟩, fun h => h.1 e rfl⟩
  · rw [handled_bind_ok (Prog.run_done _ _)]
    exact ⟨fun h => ⟨nofun, fun a' ha => by rwa [← Except.ok.inj ha]⟩, fun h => h.2 a rfl⟩

/-- A test that raises what has a handler. -/
theorem handled_guard {c : Prop} [Decidable c] {e : Exc} (he : e.isHandled) :
    Handled (if c then throw e else p) w ↔ (¬ c → Handled p w) := by
  split_ifs with hc
  · exact ⟨fun _ hn => absurd hc hn, fun _ => handled_throw.mpr he⟩
  · exact ⟨fun h _ => h, fun h => h hc⟩

/-- The look at the key in memory raises what has a handler. -/
theorem handled_getDek_bind {f : Key → Act β} : Handled (getDek >>= f) w ↔ ∀ dek, w.dek = some dek → Handled (f dek) w := by
  have hget := run_getDek w
  rcases hdek : w.dek with - | dek
  · rw [hdek] at hget
    rw [handled_bind_error hget]
    exact ⟨fun _ => nofun, fun _ => rfl⟩
  · rw [hdek] at hget
    rw [handled_bind_ok hget]
    exact ⟨fun h dek' hdek' => by rwa [← Option.some.inj hdek'], fun h => h dek rfl⟩

/-- What is asked under every key in memory is asked where the vault is unlocked. -/
theorem forall_unlocked_iff {P : Prop} : (∀ dek, w.dek = some dek → P) ↔ (w.dek ≠ none → P) := by
  rw [Option.ne_none_iff_exists']
  exact ⟨fun h ⟨dek, hdek⟩ => h dek hdek, fun h dek hdek => h ⟨dek, hdek⟩⟩

/-- Where what is caught becomes an exception with a handler, it is about what follows a success. -/
theorem handled_mapExc_bind {caught : Exc → Bool} {e : Exc} (he : e.isHandled)
    (hp : ∀ e', (p.run w).1 = .error e' → caught e' ∨ e'.isHandled) :
    Handled (mapExc caught e p >>= f) w ↔ ∀ a w', p.run w = (.ok a, w') → Handled (f a) w' := by
  have hrun := run_mapExc caught e p w
  rcases h : p.run w with ⟨e' | a, w'⟩
  · rw [h] at hrun hp
    rw [handled_bind_error hrun]
    refine ⟨fun _ _ _ hok => (by cases (Prod.mk.inj hok).1), fun _ => ?_⟩
    split_ifs with hcaught
    · exact he
    · exact (hp e' rfl).resolve_left hcaught
  · rw [h] at hrun
    rw [handled_bind_ok hrun]
    constructor
    · intro hrest a' w'' hok
      obtain ⟨ha, rfl⟩ := Prod.mk.inj hok
      rwa [← Except.ok.inj ha]
    · exact fun hrest => hrest a w' rfl

/-- A query of what can be fetched asks that its parameters can be bound. -/
theorem handled_query_bind {γ : Type} {label : Label} {params : List Value} {cells : γ → List Value} {g : Database → γ}
    {f : γ → Act β} (hfetch : Fetchable (cells (g w.db))) :
    Handled (connection label (query params cells g) >>= f) w ↔
      (∀ v ∈ params, bindValue v = .ok ()) ∧ Handled (f (g w.db)) w := by
  have hrun : (connection label (query params cells g)).run w = ((bindAll params).map fun _ => g w.db, w) := by
    rw [run_connection, run_query hfetch]
    cases bindAll params <;> rfl
  rcases hbind : bindAll params with e | u
  · rw [hbind] at hrun
    rw [handled_bind_error hrun, Exc.isHandled_of_library (bindAll_isLibrary hbind)]
    refine ⟨nofun, fun h => ?_⟩
    cases hbind.symm.trans (bindAll_ok h.1)
  · rw [hbind] at hrun
    rw [handled_bind_ok hrun]
    exact ⟨fun h => ⟨bindAll_eq_ok hbind, h⟩, fun h => h.2⟩

end Steps

variable [Platform]

section Logging

variable {β : Type} {w : World} {owner path name : PyStr}

/-- What is asked of an operation on a path: `P` where the requester owns it, and else that the denial can be
logged. -/
def OnPath (w : World) (owner path : PyStr) (P : Prop) : Prop :=
  if extractOwnerEmailFromPath path = .ok owner then P else (⟨owner, py "kv_path", path⟩ : Denial).Loggable w

theorem onPath_congr {P Q : Prop} (h : extractOwnerEmailFromPath path = .ok owner → (P ↔ Q)) :
    OnPath w owner path P ↔ OnPath w owner path Q := by
  unfold OnPath
  split_ifs with hown
  · exact h hown
  · exact Iff.rfl

/-- What is asked of an operation on a named key: that the owner can be bound, `P` of the key where there is one, and
else that the denial can be logged. -/
def OnKey (w : World) (owner name : PyStr) (P : NamedKey → Prop) : Prop :=
  keyNamePattern name → Bindable owner ∧
    match w.db.keyAt owner name with
    | none => (⟨owner, py "named_key", name⟩ : Denial).Loggable w
    | some row => P row

omit [Platform] in
theorem onKey_congr {P Q : NamedKey → Prop} (h : ∀ row, keyNamePattern name → Bindable owner →
    w.db.keyAt owner name = some row → (P row ↔ Q row)) : OnKey w owner name P ↔ OnKey w owner name Q := by
  refine forall_congr' fun hname => and_congr_right fun howner => ?_
  rcases hrow : w.db.keyAt owner name with - | row
  · exact Iff.rfl
  · exact h row hname howner hrow

/-- **A denial is handled exactly where it can be logged.** -/
theorem handled_log_throw {d : Denial} {e : Exc} (he : e.isHandled) (hlog : LogKept w.db) :
    Handled (AuditRepository.log d.occurrence >>= fun _ => throw e : Act β) w ↔ d.Loggable w := by
  obtain ⟨q, hq⟩ := hlog
  rcases hrun : (AuditRepository.log d.occurrence).run w with ⟨e' | u, w'⟩
  · rw [handled_bind_error hrun, Exc.isHandled_of_library ((AuditRepository.log_fails d.occurrence).run hrun)]
    refine ⟨nofun, fun ⟨ho, hroom, hrow⟩ => ?_⟩
    obtain ⟨w'', hok⟩ := AuditRepository.run_log_ok hq ho hroom hrow
    cases hrun.symm.trans hok
  · rw [handled_bind_ok hrun]
    obtain ⟨ho, hroom, hrow, -⟩ := AuditRepository.run_log_eq_ok hq hrun
    exact ⟨fun _ => ⟨ho, hroom, hrow⟩, fun _ => handled_throw.mpr he⟩

/-- **Authorization**: of an owner it asks nothing, and of another requester that the denial can be logged. -/
theorem handled_authorize_bind {f : Unit → Act β} (hlog : LogKept w.db) :
    Handled (KvService.authorize owner path >>= f) w ↔ OnPath w owner path (Handled (f ()) w) := by
  unfold OnPath
  split_ifs with hown
  · exact handled_bind_ok (KvService.run_authorize_owner hown w)
  · have hnot : (extractOwnerEmailFromPath path).toOption ≠ some owner := by
      rcases hextract : extractOwnerEmailFromPath path with e | owner'
      · nofun
      · rw [hextract] at hown
        exact fun h => hown (congrArg _ (Option.some.inj h))
    have hauth : KvService.authorize owner path >>= f =
        (AuditRepository.log (Denial.occurrence ⟨owner, py "kv_path", path⟩) >>= fun _ => throw .permissionDeniedError) := by
      simp only [KvService.authorize, ne_eq, hnot, not_false_eq_true, ↓reduceIte]
      exact Prog.bind_assoc _ _ _
    rw [hauth, handled_log_throw rfl hlog]

/-- **The look for a key**: it asks that the owner can be bound, and where there is no key, that the denial can be
logged. -/
theorem handled_ownedKey_bind {f : NamedKey → Act β} (hkeys : w.db.KeySound) (hlog : LogKept w.db) :
    Handled (TransitService.ownedKey owner name >>= f) w ↔ OnKey w owner name fun row => Handled (f row) w := by
  unfold OnKey
  by_cases hname : keyNamePattern name
  · have hvalid : (TransitService.validateKeyName name).run w = (.ok (), w) :=
      TransitService.run_validateKeyName_eq_ok.mpr ⟨hname, rfl⟩
    unfold TransitService.ownedKey
    rw [Prog.bind_assoc, handled_bind_ok hvalid, Prog.bind_assoc]
    simp only [hname, forall_const]
    by_cases howner : Bindable owner
    · rw [handled_bind_ok (TransitService.run_getOwned howner (bindable_keyName hname) hkeys)]
      simp only [howner, true_and]
      rcases w.db.keyAt owner name with - | row
      · dsimp only
        have hdenied : (AuditRepository.logDeniedAccess owner (py "named_key") name >>= fun _ =>
            throw .keyUnavailableError) >>= f = (AuditRepository.log (Denial.occurrence ⟨owner, py "named_key", name⟩) >>=
              fun _ => throw .keyUnavailableError) := Prog.bind_assoc _ _ _
        rw [hdenied, handled_log_throw rfl hlog]
      · exact handled_bind_ok (Prog.run_pure row w)
    · obtain ⟨e, he⟩ := bindValue_str_error howner
      have hbind : bindAll [.str owner, .str name] = .error e := by rw [bindAll, he, error_bind]
      have hget : (NamedKeyRepository.getOwned owner name).run w = (.error e, w) := by
        unfold NamedKeyRepository.getOwned
        rw [run_connection, run_query_error hbind]
      rw [handled_bind_error hget, Exc.isHandled_of_library (bindAll_isLibrary hbind)]
      exact ⟨fun h => (by cases h), fun h => absurd h.1 howner⟩
  · have hinvalid : (TransitService.validateKeyName name).run w = (.error .invalidKeyNameError, w) := by
      simp [TransitService.validateKeyName, hname]
    unfold TransitService.ownedKey
    rw [Prog.bind_assoc, handled_bind_error hinvalid]
    exact ⟨fun _ h => absurd h hname, fun _ => rfl⟩

end Logging

/-! ### Decryption -/

/-- Where the cipher only refuses, every error of a decryption is taken for tampering. -/
theorem GcmRejects.isTampering (hrejects : GcmRejects) {key aad : Bytes} {blob : EncryptedBlob} {e : Exc}
    (h : decryptAesGcm key blob aad = .error e) : isTampering e := by
  unfold decryptAesGcm at h
  split_ifs at h with hk hn ht
  · rw [← Except.error.inj h]
    rfl
  · rw [← Except.error.inj h]
    rfl
  · rw [← Except.error.inj h]
    rfl
  · simp only [aes256KeyLength, gcmNonceLength, gcmTagLength, ne_eq, Decidable.not_not] at hk hn ht
    rw [hrejects ⟨key, hk⟩ _ _ _ e hn (by rw [List.length_append]; omega) h]
    rfl

omit [Platform] in
/-- Whatever `decode_b64` raises is a `ValueError`. -/
theorem decodeB64_isTampering {v : Value} {e : Exc} (h : decodeB64 v = .error e) : isTampering e := by
  unfold decodeB64 at h
  repeat' split at h
  all_goals cases h
  all_goals rfl

omit [Platform] in
/-- The first error of a sequence. -/
theorem bind_eq_error {α β : Type} {r : Except Exc α} {f : α → Except Exc β} {e : Exc} (h : r >>= f = .error e) :
    r = .error e ∨ ∃ a, r = .ok a ∧ f a = .error e := by
  rcases r with e' | a
  · exact .inl (congrArg _ (Except.error.inj h))
  · exact .inr ⟨a, rfl, h⟩

namespace KvService

variable {owner path : PyStr} {w : World}

omit [Platform] in
theorem blobOf_isTampering {row : KvVersion} {e : Exc} (h : blobOf row = .error e) : isTampering e := by
  unfold blobOf at h
  obtain h | ⟨nonce, -, h⟩ := bind_eq_error h
  · exact decodeB64_isTampering h
  obtain h | ⟨ciphertext, -, h⟩ := bind_eq_error h
  · exact decodeB64_isTampering h
  obtain h | ⟨tag, -, h⟩ := bind_eq_error h
  · exact decodeB64_isTampering h
  · cases h

/-- The bytes a row decrypts to. -/
def rowPlaintext (dek : Key) (owner path : PyStr) (row : KvVersion) : Except Exc Bytes := do
  let blob ← blobOf row
  let version ← pyInt row.version
  let associatedData ← aad owner path version
  decryptAesGcm dek blob associatedData

/-- A row decrypts to a text that is nested too deeply for `json.loads`. -/
def TooDeep (dek : Key) (owner path : PyStr) (row : KvVersion) : Prop :=
  ∃ plaintext text, rowPlaintext dek owner path row = .ok plaintext ∧ utf8Decode plaintext = some text ∧
    Platform.jsonLoads text = .error .tooDeep

theorem openRow_eq (dek : Key) (owner path : PyStr) (row : KvVersion) :
    openRow dek owner path row = rowPlaintext dek owner path row >>= decodeData := by
  simp only [openRow, rowPlaintext, bind_assoc]

theorem TooDeep.openRow {dek : Key} {row : KvVersion} (h : TooDeep dek owner path row) :
    openRow dek owner path row = .error .recursionError := by
  obtain ⟨plaintext, text, hplaintext, htext, hloads⟩ := h
  rw [openRow_eq, hplaintext, ok_bind, decodeData, htext]
  dsimp only
  rw [hloads]

/-- Of a row whose number is an integer, every error is taken for tampering, but for the one about nesting. -/
theorem openRow_isTampering (hrejects : GcmRejects) {dek : Key} {row : KvVersion} {n : ℤ} (hnumber : row.version = .int n)
    (hshallow : ¬ TooDeep dek owner path row) {e : Exc} (h : openRow dek owner path row = .error e) : isTampering e := by
  rw [openRow_eq] at h
  obtain h | ⟨plaintext, hplaintext, h⟩ := bind_eq_error h
  · unfold rowPlaintext at h
    obtain h | ⟨blob, -, h⟩ := bind_eq_error h
    · exact blobOf_isTampering h
    rw [hnumber, pyInt_int, ok_bind] at h
    obtain h | ⟨associatedData, -, h⟩ := bind_eq_error h
    · unfold aad at h
      split at h
      · cases h
      · rw [← Except.error.inj h]
        rfl
    · exact hrejects.isTampering h
  · unfold decodeData at h
    cases htext : utf8Decode plaintext with
    | none =>
      rw [htext] at h
      rw [← Except.error.inj h]
      rfl
    | some text =>
      rw [htext] at h
      dsimp only at h
      cases hloads : Platform.jsonLoads text with
      | ok v =>
        rw [hloads] at h
        cases h
      | error e' =>
        rw [hloads] at h
        cases e' with
        | notJson =>
          rw [← Except.error.inj h]
          rfl
        | longInteger =>
          rw [← Except.error.inj h]
          rfl
        | tooDeep => exact absurd ⟨plaintext, text, hplaintext, htext, hloads⟩ hshallow

omit [Platform] in
/-- What a query finds has integers for its numbers. -/
theorem selected_numbers {db : Database} (hs : db.KvSound) {requested : Option ℤ} {row : KvVersion} {record : KvRecord}
    (h : selected db owner path requested = some (row, record)) :
    (∃ n, row.version = .int n) ∧ ∃ m, record.latestVersion = .int m := by
  have hjoin : (row, record) ∈ db.joinRecord owner path := by
    cases requested <;> exact List.mem_of_find?_eq_some h
  rw [Database.joinRecord_eq hs] at hjoin
  rcases hrecord : db.recordAt owner path with - | r
  · rw [hrecord] at hjoin
    cases hjoin
  · rw [hrecord] at hjoin
    obtain ⟨v, hv, heq⟩ := List.mem_map.mp hjoin
    obtain ⟨rfl, rfl⟩ := Prod.mk.inj heq
    obtain ⟨i, hi⟩ := List.getElem?_of_mem hv
    exact ⟨⟨_, Database.versionsAt_number hs hi⟩, _, (Database.recordAt_latest hs hrecord).1⟩

omit [Platform] in
/-- Two texts can be bound. -/
theorem bindable_iff {a b : PyStr} : (∀ v ∈ [Value.str a, .str b], bindValue v = .ok ()) ↔ Bindable a ∧ Bindable b := by
  simp [bindValue_str_iff]

omit [Platform] in
/-- A version below one is refused, and every other is looked for. -/
theorem normalizeVersion_spec (version : Option ℤ) : (∀ e, normalizeVersion version = .error e → e.isHandled) ∧
    ∀ requested, normalizeVersion version = .ok requested ↔ (∀ v ∈ version, 1 ≤ v) ∧ requested = version := by
  unfold normalizeVersion
  rcases version with - | v
  · exact ⟨nofun, fun requested => by simp [eq_comm]⟩
  · dsimp only
    split_ifs with hv
    · refine ⟨fun e he => by rw [← Except.error.inj he]; rfl, fun requested => ⟨nofun, fun h => ?_⟩⟩
      have := h.1 v rfl
      omega
    · refine ⟨nofun, fun requested => ⟨fun h => ⟨?_, (Except.ok.inj h).symm⟩, fun h => by rw [h.2]⟩⟩
      rintro _ ⟨⟩
      omega

/-- What a read does with a row asks that it is not nested too deeply. -/
theorem handled_found (hrejects : GcmRejects) {row : KvVersion} {record : KvRecord} (hnumber : ∃ n, row.version = .int n)
    (hlatest : ∃ m, record.latestVersion = .int m) :
    Handled (do
      let decoded ← mapExc isTampering .recordTamperedError do
        let dek ← getDek
        Prog.done (openRow dek owner path row)
      match decoded with
      | .obj data =>
        let version ← Prog.done (pyInt row.version)
        let latestVersion ← Prog.done (pyInt record.latestVersion)
        return ⟨data, version, latestVersion, row.createdAt⟩
      | _ => throw .recordTamperedError : Act ReadResult) w ↔ ∀ dek, w.dek = some dek → ¬ TooDeep dek owner path row := by
  obtain ⟨n, hn⟩ := hnumber
  obtain ⟨m, hm⟩ := hlatest
  constructor
  · intro h dek hdek hdeep
    have hrun : (getDek >>= fun dek => Prog.done (openRow dek owner path row) : Act Json).run w =
        (.error .recursionError, w) := by
      rw [Prog.run_bind_ok ((run_getDek w).trans (by rw [hdek])), hdeep.openRow]
      rfl
    have hmapped := run_mapExc isTampering .recordTamperedError
      (getDek >>= fun dek => Prog.done (openRow dek owner path row) : Act Json) w
    rw [hrun] at hmapped
    exact absurd ((handled_bind_error hmapped).mp h) (by decide)
  · intro hshallow
    have hopen : ∀ e', ((getDek >>= fun dek => Prog.done (openRow dek owner path row) : Act Json).run w).1 = .error e' →
        isTampering e' ∨ e'.isHandled := by
      intro e' he
      rcases hdek : w.dek with - | dek
      · rw [Prog.run_bind_error ((run_getDek w).trans (by rw [hdek]))] at he
        rw [← Except.error.inj he]
        exact .inr rfl
      · rw [Prog.run_bind_ok ((run_getDek w).trans (by rw [hdek]))] at he
        exact .inl (openRow_isTampering hrejects hn (hshallow dek hdek) he)
    refine (handled_mapExc_bind rfl hopen).mpr fun decoded w' _ => ?_
    split
    · rw [hn, hm]
      exact handled_pure _
    · exact handled_throw.mpr rfl

/-- What a read finds is not nested too deeply. -/
def ReadsShallow (w : World) (owner path : PyStr) (version : Option ℤ) : Prop :=
  ∀ row record dek, selected w.db owner path version = some (row, record) → w.dek = some dek →
    ¬ TooDeep dek owner path row

/-- What a read does once it has looked for the row: a row that is missing asks nothing more. -/
theorem handled_selected (hrejects : GcmRejects) (hs : w.db.KvSound) {version : Option ℤ}
    {found : Option (KvVersion × KvRecord)} : selected w.db owner path version = found →
    (Handled (match found with
      | none => throw .recordNotFoundError
      | some (row, record) => do
        let decoded ← mapExc isTampering .recordTamperedError do
          let dek ← getDek
          Prog.done (openRow dek owner path row)
        match decoded with
        | .obj data =>
          let version ← Prog.done (pyInt row.version)
          let latestVersion ← Prog.done (pyInt record.latestVersion)
          return ⟨data, version, latestVersion, row.createdAt⟩
        | _ => throw .recordTamperedError : Act ReadResult) w ↔ ReadsShallow w owner path version) := by
  intro hfound
  unfold ReadsShallow
  rw [hfound]
  rcases found with - | ⟨row, record⟩
  · exact iff_of_true (handled_throw.mpr rfl) fun _ _ _ h => (Option.some_ne_none _ h.symm).elim
  · obtain ⟨hnumber, hlatest⟩ := selected_numbers hs hfound
    refine (handled_found hrejects hnumber hlatest).trans
      ⟨fun h row' record' dek heq => ?_, fun h dek => h row record dek rfl⟩
    obtain ⟨rfl, -⟩ := Prod.mk.inj (Option.some.inj heq)
    exact h dek

/-- **A read** asks of an owner, where the vault is unlocked, that owner and path can be bound, that the number has 64
bits, and that what it finds is not nested too deeply. -/
theorem handled_read_iff (hrejects : GcmRejects) (hs : w.db.KvSound) (hlog : LogKept w.db) {version : Option ℤ} :
    Handled (read owner path version) w ↔ OnPath w owner path ((∀ v ∈ version, 1 ≤ v) → w.dek ≠ none →
      Bindable owner ∧ Bindable path ∧ (∀ v ∈ version, Fits v) ∧ ReadsShallow w owner path version) := by
  obtain ⟨hrefused, hasked⟩ := normalizeVersion_spec version
  unfold read
  rw [handled_authorize_bind hlog]
  apply onPath_congr
  intro hown
  rw [handled_done_bind, and_iff_right hrefused]
  simp only [hasked, and_imp, forall_eq_apply_imp_iff, handled_getDek_bind]
  rw [← forall_unlocked_iff]
  refine forall_congr' fun _ => forall_congr' fun _ => forall_congr' fun _ => ?_
  unfold KvRepository.getVersion
  rcases version with - | v
  · rw [handled_query_bind hs.fetchable_selectLatest, bindable_iff]
    have hlatest : selected w.db owner path none = w.db.selectLatest owner path := rfl
    exact (and_congr_right fun _ => handled_selected hrejects hs hlatest).trans (by simp [and_assoc])
  · rw [handled_query_bind hs.fetchable_selectVersion]
    have hversion : selected w.db owner path (some v) = w.db.selectVersion owner path v := rfl
    exact (and_congr_right fun _ => handled_selected hrejects hs hversion).trans
      (by simp [bindValue_str_iff, bindValue_int_iff, and_assoc])

/-- What a listing does with the rows asks nothing more: they have integers for their numbers. -/
theorem handled_listed (hs : w.db.KvSound) :
    Handled (match (w.db.selectVersions owner path).getLast? with
      | none => throw .recordNotFoundError
      | some (_, record) => do
        let latestVersion ← Prog.done (pyInt record.latestVersion)
        let entries ← Prog.done (versionEntries (w.db.selectVersions owner path))
        return ⟨path, latestVersion, entries⟩ : Act VersionsResult) w := by
  rcases hlast : (w.db.selectVersions owner path).getLast? with - | ⟨row, record⟩
  · exact handled_throw.mpr rfl
  · rw [Database.selectVersions_eq hs] at hlast ⊢
    rcases hrecord : w.db.recordAt owner path with - | r
    · rw [hrecord] at hlast
      cases hlast
    · rw [hrecord] at hlast
      obtain ⟨v, hv, heq⟩ := List.mem_map.mp (List.mem_of_getLast? hlast)
      obtain rfl : r = record := (Prod.mk.inj heq).2
      obtain ⟨entries, hentries, -⟩ := versionEntries_ok ((w.db.versionsAt owner path).map fun v => (v, r))
        ((List.range (w.db.versionsAt owner path).length).map fun i : ℕ => (i : ℤ) + 1)
        (by rw [List.map_map]; exact Database.versionsAt_numbers hs)
      dsimp only
      rw [(Database.recordAt_latest hs hrecord).1, hentries]
      exact handled_pure _

/-- **A listing of versions** asks of an owner, where the vault is unlocked, that owner and path can be bound. -/
theorem handled_versions_iff (hs : w.db.KvSound) (hlog : LogKept w.db) :
    Handled (versions owner path) w ↔
      OnPath w owner path (w.dek ≠ none → Bindable owner ∧ Bindable path) := by
  unfold versions
  rw [handled_authorize_bind hlog]
  apply onPath_congr
  intro hown
  rw [handled_getDek_bind, ← forall_unlocked_iff]
  refine forall_congr' fun _ => forall_congr' fun _ => ?_
  unfold KvRepository.listVersions
  rw [handled_query_bind hs.fetchable_selectVersions, bindable_iff]
  exact and_iff_left (handled_listed hs)

omit [Platform] in
/-- A deletion that can bind its parameters runs its statement. -/
theorem run_delete_cases (owner path : PyStr) (w : World) :
    (∃ e, bindAll [.str owner, .str path] = .error e ∧ (KvRepository.delete owner path).run w = (.error e, w)) ∨
      (bindAll [.str owner, .str path] = .ok () ∧ (KvRepository.delete owner path).run w =
        (.ok (decide ((w.db.deleteRecord owner path).1 > 0)), { w with db := (w.db.deleteRecord owner path).2 })) := by
  unfold KvRepository.delete
  rw [run_connection, Prog.run_bind, run_execute]
  rcases bindAll [.str owner, .str path] with e | u
  · exact .inl ⟨e, rfl, rfl⟩
  · exact .inr ⟨rfl, rfl⟩

/-- **A deletion** asks the same. -/
theorem handled_delete_iff (hlog : LogKept w.db) :
    Handled (delete owner path) w ↔
      OnPath w owner path (w.dek ≠ none → Bindable owner ∧ Bindable path) := by
  unfold delete
  rw [handled_authorize_bind hlog]
  apply onPath_congr
  intro hown
  rw [handled_getDek_bind, ← forall_unlocked_iff]
  refine forall_congr' fun _ => forall_congr' fun _ => ?_
  rw [← bindable_iff]
  rcases run_delete_cases owner path w with ⟨e, hbind, hrun⟩ | ⟨hbind, hrun⟩
  · rw [handled_bind_error hrun, Exc.isHandled_of_library (bindAll_isLibrary hbind)]
    refine ⟨fun h => (by cases h), fun h => ?_⟩
    cases hbind.symm.trans (bindAll_ok h)
  · rw [handled_bind_ok hrun]
    refine iff_of_true ?_ (bindAll_eq_ok hbind)
    split_ifs
    · exact handled_throw.mpr rfl
    · exact handled_pure _

omit [Platform] in
/-- The associated data of owner and path that have bytes. -/
theorem exists_aad (howner : Encodable owner) (hpath : Encodable path) (version : ℤ) :
    ∃ associatedData, aad owner path version = .ok associatedData := by
  have hencodable : Encodable (aadText owner path version) := by
    unfold aadText
    simp [howner, hpath]
  obtain ⟨b, hb⟩ := Option.isSome_iff_exists.mp ((utf8Encode_isSome_iff _).mpr hencodable)
  exact ⟨b, by unfold aad; rw [hb]⟩

/-- The data can be written, and neither it nor the associated data of its version is too long: they can be encrypted,
and a blob of the length of the data can be stored. -/
structure FitsGcm (w : World) (owner path : PyStr) (data : List (PyStr × Json)) : Prop where
  /-- The data has a text with bytes. -/
  writable : (Json.obj data).writable Platform.dumpsDepth
  /-- Its text is not too long. -/
  plaintext : ∀ plaintext, encodeData data = .ok plaintext → plaintext.length < 2 ^ 31
  /-- Neither is the row of the version. -/
  row : ∀ plaintext id blob, encodeData data = .ok plaintext → w.db.recordId owner path = .ok id →
    blob.nonce.length = gcmNonceLength → blob.ciphertext.length = plaintext.length → blob.tag.length = gcmTagLength →
      recordLength (versionRow id ((w.db.versionsAt owner path).length + 1) blob (isoformat w.clock)) ≤ maxLength
  /-- Neither is the associated data. -/
  aad : ∀ associatedData, aad owner path ((w.db.versionsAt owner path).length + 1) = .ok associatedData →
    associatedData.length < 2 ^ 31

omit [Platform] in
/-- Rows of blobs of one size have one size. -/
theorem recordLength_versionRow {blob blob' : EncryptedBlob} (hnonce : blob.nonce.length = blob'.nonce.length)
    (hciphertext : blob.ciphertext.length = blob'.ciphertext.length) (htag : blob.tag.length = blob'.tag.length)
    (id version : ℤ) (now : PyStr) :
    recordLength (versionRow id version blob now) = recordLength (versionRow id version blob' now) := by
  simp [recordLength, versionRow, Value.recordLength, utf8Length_encodeB64, hnonce, hciphertext, htag]

omit [Platform] in
/-- The blob of an encryption has the size of the plaintext. -/
theorem length_split (nonce : Bytes) {encrypted plaintext : Bytes} (h : encrypted.length = plaintext.length + gcmTagLength) :
    (EncryptedBlob.split nonce encrypted).ciphertext.length = plaintext.length ∧
      (EncryptedBlob.split nonce encrypted).tag.length = gcmTagLength := by
  simp [EncryptedBlob.split, h]

/-- What the transaction of a write asks beside room. -/
theorem sealable_iff (hlimits : GcmLimits) {data : List (PyStr × Json)} (nonce : Nonce) (hdek : w.dek ≠ none)
    (howner : Encodable owner) (hpath : Encodable path) (hid : ∃ id, w.db.recordId owner path = .ok id) :
    Sealable w owner path data nonce ↔ FitsGcm w owner path data := by
  constructor
  · rintro ⟨dek, plaintext, associatedData, encrypted, -, hdata, haad, henc, id, hid, hlimit⟩
    obtain ⟨hplaintext, hassociated⟩ : plaintext.length < 2 ^ 31 ∧ associatedData.length < 2 ^ 31 := by
      by_contra hlong
      cases henc.symm.trans (hlimits.overflow dek nonce plaintext associatedData hlong)
    refine ⟨exists_encodeData.mp ⟨plaintext, hdata⟩, fun plaintext' hdata' => ?_,
      fun plaintext' id' blob hdata' hid' hnonce hciphertext htag => ?_, fun associatedData' haad' => ?_⟩
    · rwa [← Except.ok.inj (hdata.symm.trans hdata')]
    · obtain rfl : plaintext = plaintext' := Except.ok.inj (hdata.symm.trans hdata')
      obtain rfl : id = id' := Except.ok.inj (hid.symm.trans hid')
      obtain ⟨encrypted', henc', hlength⟩ := hlimits.ok dek nonce plaintext associatedData hplaintext hassociated
      obtain rfl : encrypted = encrypted' := Except.ok.inj (henc.symm.trans henc')
      obtain ⟨hciphertext', htag'⟩ := length_split nonce hlength
      have hnonce' : (EncryptedBlob.split nonce encrypted).nonce.length = gcmNonceLength := nonce.2
      rw [recordLength_versionRow (hnonce.trans hnonce'.symm) (hciphertext.trans hciphertext'.symm)
        (htag.trans htag'.symm)]
      exact hlimit
    · rwa [← Except.ok.inj (haad.symm.trans haad')]
  · rintro ⟨hwritable, hplaintext, hrow, hassociated⟩
    obtain ⟨id, hid⟩ := hid
    obtain ⟨dek, hdek⟩ := Option.ne_none_iff_exists'.mp hdek
    obtain ⟨plaintext, hdata⟩ := exists_encodeData.mpr hwritable
    obtain ⟨associatedData, haad⟩ := exists_aad howner hpath ((w.db.versionsAt owner path).length + 1)
    obtain ⟨encrypted, henc, hlength⟩ :=
      hlimits.ok dek nonce plaintext associatedData (hplaintext _ hdata) (hassociated _ haad)
    obtain ⟨hciphertext, htag⟩ := length_split nonce hlength
    exact ⟨dek, plaintext, associatedData, encrypted, hdek, hdata, haad, henc, id, hid,
      hrow plaintext id _ hdata hid nonce.2 hciphertext htag⟩

/-- After its authorization, in an unlocked vault, a write fails with errors of libraries. -/
theorem write_error_isLibrary (hlimits : GcmLimits) (hown : extractOwnerEmailFromPath path = .ok owner)
    {data : List (PyStr × Json)} {nonce : Nonce} {dek : Key} (hdek : w.dek = some dek) {e : Exc} {w' : World}
    (h : (write owner path data nonce).run w = (.error e, w')) : e.isLibrary := by
  have hget : (getDek.run w) = (.ok dek, w) := by rw [run_getDek, hdek]
  unfold write at h
  rw [Prog.run_bind_ok (run_authorize_owner hown w), Prog.run_bind_ok hget] at h
  rcases hdata : encodeData data with e' | plaintext
  · rw [hdata, Prog.run_bind_error (Prog.run_done _ _)] at h
    rw [← Except.error.inj (Prod.mk.inj h).1]
    exact encodeData_isLibrary hdata
  · rw [hdata, Prog.run_bind_ok (Prog.run_done _ _), Prog.run_bind_ok hget] at h
    exact (appendVersion_fails hlimits owner path dek plaintext nonce).run h

/-- **A write** asks of an owner, where the vault is unlocked, that owner and path have bytes, that there is room for
one more version, and that the data can be written, encrypted and stored. -/
theorem handled_write_iff (hlimits : GcmLimits) (hs : w.db.KvSound) (hlog : LogKept w.db) {data : List (PyStr × Json)}
    {nonce : Nonce} :
    Handled (write owner path data nonce) w ↔ OnPath w owner path (w.dek ≠ none → Encodable owner ∧ Encodable path ∧
      w.db.Room owner path (isoformat w.clock) ∧ FitsGcm w owner path data) := by
  by_cases hown : extractOwnerEmailFromPath path = .ok owner
  · rw [OnPath, if_pos hown]
    rcases hdek : w.dek with - | dek
    · refine iff_of_true ?_ (fun h => absurd rfl h)
      unfold write
      rw [handled_bind_ok (run_authorize_owner hown w), handled_getDek_bind, hdek]
      exact fun _ => nofun
    · simp only [ne_eq, reduceCtorEq, not_false_eq_true, forall_const]
      have hunlocked : w.dek ≠ none := by rw [hdek]; nofun
      rcases hrun : (write owner path data nonce).run w with ⟨e | a, w'⟩
      · have hlibrary := write_error_isLibrary hlimits hown hdek hrun
        constructor
        · intro h
          have hhandled := h e (by rw [hrun])
          rw [Exc.isHandled_of_library hlibrary] at hhandled
          cases hhandled
        · rintro ⟨howner, hpath, hroom, hfits⟩
          have hok := (run_write_isOk_iff hs hown howner hpath).mpr
            ⟨hroom, (sealable_iff hlimits nonce hunlocked howner hpath (hroom.record.imp fun _ h => h.1)).mpr hfits⟩
          rw [hrun] at hok
          cases hok
      · obtain ⟨-, howner, hpath, -⟩ := run_write_eq_ok hrun
        have hok : ((write owner path data nonce).run w).1.isOk := by rw [hrun]; rfl
        obtain ⟨hroom, hsealable⟩ := (run_write_isOk_iff hs hown howner.1 hpath.1).mp hok
        have hid := hroom.record.imp fun _ h => h.1
        exact iff_of_true (fun e he => by rw [hrun] at he; cases he)
          ⟨howner.1, hpath.1, hroom, (sealable_iff hlimits nonce hunlocked howner.1 hpath.1 hid).mp hsealable⟩
  · unfold write
    rw [handled_authorize_bind hlog, OnPath, if_neg hown, OnPath, if_neg hown]

end KvService

end MiniVault
