import MiniVault.Core.Sample

/-!
# The vault

`core/settings.py`, `core/kdf.py`, `core/passphrase.py`, `storage/config_store.py`
and `core/vault.py`: the data encryption key is made once, wrapped under a key
derived from the master passphrase, and kept in the configuration file; `unlock`
takes it from there into memory, `lock` and a restart drop it.

## The model

The steps of `initialize` that another request can come between are the look
whether the file exists, the write of the temporary file and its move over the
configuration (`os.replace`), and the looks and changes of the key in memory. The
configuration file is what a reader finds in it, `ConfigFile`; its serialisation
is not modelled.

## What is proved

* `run_unlock_configOf` — unlocking with the passphrase the configuration was made
  with brings back the key that was wrapped.
* `run_initializeVault_eq_ok` — what a successful `initialize` leaves.
-/

namespace MiniVault

open Foundations

section Vault

variable [Platform]

/-! ### Settings -/

/-- `_int`: an environment variable as an integer of at least `minimum`, or the default. -/
def intSetting (environ : PyStr → Option PyStr) (name : String) (default minimum : ℤ) : ℤ :=
  match environ (py "MINIVAULT_" ++ py name) with
  | none => default
  | some raw =>
    match Platform.intOfText raw with
    | none => default
    | some value => if minimum ≤ value then value else default

/-- A setting is at least its minimum, where the default is. -/
theorem le_intSetting (environ : PyStr → Option PyStr) (name : String) {default minimum : ℤ} (h : minimum ≤ default) :
    minimum ≤ intSetting environ name default minimum := by
  unfold intSetting
  split
  · exact h
  · split
    · exact h
    · split_ifs with hle
      · exact hle
      · exact h

/-- `DEFAULT_KDF_TIME_COST`. -/
def defaultKdfTimeCost : ℤ := 3

/-- `DEFAULT_KDF_MEMORY_COST`, in KiB. -/
def defaultKdfMemoryCost : ℤ := 65536

/-- `DEFAULT_KDF_PARALLELISM`. -/
def defaultKdfParallelism : ℤ := 4

/-- `DEFAULT_KDF_HASH_LENGTH`. -/
def defaultKdfHashLength : ℤ := 32

/-- `KDFParameters`. -/
structure KdfParameters where
  /-- `time_cost`. -/
  timeCost : ℤ
  /-- `memory_cost`. -/
  memoryCost : ℤ
  /-- `parallelism`. -/
  parallelism : ℤ
  /-- `hash_len`. -/
  hashLen : ℤ
  deriving DecidableEq

/-- `current_parameters`: the part of `settings.load` that a new initialization reads. -/
def currentParameters (environ : PyStr → Option PyStr) : KdfParameters where
  timeCost := intSetting environ "KDF_TIME_COST" defaultKdfTimeCost 1
  memoryCost := intSetting environ "KDF_MEMORY_COST" defaultKdfMemoryCost 8
  parallelism := intSetting environ "KDF_PARALLELISM" defaultKdfParallelism 1
  hashLen := intSetting environ "KDF_HASH_LENGTH" defaultKdfHashLength 32

/-- `derive_wrapping_key`. -/
def deriveWrappingKey (masterPassphrase : PyStr) (salt : Bytes) (parameters : KdfParameters) :
    Except Exc Bytes := do
  if masterPassphrase = [] then throw (.valueError "Master Passphrase cannot be empty")
  if salt.length < 16 then throw (.valueError "KDF salt must contain at least 16 bytes")
  match utf8Encode masterPassphrase with
  | none => throw .unicodeEncodeError
  | some secret =>
    Platform.hashSecretRaw secret salt parameters.timeCost parameters.memoryCost parameters.parallelism
      parameters.hashLen

/-! ### The passphrase policy -/

/-- `MIN_LENGTH`. -/
def minLength : ℕ := 12

/-- `MIN_CHARACTER_CLASSES`. -/
def minCharacterClasses : ℕ := 3

/-- `MAX_REPEATED_RUN`. -/
def maxRepeatedRun : ℕ := 4

/-- `[a-z]`. -/
def isLowercase (c : PyChar) : Bool := 97 ≤ c.code && c.code ≤ 122

/-- `[A-Z]`. -/
def isUppercase (c : PyChar) : Bool := 65 ≤ c.code && c.code ≤ 90

/-- `[0-9]`. -/
def isDecimalDigit (c : PyChar) : Bool := 48 ≤ c.code && c.code ≤ 57

/-- `_CLASS_PATTERNS`; the last is `[^A-Za-z0-9]`. -/
def classPatterns : List (PyChar → Bool) :=
  [isLowercase, isUppercase, isDecimalDigit, fun c => !isLowercase c && !isUppercase c && !isDecimalDigit c]

/-- `_FORBIDDEN_SUBSTRINGS`. -/
def forbiddenSubstrings : List PyStr :=
  [py "password", py "passphrase", py "minivault", py "qwerty", py "123456", py "abcdef", py "letmein",
    py "admin"]

/-- The loop of `_has_long_run`, from a character that ends a run of length `run`. -/
def longRunFrom (previous : PyChar) (run : ℕ) : PyStr → Bool
  | [] => false
  | current :: rest =>
    let run := if current = previous then run + 1 else 1
    run ≥ maxRepeatedRun || longRunFrom current run rest

/-- `_has_long_run`. -/
def hasLongRun : PyStr → Bool
  | [] => false
  | c :: rest => longRunFrom c 1 rest

/-- `PassphraseIssue`. -/
structure PassphraseIssue where
  /-- `code`. -/
  code : String
  /-- `message`. -/
  message : String

/-- `evaluate`: the first violation of the policy. -/
def evaluate (passphrase : PyStr) : Option PassphraseIssue :=
  if passphrase.length < minLength then
    some ⟨"TOO_SHORT", "Passphrase must contain at least 12 characters"⟩
  else if strip passphrase ≠ passphrase ∨ strip passphrase = [] then
    some ⟨"SURROUNDING_WHITESPACE", "Passphrase must not be blank or padded with whitespace"⟩
  else if classPatterns.countP (fun pattern => passphrase.any pattern) < minCharacterClasses then
    some ⟨"TOO_FEW_CHARACTER_CLASSES",
      "Passphrase must mix at least three of: lowercase, uppercase, digits, symbols"⟩
  else if hasLongRun passphrase then
    some ⟨"REPEATED_CHARACTERS", "Passphrase must not repeat the same character 4 times in a row"⟩
  else if forbiddenSubstrings.any fun bad => contains (Platform.lower passphrase) bad then
    some ⟨"COMMON_PATTERN", "Passphrase must not contain a common guessable word"⟩
  else none

/-! ### The configuration file -/

/-- `JsonConfigStore.exists`. -/
def configExists : Act Bool := Prog.look .file fun w => .ok w.config.isSome

/-- `JsonConfigStore.load`. -/
def configLoad : Act (List (PyStr × Json)) := do
  if !(← configExists) then throw .fileNotFoundError
  Prog.look .file fun w =>
    match w.config with
    | none => .error (.storageError "Cannot read Vault config")
    | some .undecodable => .error .unicodeDecodeError
    | some .notJson => .error .vaultConfigCorruptedError
    | some .longInteger => .error (.valueError "Exceeds the limit (4300 digits) for integer string conversion")
    | some .tooDeep => .error .recursionError
    | some (.json (.obj data)) => .ok data
    | some (.json _) => .error .vaultConfigCorruptedError

/-- `PurePath.name`: the last part between slashes that is neither empty nor `.`. -/
def pathName (path : PyStr) : PyStr :=
  let parts := (splitMax (.scalar '/') path.length path).filter fun part => part ≠ [] ∧ part ≠ py "."
  parts.getLast?.getD []

example : pathName (py "data/vault_config.json") = py "vault_config.json" := by decide

/-- The name of `path.with_suffix(path.suffix + ".tmp")`, which there is where the path has a name. -/
def temporaryName (path : PyStr) : Except Exc PyStr :=
  if pathName path = [] then .error (.valueError "the path has an empty name") else .ok (pathName path ++ py ".tmp")

/-- `save_atomic` up to the write of the temporary file: `false` where the write raises `OSError`. -/
def writeTemporary (data : List (PyStr × Json)) : Act Bool :=
  Prog.attempt .file fun w => do
    Platform.makeParent w.configPath
    let name ← temporaryName w.configPath
    if Platform.writesBeside w.configPath name then
      return (true, { w with temporary := some (.json (.obj data)) })
    return (false, w)

/-- `os.replace(temporary_path, self.path)`, which fails where another request has
moved the temporary file away. -/
def replaceConfig : Act Unit :=
  Prog.attempt .replace fun w =>
    match w.temporary with
    | some file =>
      if Platform.replaces w.configPath then .ok ((), { w with config := some file, temporary := none })
      else .error .osError
    | none => .error .fileNotFoundError

/-- `JsonConfigStore.save_atomic`. -/
def saveAtomic (data : List (PyStr × Json)) : Act Unit := do
  let written ← writeTemporary data
  tryCatch (if written then replaceConfig else throw .osError) fun _ => do
    Prog.change .file fun w => { w with temporary := none }
    throw (.storageError "Cannot write Vault config")

/-- A configuration can be saved under the path. -/
structure CanSave (path : PyStr) : Prop where
  /-- There is a directory for it, or one can be made. -/
  parent : Platform.makeParent path = .ok ()
  /-- It has a name. -/
  name : pathName path ≠ []
  /-- The temporary file can be written. -/
  writes : Platform.writesBeside path (pathName path ++ py ".tmp") = true
  /-- It can be moved to the path. -/
  replaces : Platform.replaces path = true

/-- **What `save_atomic` leaves**, where it succeeds. -/
theorem run_saveAtomic_eq_ok {data : List (PyStr × Json)} {w w' : World} {u : Unit} :
    (saveAtomic data).run w = (.ok u, w') ↔
      CanSave w.configPath ∧ w' = { w with config := some (.json (.obj data)), temporary := none } := by
  have hwrite : (writeTemporary data).run w = _ := Prog.run_attempt _ _ w
  unfold saveAtomic
  rcases hparent : Platform.makeParent w.configPath with e | v
  · rw [hparent, error_bind] at hwrite
    rw [Prog.run_bind_error hwrite]
    exact ⟨fun h => (nomatch h), fun h => by cases hparent.symm.trans h.1.parent⟩
  by_cases hname : pathName w.configPath = []
  · simp only [hparent, ok_bind, temporaryName, hname, ↓reduceIte, error_bind] at hwrite
    rw [Prog.run_bind_error hwrite]
    exact ⟨fun h => (nomatch h), fun h => absurd hname h.1.name⟩
  simp only [hparent, ok_bind, temporaryName, hname, ↓reduceIte] at hwrite
  by_cases hwrites : Platform.writesBeside w.configPath (pathName w.configPath ++ py ".tmp") = true
  · rw [if_pos hwrites] at hwrite
    rw [Prog.run_bind_ok hwrite]
    by_cases hreplaces : Platform.replaces w.configPath = true
    · simp only [replaceConfig, Prog.run_handle, Prog.run_attempt, hreplaces, ↓reduceIte, Prod.mk.injEq, true_and]
      exact ⟨fun h => ⟨⟨hparent, hname, hwrites, hreplaces⟩, h.symm⟩, fun h => h.2.symm⟩
    · simp only [replaceConfig, Prog.run_handle, Prog.run_attempt, hreplaces, ↓reduceIte, Bool.false_eq_true,
        Prog.run_bind, Prog.run_change, Prog.run_throw]
      exact ⟨fun h => (nomatch h), fun h => absurd h.1.replaces hreplaces⟩
  · rw [if_neg hwrites] at hwrite
    rw [Prog.run_bind_ok hwrite]
    exact ⟨fun h => (nomatch h), fun h => absurd h.1.writes hwrites⟩

theorem run_saveAtomic {data : List (PyStr × Json)} {w : World} (h : CanSave w.configPath) :
    (saveAtomic data).run w = (.ok (), { w with config := some (.json (.obj data)), temporary := none }) :=
  run_saveAtomic_eq_ok.mpr ⟨h, rfl⟩

/-- **The steps of `save_atomic`**: the temporary file is written or removed, or it is moved to the path. -/
theorem saveAtomic_sat {I : World → Prop} {G : Label → World → World → Prop} (data : List (PyStr × Json))
    (hwrite : ∀ (w : World) temporary, I w → G .file w { w with temporary := temporary })
    (hmove : ∀ (w : World) file, I w → w.temporary = some file → Platform.replaces w.configPath = true →
      G .replace w { w with config := some file, temporary := none })
    (hstay : ∀ w, I w → (w.temporary ≠ none → Platform.replaces w.configPath = false) → G .replace w w) :
    (saveAtomic data).Sat I G := by
  refine .bind (.attempt (fun w written w' hI h => ?_) fun w hI => hwrite w w.temporary hI) fun written =>
    .handle (.ite (fun _ => .atom (fun w hI => ?_) fun _ _ => .done _) fun _ => .done _) fun _ =>
      .bind (.change fun w hI => hwrite w none hI) fun _ => .done _
  · obtain ⟨-, -, h⟩ := bind_eq_ok.mp h
    obtain ⟨name, -, h⟩ := bind_eq_ok.mp h
    split at h
    · obtain ⟨-, rfl⟩ := Prod.mk.inj (Except.ok.inj h)
      exact hwrite w _ hI
    · obtain ⟨-, rfl⟩ := Prod.mk.inj (Except.ok.inj h)
      exact hwrite w w.temporary hI
  · rcases htemporary : w.temporary with - | file
    · simp only [htemporary]
      exact hstay w hI (by simp [htemporary])
    · rcases hreplaces : Platform.replaces w.configPath
      · simp only [htemporary, hreplaces]
        exact hstay w hI fun _ => hreplaces
      · simp only [htemporary, hreplaces]
        exact hmove w file hI htemporary hreplaces

/-- Saving a configuration changes nothing but the two files. -/
theorem saveAtomic_keeps {γ : Type} {f : World → γ} (data : List (PyStr × Json))
    (hf : ∀ (w : World) config temporary, f { w with config := config, temporary := temporary } = f w) :
    Keeps f (saveAtomic data) :=
  saveAtomic_sat data (fun w temporary _ => hf w w.config temporary) (fun w file _ _ _ => hf w (some file) none)
    fun _ _ _ => rfl

/-! ### The service -/

namespace VaultService

/-- `CONFIG_VERSION`. -/
def configVersion : ℤ := 1

/-- `DEK_WRAP_AAD`. -/
def dekWrapAad : Bytes := "mini-vault:dek-wrap:v1".toList.map fun c => .ofNat c.toNat

omit [Platform] in
/-- Its text. -/
theorem utf8Encode_dekWrapAad : utf8Encode (py "mini-vault:dek-wrap:v1") = some dekWrapAad := by decide

/-- What `initialize` and `unlock` answer. -/
structure Status where
  /-- `initialized`. -/
  initialized : Bool
  /-- `status`. -/
  status : PyStr
  deriving DecidableEq

/-- `VaultService.status`. -/
def status : Act Status := do
  if !(← configExists) then return ⟨false, py "not_initialized"⟩
  let unlocked ← Prog.look .state fun w => .ok w.dek.isSome
  return ⟨true, if unlocked then py "unlocked" else py "locked"⟩

/-- The cost parameters in the configuration. -/
def kdfParametersJson (parameters : KdfParameters) : Json :=
  .obj
    [(py "time_cost", .int parameters.timeCost),
      (py "memory_cost", .int parameters.memoryCost),
      (py "parallelism", .int parameters.parallelism),
      (py "hash_len", .int parameters.hashLen)]

/-- The configuration `initialize` writes. -/
def configOf (salt : Bytes) (parameters : KdfParameters) (wrapped : EncryptedBlob) : List (PyStr × Json) :=
  [(py "version", .int configVersion),
    (py "status", .str (py "locked")),
    (py "kdf", .str (py "argon2id")),
    (py "kdf_salt_b64", .str (encodeB64 salt)),
    (py "kdf_parameters", kdfParametersJson parameters),
    (py "dek_nonce_b64", .str (encodeB64 wrapped.nonce)),
    (py "encrypted_dek_b64", .str (encodeB64 wrapped.ciphertext)),
    (py "dek_tag_b64", .str (encodeB64 wrapped.tag))]

omit [Platform] in
/-- The configuration says which key is wrapped in it, and how. -/
theorem configOf_inj {salt salt' : Bytes} {parameters parameters' : KdfParameters} {wrapped wrapped' : EncryptedBlob}
    (h : configOf salt parameters wrapped = configOf salt' parameters' wrapped') :
    salt = salt' ∧ parameters = parameters' ∧ wrapped = wrapped' := by
  simp only [configOf, kdfParametersJson, List.cons.injEq, Prod.mk.injEq, true_and, and_true, Json.str.injEq, Json.obj.injEq,
    Json.int.injEq] at h
  obtain ⟨hsalt, ⟨htime, hmemory, hparallelism, hlength⟩, hnonce, hciphertext, htag⟩ := h
  refine ⟨encodeB64_inj hsalt, ?_, ?_⟩
  · cases parameters
    cases parameters'
    rw [KdfParameters.mk.injEq]
    exact ⟨htime, hmemory, hparallelism, hlength⟩
  · cases wrapped
    cases wrapped'
    rw [EncryptedBlob.mk.injEq]
    exact ⟨encodeB64_inj hnonce, encodeB64_inj hciphertext, encodeB64_inj htag⟩

/-- What `initialize` draws at random. -/
structure InitCoins where
  /-- The salt. -/
  salt : Salt
  /-- `generate_dek`. -/
  dek : Key
  /-- The nonce of the wrapping. -/
  nonce : Nonce

/-- `VaultService.initialize`. -/
def initializeVault (masterPassphrase : PyStr) (coins : InitCoins) : Act Status := do
  if ← configExists then throw .vaultAlreadyInitializedError
  match evaluate masterPassphrase with
  | some issue => throw (.invalidMasterPassphrasePolicyError issue.code)
  | none =>
    let parameters ← Prog.look .state fun w => .ok (currentParameters w.environ)
    let wrappingKey ← Prog.done (deriveWrappingKey masterPassphrase coins.salt parameters)
    let wrapped ← encryptAesGcm wrappingKey coins.dek dekWrapAad coins.nonce
    saveAtomic (configOf coins.salt parameters wrapped)
    lockState
    status

/-- `config[key]`, `KeyError` where there is no such member. -/
def subscript (data : List (PyStr × Json)) (key : String) : Except Exc Json :=
  match member (py key) data with
  | some v => .ok v
  | none => .error .keyError

/-- `value[key]` for a value that need not be a `dict`. -/
def subscriptJson (value : Json) (key : String) : Except Exc Json :=
  match value with
  | .obj data => subscript data key
  | _ => .error (.typeError "not subscriptable by a string")

/-- `int(value)` for a JSON value. -/
def intOfJson : Json → Except Exc ℤ
  | .int i => .ok i
  | .bool b => .ok (if b then 1 else 0)
  | .float x => if x.isNan then .error (.valueError "cannot convert float NaN to integer") else pyInt (.real x)
  | .str s => pyInt (.str s)
  | _ => .error (.typeError "int() argument must be a string, a bytes-like object or a real number")

/-- `value == i` for a JSON value. -/
def jsonEqInt (value : Json) (i : ℤ) : Bool :=
  match value with
  | .int j => j = i
  | .bool b => (if b then 1 else 0) = i
  | .float x => x.exponent ≠ 2047 && x.dyadic.1 = i * 2 ^ x.dyadic.2
  | _ => false

/-- `decode_b64` of a JSON value. -/
def decodeB64Json : Json → Except Exc Bytes
  | .str s => decodeB64 (.str s)
  | _ => .error (.valueError "Base64 value must be a string")

/-- `_load_and_validate_config`. -/
def loadAndValidateConfig : Act (List (PyStr × Json)) := do
  let config ← configLoad
  let required := ["version", "status", "kdf", "kdf_salt_b64", "kdf_parameters", "dek_nonce_b64",
    "encrypted_dek_b64", "dek_tag_b64"]
  if !required.all fun key => (member (py key) config).isSome then throw .vaultConfigCorruptedError
  let version ← Prog.done (subscript config "version")
  let kdf ← Prog.done (subscript config "kdf")
  let isArgon2id := match kdf with | .str s => s = py "argon2id" | _ => false
  if !jsonEqInt version configVersion || !isArgon2id then throw .vaultConfigCorruptedError
  return config

/-- The cost parameters `unlock` takes from the configuration. -/
def readKdfParameters (parameterData : Json) : Except Exc KdfParameters := do
  let timeCost ← intOfJson (← subscriptJson parameterData "time_cost")
  let memoryCost ← intOfJson (← subscriptJson parameterData "memory_cost")
  let parallelism ← intOfJson (← subscriptJson parameterData "parallelism")
  let hashLen ← intOfJson (← subscriptJson parameterData "hash_len")
  return ⟨timeCost, memoryCost, parallelism, hashLen⟩

/-- The body of the `try` of `unlock`: the key the configuration wraps. -/
def unwrapDek (masterPassphrase : PyStr) (config : List (PyStr × Json)) : Except Exc Bytes := do
  let parameters ← readKdfParameters (← subscript config "kdf_parameters")
  let salt ← decodeB64Json (← subscript config "kdf_salt_b64")
  let wrappingKey ← deriveWrappingKey masterPassphrase salt parameters
  let nonce ← decodeB64Json (← subscript config "dek_nonce_b64")
  let ciphertext ← decodeB64Json (← subscript config "encrypted_dek_b64")
  let tag ← decodeB64Json (← subscript config "dek_tag_b64")
  decryptAesGcm wrappingKey ⟨nonce, ciphertext, tag⟩ dekWrapAad

/-- The `except` clauses of `unlock`. -/
def unlockExc : Exc → Exc
  | .invalidTag => .invalidMasterPassphraseError
  | .keyError => .vaultConfigCorruptedError
  | .typeError _ => .vaultConfigCorruptedError
  | e => if e.isValueError then .vaultConfigCorruptedError else e

/-- `VaultService.unlock`. -/
def unlock (masterPassphrase : PyStr) : Act Status := do
  if !(← configExists) then throw .vaultNotInitializedError
  lockState
  let config ← loadAndValidateConfig
  let dek ← Prog.done ((unwrapDek masterPassphrase config).mapError unlockExc)
  if h : dek.length = 32 then
    Prog.change .state fun w => { w with dek := some ⟨dek, h⟩ }
    status
  else throw .vaultConfigCorruptedError

/-- `VaultService.lock`. -/
def lock : Act Status := do
  lockState
  status

/-- A restart of the process, with the paths it had: what was in memory is gone. -/
def restart : Act Unit := Prog.change .state fun w => { w with dek := none, dummyHash := none }

/-! ### What the operations do -/

omit [Platform] in
@[simp] theorem run_restart (w : World) : restart.run w = (.ok (), { w with dek := none, dummyHash := none }) := rfl

omit [Platform] in
theorem run_configExists (w : World) : configExists.run w = (.ok w.config.isSome, w) := rfl

omit [Platform] in
/-- `status` only looks. -/
theorem run_status (w : World) :
    status.run w = (.ok (if w.config.isSome then
      ⟨true, if w.dek.isSome then py "unlocked" else py "locked"⟩ else ⟨false, py "not_initialized"⟩), w) := by
  unfold status
  rw [Prog.run_bind, run_configExists]
  cases hc : w.config.isSome <;> simp [Prog.run_bind]

omit [Platform] in
/-- `lock` drops the key and changes nothing else. -/
theorem run_lock (w : World) :
    lock.run w = (.ok (if w.config.isSome then ⟨true, py "locked"⟩ else ⟨false, py "not_initialized"⟩),
      { w with dek := none }) := by
  simp only [lock, Prog.run_bind, run_lockState, run_status]
  rfl

omit [Platform] in
/-- The configuration `initialize` writes is accepted. -/
theorem run_loadAndValidateConfig {w : World} {salt : Bytes} {parameters : KdfParameters}
    {wrapped : EncryptedBlob} (hw : w.config = some (.json (.obj (configOf salt parameters wrapped)))) :
    loadAndValidateConfig.run w = (.ok (configOf salt parameters wrapped), w) := by
  have hload : configLoad.run w = (.ok (configOf salt parameters wrapped), w) := by
    simp [configLoad, Prog.run_bind, run_configExists, hw]
  unfold loadAndValidateConfig
  rw [Prog.run_bind, hload]
  rfl

omit [Platform] in
theorem status_keeps {γ : Type} {f : World → γ} : Keeps f status := by
  refine .bind (.look _ _) fun found => ?_
  cases found
  · exact .pure _
  · exact .bind (.look _ _) fun _ => .pure _

omit [Platform] in
theorem loadAndValidateConfig_keeps {γ : Type} {f : World → γ} : Keeps f loadAndValidateConfig := by
  refine .bind ?_ fun config => Prog.Sat.ite (fun _ => .throw _) fun _ => Keeps.bind (.done _) fun version =>
    Keeps.bind (.done _) fun kdf => Prog.Sat.ite (fun _ => .throw _) fun _ => .pure _
  refine .bind (.look _ _) fun found => Prog.Sat.ite (fun _ => .throw _) fun _ => ?_
  exact Keeps.look _ _

omit [Platform] in
/-- The configuration that is loaded is one the file held at a step. -/
theorem loadAndValidateConfig_yields {I : World → Prop} {P : List (PyStr × Json) → Prop}
    (hP : ∀ w, I w → ∀ data, w.config = some (.json (.obj data)) → P data) : loadAndValidateConfig.Yields I P := by
  refine Prog.Yields.bind (P := P) ?_ fun config hconfig => .ite (fun _ => .throw _) fun _ => .bind (.any _) fun version _ =>
    .bind (.any _) fun kdf _ => .ite (fun _ => .throw _) fun _ => .pure hconfig
  refine .bind (.any _) fun found _ => .ite (fun _ => .throw _) fun _ => .look fun w hw data hdata => ?_
  split at hdata
  · cases hdata
  · cases hdata
  · cases hdata
  · cases hdata
  · cases hdata
  · next hfile =>
    rw [← Except.ok.inj hdata]
    exact hP w hw _ hfile
  · cases hdata

/-- Unlocking changes nothing but the key in memory. -/
theorem unlock_keeps {γ : Type} {f : World → γ} {passphrase : PyStr}
    (hf : ∀ (w : World) (dek : Option Key), f { w with dek := dek } = f w) : Keeps f (unlock passphrase) := by
  refine .bind (.look _ _) fun found => Prog.Sat.ite (fun _ => .throw _) fun _ => ?_
  refine Keeps.bind (.change fun w => hf w _) fun _ => .bind loadAndValidateConfig_keeps fun config =>
    .bind (.done _) fun dek => ?_
  split
  · exact Keeps.bind (.change fun w => hf w _) fun _ => status_keeps
  · exact .throw _

/-- The cost parameters are read back as they were written. -/
theorem readKdfParameters_json (parameters : KdfParameters) :
    readKdfParameters (kdfParametersJson parameters) = .ok parameters := rfl

/-- What `unlock` makes of a configuration: the key derived from the passphrase opens what is
wrapped in it, or does not. -/
theorem unwrapDek_configOf_eq (passphrase : PyStr) (salt : Salt) (parameters : KdfParameters) (wrapped : EncryptedBlob) :
    unwrapDek passphrase (configOf salt parameters wrapped) =
      (do decryptAesGcm (← deriveWrappingKey passphrase salt parameters) wrapped dekWrapAad) := by
  have hsub : ∀ key v, member (py key) (configOf salt parameters wrapped) = some v →
      subscript (configOf salt parameters wrapped) key = .ok v := by
    intro key v h
    simp [subscript, h]
  unfold unwrapDek
  rw [hsub "kdf_parameters" _ rfl, hsub "kdf_salt_b64" _ rfl, hsub "dek_nonce_b64" _ rfl,
    hsub "encrypted_dek_b64" _ rfl, hsub "dek_tag_b64" _ rfl]
  have hdec : ∀ b, decodeB64Json (.str (encodeB64 b)) = .ok b := decodeB64_encodeB64
  simp only [ok_bind, readKdfParameters_json, hdec]

/-- The key that was wrapped is unwrapped again. -/
theorem unwrapDek_configOf {passphrase : PyStr} {salt : Salt} {parameters : KdfParameters} {wrappingKey dek : Bytes}
    {wrapped : EncryptedBlob} (hderive : deriveWrappingKey passphrase salt parameters = .ok wrappingKey)
    (hopens : Opens wrappingKey dekWrapAad wrapped dek) :
    unwrapDek passphrase (configOf salt parameters wrapped) = .ok dek := by
  rw [unwrapDek_configOf_eq, hderive]
  exact hopens

/-- What `unlock` does with a configuration that `initialize` wrote. -/
theorem run_unlock_config {w : World} (passphrase : PyStr) {salt : Salt} {parameters : KdfParameters}
    {wrapped : EncryptedBlob} (hw : w.config = some (.json (.obj (configOf salt parameters wrapped)))) :
    (unlock passphrase).run w =
      match (do decryptAesGcm (← deriveWrappingKey passphrase salt parameters) wrapped dekWrapAad : Except Exc Bytes) with
      | .ok dek => if h : dek.length = 32 then (.ok ⟨true, py "unlocked"⟩, { w with dek := some ⟨dek, h⟩ })
        else (.error .vaultConfigCorruptedError, { w with dek := none })
      | .error e => (.error (unlockExc e), { w with dek := none }) := by
  have hload := run_loadAndValidateConfig (w := { w with dek := none }) hw
  have hsome : w.config.isSome := by rw [hw]; rfl
  unfold unlock
  rw [Prog.run_bind, run_configExists]
  simp only [hsome, Bool.not_true, Bool.false_eq_true, ↓reduceIte, Prog.run_bind, run_lockState, hload,
    Prog.run_done, unwrapDek_configOf_eq]
  rcases (do decryptAesGcm (← deriveWrappingKey passphrase salt parameters) wrapped dekWrapAad : Except Exc Bytes) with
    e | dek
  · rfl
  · by_cases h : dek.length = 32
    · simp only [Except.mapError, h, ↓reduceDIte, Prog.run_bind, Prog.run_change, run_status, hsome, Option.isSome_some,
        ↓reduceIte]
    · simp only [Except.mapError, h, ↓reduceDIte, Prog.run_throw]

/-- **Unlocking restores the key**: with the passphrase a configuration was made
with, `unlock` puts the key that was wrapped into memory and changes nothing else. -/
theorem run_unlock_configOf {w : World} {passphrase : PyStr} {salt : Salt} {parameters : KdfParameters}
    {wrappingKey : Bytes} {dek : Key} {wrapped : EncryptedBlob}
    (hw : w.config = some (.json (.obj (configOf salt parameters wrapped))))
    (hderive : deriveWrappingKey passphrase salt parameters = .ok wrappingKey)
    (hopens : Opens wrappingKey dekWrapAad wrapped dek) :
    (unlock passphrase).run w = (.ok ⟨true, py "unlocked"⟩, { w with dek := some dek }) := by
  have hopened : decryptAesGcm wrappingKey wrapped dekWrapAad = .ok dek.1 := hopens
  rw [run_unlock_config passphrase hw, hderive]
  simp only [ok_bind, hopened, dek.2, ↓reduceDIte]

/-- What a successful `initialize` leaves: a configuration that wraps the new key
under the passphrase, and a locked vault. -/
theorem run_initializeVault_eq_ok {w w' : World} {passphrase : PyStr} {coins : InitCoins} {s : Status}
    (h : (initializeVault passphrase coins).run w = (.ok s, w')) :
    w.config = none ∧ CanSave w.configPath ∧ ∃ wrappingKey encrypted,
      deriveWrappingKey passphrase coins.salt (currentParameters w.environ) = .ok wrappingKey ∧ wrappingKey.length = 32 ∧
        Platform.aesGcmEncrypt wrappingKey coins.nonce coins.dek dekWrapAad = .ok encrypted ∧
          w' = { w with
            dek := none
            config := some (.json (.obj (configOf coins.salt (currentParameters w.environ) (.split coins.nonce encrypted))))
            temporary := none
            sealed := w.sealed ++ [⟨wrappingKey, dekWrapAad, coins.dek, .split coins.nonce encrypted⟩] } := by
  unfold initializeVault at h
  rw [Prog.run_bind, run_configExists] at h
  cases hc : w.config with
  | some f => simp [hc] at h
  | none =>
    simp only [hc, Option.isSome_none, Bool.false_eq_true, ↓reduceIte] at h
    cases he : evaluate passphrase with
    | some issue => simp [he] at h
    | none =>
      simp only [he, Prog.run_bind_eq_ok, Prog.run_look, Prog.run_done, Prod.mk.injEq, Except.ok.injEq] at h
      obtain ⟨_, _, ⟨rfl, rfl⟩, wrappingKey, _, ⟨hderive, rfl⟩, wrapped, w₁, hwrap, _, w₂, hsave, _, w₃, hlock,
        hstatus⟩ := h
      obtain ⟨hlen, encrypted, henc, rfl, rfl⟩ := run_encryptAesGcm_eq_ok.mp hwrap
      obtain ⟨hcan, rfl⟩ := run_saveAtomic_eq_ok.mp hsave
      refine ⟨rfl, hcan, wrappingKey, encrypted, hderive, hlen, henc, ?_⟩
      simp only [run_lockState, Prod.mk.injEq, true_and] at hlock
      rw [run_status] at hstatus
      rw [← (Prod.mk.inj hstatus).2, ← hlock]

/-- An initialization encrypts the key it makes. -/
theorem initializeVault_seals (passphrase : PyStr) (coins : InitCoins) :
    Seals (fun s => s.plaintext = coins.dek.1 ∧ s.blob.nonce = coins.nonce.1) (initializeVault passphrase coins) := by
  refine .bind (Keeps.seals (.look _ _)) fun found => Prog.Sat.ite (fun _ => .throw _) fun _ => ?_
  cases evaluate passphrase with
  | some issue => exact .done _
  | none =>
    refine Seals.bind (Keeps.seals (.look _ _)) fun parameters => .bind (.done _) fun wrappingKey =>
      .bind (encryptAesGcm_seals fun encrypted _ _ => ⟨rfl, rfl⟩) fun wrapped => Keeps.seals ?_
    exact .bind (saveAtomic_keeps _ fun _ _ _ => rfl) fun _ => .bind (.change fun _ => rfl) fun _ => status_keeps

/-- An initialization of an empty vault encrypts the key only. -/
theorem initializeVault_sealed {environ : PyStr → Option PyStr} {passphrase : PyStr} {coins : InitCoins}
    (hinit : ((initializeVault passphrase coins).run (.fresh environ)).1.isOk) :
    ∀ s ∈ ((initializeVault passphrase coins).run (.fresh environ)).2.sealed, s.aad = dekWrapAad := by
  rcases hrun : (initializeVault passphrase coins).run (.fresh environ) with ⟨e | s, w⟩
  · rw [hrun] at hinit
    cases hinit
  · obtain ⟨-, -, wrappingKey, encrypted, -, -, -, rfl⟩ := run_initializeVault_eq_ok hrun
    intro s hs
    rw [List.mem_singleton.mp hs]

end VaultService

/-- `unlock` with the passphrase brings the key into memory. -/
def Unlocks (passphrase : PyStr) (dek : Key) (config : Option ConfigFile) : Prop :=
  ∃ (salt : Salt) (parameters : KdfParameters) (wrappingKey : Bytes) (wrapped : EncryptedBlob),
    config = some (.json (.obj (VaultService.configOf salt parameters wrapped))) ∧
      deriveWrappingKey passphrase salt parameters = .ok wrappingKey ∧
        Opens wrappingKey VaultService.dekWrapAad wrapped dek

end Vault

/-! ### A vault on the sample platform -/

section Sample

attribute [local instance] samplePlatform

/-- A passphrase the policy accepts. -/
def samplePassphrase : PyStr := py "Correct-Horse-9-Battery"

/-- What a sample initialization draws. -/
def sampleCoins : VaultService.InitCoins := ⟨⟨List.replicate 16 7, rfl⟩, sampleKey 1, sampleNonce 2⟩

/-- A vault that has just been initialized on the sample platform. -/
def sampleStart : Except Exc VaultService.Status × World :=
  (VaultService.initializeVault samplePassphrase sampleCoins).run (.fresh fun _ => none)

example : sampleStart.1.isOk = true := by decide +kernel

end Sample

end MiniVault
