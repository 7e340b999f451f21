import MiniVault.Core.Runs

/-!
# Unlocking with any configuration file

What `unlock` does with whatever is in the configuration file: it unlocks the vault, or raises
an exception and leaves the vault locked. The exceptions it declares are those for a wrong
passphrase, for a configuration that is corrupted and for one that cannot be read.

## What is proved

* `run_loadAndValidateConfig_cases` — which files the loader takes, and what it raises for the others.
* `readKdfParameters_overflow_iff` — `int` raises `OverflowError` for the first cost that it does not
  convert, where that is an infinite float.
* `unlock_fails_closed` — the vault is locked after every exception, and the exception is a declared
  one exactly for the files that do not escape the two `except` lists.
* `unlock_escapes_sample` — files that do.
-/

namespace MiniVault

open Foundations

/-! ### Errors -/

/-- `InvalidMasterPassphraseError`, `VaultConfigCorruptedError` and `StorageError`. -/
def Exc.isUnlockError : Exc → Bool
  | invalidMasterPassphraseError => true
  | vaultConfigCorruptedError => true
  | storageError _ => true
  | legacySchemaError => true
  | _ => false

/-- The exceptions that the clauses of `unlock` catch. -/
def Exc.isCaught : Exc → Bool
  | invalidTag => true
  | keyError => true
  | typeError _ => true
  | e => e.isValueError

namespace VaultService

theorem unlockExc_of_isCaught {e : Exc} (h : e.isCaught) : (unlockExc e).isUnlockError := by
  unfold unlockExc
  split
  · rfl
  · rfl
  · rfl
  · next htag hkey htype =>
    have hvalue : e.isValueError = true := by
      unfold Exc.isCaught at h
      split at h
      · exact absurd rfl htag
      · exact absurd rfl hkey
      · exact absurd rfl (htype _)
      · exact h
    rw [if_pos hvalue]
    rfl

end VaultService

/-- What a computation raises is caught. -/
def Caught {α : Type} (x : Except Exc α) : Prop := ∀ e, x = .error e → e.isCaught

theorem Caught.ok {α : Type} (a : α) : Caught (.ok a : Except Exc α) := fun e h => by cases h

theorem Caught.error {α : Type} {e : Exc} (h : e.isCaught) : Caught (.error e : Except Exc α) :=
  fun _ he => by rwa [← Except.error.inj he]

/-- A sequence raises what its parts do. -/
theorem Caught.bind {α β : Type} {x : Except Exc α} {f : α → Except Exc β} (hx : Caught x)
    (hf : ∀ a, x = .ok a → Caught (f a)) : Caught (x >>= f) := by
  intro e h
  cases hxa : x with
  | error e' =>
    rw [hxa, error_bind] at h
    rw [← Except.error.inj h]
    exact hx e' hxa
  | ok a =>
    rw [hxa, ok_bind] at h
    exact hf a hxa e h

namespace VaultService

theorem subscript_caught (data : List (PyStr × Json)) (key : String) : Caught (subscript data key) := by
  unfold subscript
  split
  · exact .ok _
  · exact .error rfl

theorem decodeB64Json_caught (value : Json) : Caught (decodeB64Json value) := by
  unfold decodeB64Json decodeB64
  split
  · dsimp only
    split_ifs
    · split
      · exact .ok _
      · exact .error rfl
    · exact .error rfl
  · exact .error rfl

/-! ### The costs -/

/-- An infinite float. -/
def isInfinite : Json → Bool
  | .float x => x.isInf
  | _ => false

/-- The costs, in the order `unlock` reads them. -/
def costKeys : List String := ["time_cost", "memory_cost", "parallelism", "hash_len"]

variable [Platform]

/-- The first cost that is missing or that `int` does not convert is an infinite float. -/
def infiniteCost (data : List (PyStr × Json)) : List String → Bool
  | [] => false
  | key :: keys =>
    match member (py key) data with
    | none => false
    | some value => isInfinite value || ((intOfJson value).toBool && infiniteCost data keys)

/-- **What `int` raises for a member**: `OverflowError` for an infinite float, and nothing else that is not
caught. -/
theorem intOfJson_error {value : Json} {e : Exc} (h : intOfJson value = .error e) :
    (isInfinite value = true ∧ e = .overflowError) ∨ (isInfinite value = false ∧ e.isCaught) := by
  cases value with
  | float x =>
    simp only [intOfJson] at h
    split_ifs at h with hnan
    · refine .inr ⟨?_, by rw [← Except.error.inj h]; rfl⟩
      simp only [PyFloat.isNan, Bool.and_eq_true, decide_eq_true_eq] at hnan
      simp [isInfinite, PyFloat.isInf, hnan.2]
    · simp only [pyInt] at h
      cases htrunc : x.trunc with
      | some i => simp [htrunc] at h
      | none =>
        rw [htrunc] at h
        refine .inl ⟨?_, (Except.error.inj h).symm⟩
        have hexp : x.exponent = 2047 := by
          by_contra hne
          simp [PyFloat.trunc, hne] at htrunc
        simpa [isInfinite, PyFloat.isInf, PyFloat.isNan, hexp] using hnan
  | str s =>
    simp only [intOfJson, pyInt] at h
    cases hint : Platform.intOfText s with
    | some i => simp [hint] at h
    | none =>
      rw [hint] at h
      exact .inr ⟨rfl, by rw [← Except.error.inj h]; rfl⟩
  | int i => cases h
  | bool b => cases h
  | null | arr | obj => exact .inr ⟨rfl, by rw [← Except.error.inj h]; rfl⟩

theorem intOfJson_infinite {value : Json} (h : isInfinite value = true) : intOfJson value = .error .overflowError := by
  cases value with
  | float x =>
    simp only [isInfinite, PyFloat.isInf, Bool.and_eq_true, decide_eq_true_eq] at h
    simp [intOfJson, PyFloat.isNan, h.1, h.2, pyInt, PyFloat.trunc]
  | _ => cases h

/-- One of the costs. -/
def readCost (data : List (PyStr × Json)) (key : String) : Except Exc ℤ := do intOfJson (← subscript data key)

/-- The costs, one after another. -/
def readCosts (data : List (PyStr × Json)) : List String → Except Exc (List ℤ)
  | [] => .ok []
  | key :: keys => do
    let cost ← readCost data key
    let costs ← readCosts data keys
    return cost :: costs

/-- **Reading one cost after another** raises `OverflowError` where the first that does not convert is
infinite, and otherwise what is caught. -/
theorem readCosts_error {data : List (PyStr × Json)} {keys : List String} {e : Exc} (h : readCosts data keys = .error e) :
    (infiniteCost data keys = true ∧ e = .overflowError) ∨ (infiniteCost data keys = false ∧ e.isCaught) := by
  induction keys with
  | nil => cases h
  | cons key keys ih =>
    simp only [readCosts, readCost, subscript] at h
    unfold infiniteCost
    cases hmember : member (py key) data with
    | none =>
      simp only [hmember, error_bind, Except.error.injEq] at h
      exact .inr ⟨rfl, by rw [← h]; rfl⟩
    | some value =>
      simp only [hmember, ok_bind] at h
      cases hint : intOfJson value with
      | error e' =>
        simp only [hint, error_bind, Except.error.injEq] at h
        subst h
        simpa [hint, Except.toBool] using intOfJson_error hint
      | ok i =>
        have hfinite : isInfinite value = false := by
          by_contra hinf
          rw [intOfJson_infinite (by simpa using hinf)] at hint
          cases hint
        simp only [hint, ok_bind] at h
        cases hrest : readCosts data keys with
        | ok costs => simp [hrest] at h
        | error e' =>
          simp only [hrest, error_bind, Except.error.injEq] at h
          subst h
          simpa [hint, hfinite, Except.toBool] using ih hrest

/-- An infinite cost is not converted. -/
theorem readCosts_infinite {data : List (PyStr × Json)} {keys : List String} (h : infiniteCost data keys = true) :
    readCosts data keys = .error .overflowError := by
  cases hcosts : readCosts data keys with
  | error e =>
    rcases readCosts_error hcosts with ⟨-, rfl⟩ | ⟨hfinite, -⟩
    · rfl
    · rw [h] at hfinite
      cases hfinite
  | ok costs =>
    induction keys generalizing costs with
    | nil => cases h
    | cons key keys ih =>
      unfold infiniteCost at h
      obtain ⟨cost, hcost, hrest⟩ := bind_eq_ok.mp hcosts
      obtain ⟨rest, hrest, -⟩ := bind_eq_ok.mp hrest
      obtain ⟨value, hvalue, hint⟩ := bind_eq_ok.mp hcost
      unfold subscript at hvalue
      split at hvalue
      · next v hmember =>
        obtain rfl := Except.ok.inj hvalue
        simp only [hmember, hint, Except.toBool, Bool.true_and, Bool.or_eq_true] at h
        rcases h with h | h
        · rw [intOfJson_infinite h] at hint
          cases hint
        · cases ih h rest hrest
      · cases hvalue

/-- `KDFParameters` is made of the four costs. -/
theorem readKdfParameters_eq (data : List (PyStr × Json)) :
    (readKdfParameters (.obj data)).map (fun p => [p.timeCost, p.memoryCost, p.parallelism, p.hashLen]) =
      readCosts data costKeys := by
  have hmap : ∀ {α β : Type} (f : α → β) (x : Except Exc α), x.map f = x >>= fun a => pure (f a) := by
    intro α β f x
    cases x <;> rfl
  simp only [hmap, readKdfParameters, subscriptJson, costKeys, readCosts, readCost, bind_assoc, pure_bind, ok_bind]

/-- **Reading the parameters** raises `OverflowError` where a cost is infinite, and otherwise what is caught. -/
theorem readKdfParameters_error {value : Json} {e : Exc} (h : readKdfParameters value = .error e) :
    (∃ data, value = .obj data ∧ infiniteCost data costKeys = true ∧ e = .overflowError) ∨
      ((∀ data, value = .obj data → infiniteCost data costKeys = false) ∧ e.isCaught) := by
  cases value with
  | obj data =>
    have hcosts : readCosts data costKeys = .error e := by
      rw [← readKdfParameters_eq, h]
      rfl
    rcases readCosts_error hcosts with ⟨hinf, rfl⟩ | ⟨hfinite, hcaught⟩
    · exact .inl ⟨data, rfl, hinf, rfl⟩
    · exact .inr ⟨fun data' hdata => by rwa [← Json.obj.inj hdata], hcaught⟩
  | null | bool | int | float | str | arr =>
    refine .inr ⟨fun _ hdata => ?_, ?_⟩
    · cases hdata
    · rw [← Except.error.inj h]
      rfl

theorem readKdfParameters_infinite {data : List (PyStr × Json)} (h : infiniteCost data costKeys = true) :
    readKdfParameters (.obj data) = .error .overflowError := by
  have hcosts := readCosts_infinite h
  rw [← readKdfParameters_eq] at hcosts
  cases hread : readKdfParameters (.obj data) with
  | ok p => simp [hread, Except.map] at hcosts
  | error e =>
    rw [hread] at hcosts
    rw [Except.error.inj hcosts]

/-! ### The key -/

/-- Argon2 accepts the costs, with any passphrase and any salt of the length it is given. -/
def AcceptsCosts (parameters : KdfParameters) : Prop :=
  ∀ secret salt, 16 ≤ salt.length → ∃ k, Platform.hashSecretRaw secret salt parameters.timeCost parameters.memoryCost
    parameters.parallelism parameters.hashLen = .ok k

theorem deriveWrappingKey_caught {parameters : KdfParameters} (haccepts : AcceptsCosts parameters) (passphrase : PyStr)
    (salt : Bytes) : Caught (deriveWrappingKey passphrase salt parameters) := by
  unfold deriveWrappingKey
  by_cases hempty : passphrase = []
  · rw [if_pos hempty]
    exact .error rfl
  rw [if_neg hempty]
  by_cases hshort : salt.length < 16
  · dsimp only
    rw [if_pos hshort]
    exact .error rfl
  · dsimp only
    rw [if_neg hshort]
    cases utf8Encode passphrase with
    | none => exact .error rfl
    | some secret =>
      obtain ⟨k, hk⟩ := haccepts secret salt (Nat.le_of_not_lt hshort)
      simp only [hk]
      exact .ok _

theorem decryptAesGcm_caught (hrejects : GcmRejects) (key : Bytes) (blob : EncryptedBlob) (aad : Bytes) :
    Caught (decryptAesGcm key blob aad) := by
  unfold decryptAesGcm
  split_ifs with hkey hnonce htag
  · exact .error rfl
  · exact .error rfl
  · exact .error rfl
  · intro e he
    rw [ne_eq, not_not] at hkey hnonce htag
    have hlen : 16 ≤ (blob.ciphertext ++ blob.tag).length := by
      rw [List.length_append, htag]
      exact Nat.le_add_left _ _
    rw [hrejects ⟨key, hkey⟩ blob.nonce _ aad e hnonce hlen he]
    rfl

/-- The costs in the configuration are ones that Argon2 accepts. -/
def CostsAccepted (config : List (PyStr × Json)) : Prop :=
  ∀ value parameters, member (py "kdf_parameters") config = some value → readKdfParameters value = .ok parameters →
    AcceptsCosts parameters

/-- The first of the costs of a configuration that does not convert is infinite. -/
def InfiniteCost (config : List (PyStr × Json)) : Prop :=
  ∃ data, member (py "kdf_parameters") config = some (.obj data) ∧ infiniteCost data costKeys = true

/-- **What unwrapping the key raises**: `OverflowError` where a cost is infinite, and otherwise what is caught. -/
theorem unwrapDek_error (hrejects : GcmRejects) {config : List (PyStr × Json)} (haccepted : CostsAccepted config)
    {passphrase : PyStr} {e : Exc} (h : unwrapDek passphrase config = .error e) :
    (InfiniteCost config ∧ e = .overflowError) ∨ (¬ InfiniteCost config ∧ e.isCaught) := by
  cases hmember : member (py "kdf_parameters") config with
  | none =>
    refine .inr ⟨?_, ?_⟩
    · rintro ⟨data, hdata, -⟩
      rw [hmember] at hdata
      cases hdata
    · simp only [unwrapDek, subscript, hmember, error_bind, Except.error.injEq] at h
      rw [← h]
      rfl
  | some value =>
    have hsub : subscript config "kdf_parameters" = .ok value := by
      simp only [subscript, hmember]
    simp only [unwrapDek, hsub, ok_bind] at h
    cases hread : readKdfParameters value with
    | error e' =>
      simp only [hread, error_bind, Except.error.injEq] at h
      subst h
      rcases readKdfParameters_error hread with ⟨data, rfl, hinf, rfl⟩ | ⟨hfinite, hcaught⟩
      · exact .inl ⟨⟨data, hmember, hinf⟩, rfl⟩
      · refine .inr ⟨?_, hcaught⟩
        rintro ⟨data, hdata, hinf⟩
        rw [hfinite data (Option.some.inj (hmember.symm.trans hdata))] at hinf
        cases hinf
    | ok parameters =>
      refine .inr ⟨?_, ?_⟩
      · rintro ⟨data, hdata, hinf⟩
        obtain rfl := Option.some.inj (hmember.symm.trans hdata)
        rw [readKdfParameters_infinite hinf] at hread
        cases hread
      · simp only [hread, ok_bind] at h
        have hcaught : Caught (do
            let salt ← decodeB64Json (← subscript config "kdf_salt_b64")
            let wrappingKey ← deriveWrappingKey passphrase salt parameters
            let nonce ← decodeB64Json (← subscript config "dek_nonce_b64")
            let ciphertext ← decodeB64Json (← subscript config "encrypted_dek_b64")
            let tag ← decodeB64Json (← subscript config "dek_tag_b64")
            decryptAesGcm wrappingKey ⟨nonce, ciphertext, tag⟩ dekWrapAad) :=
          .bind (subscript_caught _ _) fun _ _ => .bind (decodeB64Json_caught _) fun salt _ =>
            .bind (deriveWrappingKey_caught (haccepted value parameters hmember hread) _ _) fun wrappingKey _ =>
              .bind (subscript_caught _ _) fun _ _ => .bind (decodeB64Json_caught _) fun nonce _ =>
                .bind (subscript_caught _ _) fun _ _ => .bind (decodeB64Json_caught _) fun ciphertext _ =>
                  .bind (subscript_caught _ _) fun _ _ => .bind (decodeB64Json_caught _) fun tag _ =>
                    decryptAesGcm_caught hrejects _ _ _
        exact hcaught e h

/-! ### The configuration file -/

/-- The members a configuration must have. -/
def requiredKeys : List String :=
  ["version", "status", "kdf", "kdf_salt_b64", "kdf_parameters", "dek_nonce_b64", "encrypted_dek_b64", "dek_tag_b64"]

/-- What `_load_and_validate_config` asks of a configuration. -/
def Validated (config : List (PyStr × Json)) : Prop :=
  (∀ key ∈ requiredKeys, (member (py key) config).isSome) ∧
    (∃ version, member (py "version") config = some version ∧ jsonEqInt version configVersion = true) ∧
      member (py "kdf") config = some (.str (py "argon2id"))

/-- What `JsonConfigStore.load` makes of a file. -/
def loadFile : ConfigFile → Except Exc (List (PyStr × Json))
  | .undecodable => .error .unicodeDecodeError
  | .notJson => .error .vaultConfigCorruptedError
  | .longInteger => .error (.valueError "Exceeds the limit (4300 digits) for integer string conversion")
  | .tooDeep => .error .recursionError
  | .json (.obj data) => .ok data
  | .json _ => .error .vaultConfigCorruptedError

omit [Platform] in
theorem run_configLoad {w : World} {file : ConfigFile} (hw : w.config = some file) :
    configLoad.run w = (loadFile file, w) := by
  unfold configLoad
  rw [Prog.run_bind_ok (run_configExists w), hw]
  rcases file with - | - | - | - | value
  · simp [hw, loadFile]
  · simp [hw, loadFile]
  · simp [hw, loadFile]
  · simp [hw, loadFile]
  · cases value <;> simp [hw, loadFile]

/-- The file is text, its JSON is not nested too deep and its integers are not too long. -/
def Readable (file : ConfigFile) : Prop := file ≠ .undecodable ∧ file ≠ .longInteger ∧ file ≠ .tooDeep

instance : DecidablePred Readable := fun file => inferInstanceAs (Decidable (file ≠ _ ∧ file ≠ _ ∧ file ≠ _))

omit [Platform] in
/-- What the loader raises is declared where the file is readable. -/
theorem loadFile_error {file : ConfigFile} {e : Exc} (h : loadFile file = .error e) :
    (∀ config, file ≠ .json (.obj config)) ∧ (e.isUnlockError ↔ Readable file) := by
  rcases file with - | - | - | - | value
  · rw [← Except.error.inj h]
    exact ⟨by simp, by decide⟩
  · rw [← Except.error.inj h]
    exact ⟨by simp, by decide⟩
  · rw [← Except.error.inj h]
    exact ⟨by simp, iff_of_false (by decide) (by decide)⟩
  · rw [← Except.error.inj h]
    exact ⟨by simp, by decide⟩
  · cases value with
    | obj data => cases h
    | null | bool | int | float | str | arr =>
      rw [← Except.error.inj h]
      exact ⟨by simp, iff_of_true rfl ⟨by simp, by simp, by simp⟩⟩

omit [Platform] in
/-- What is validated and what is not. -/
theorem run_loadAndValidateConfig_obj {w : World} {config : List (PyStr × Json)}
    (hw : w.config = some (.json (.obj config))) :
    (Validated config ∧ loadAndValidateConfig.run w = (.ok config, w)) ∨
      (¬ Validated config ∧ loadAndValidateConfig.run w = (.error .vaultConfigCorruptedError, w)) := by
  have hload : configLoad.run w = (.ok config, w) := run_configLoad hw
  unfold loadAndValidateConfig
  rw [Prog.run_bind_ok hload]
  by_cases hrequired : ∀ key ∈ requiredKeys, (member (py key) config).isSome
  · have hall : (requiredKeys.all fun key => (member (py key) config).isSome) = true := List.all_eq_true.mpr hrequired
    unfold requiredKeys at hall
    dsimp only
    rw [hall, if_neg (by decide)]
    obtain ⟨version, hversion⟩ := Option.isSome_iff_exists.mp (hrequired "version" (by decide))
    obtain ⟨kdf, hkdf⟩ := Option.isSome_iff_exists.mp (hrequired "kdf" (by decide))
    have hsubVersion : subscript config "version" = .ok version := by simp only [subscript, hversion]
    have hsubKdf : subscript config "kdf" = .ok kdf := by simp only [subscript, hkdf]
    rw [hsubVersion, hsubKdf, Prog.run_bind_ok (Prog.run_done _ _), Prog.run_bind_ok (Prog.run_done _ _)]
    by_cases hargon : kdf = .str (py "argon2id")
    · subst hargon
      by_cases hone : jsonEqInt version configVersion = true
      · refine .inl ⟨⟨hrequired, ⟨version, hversion, hone⟩, hkdf⟩, ?_⟩
        simp [hone]
      · refine .inr ⟨fun h => ?_, by simp [hone]⟩
        obtain ⟨-, ⟨version', hversion', hone'⟩, -⟩ := h
        rw [Option.some.inj (hversion.symm.trans hversion')] at hone
        exact hone hone'
    · refine .inr ⟨fun h => hargon (Option.some.inj (hkdf.symm.trans h.2.2)), ?_⟩
      cases kdf with
      | str s =>
        rw [Json.str.injEq] at hargon
        simp [hargon]
      | null | bool | int | float | arr | obj => simp
  · have hall : (requiredKeys.all fun key => (member (py key) config).isSome) = false := by
      rw [← Bool.not_eq_true, List.all_eq_true]
      exact hrequired
    unfold requiredKeys at hall
    dsimp only
    rw [hall, if_pos (by decide)]
    exact .inr ⟨fun h => hrequired h.1, rfl⟩

/-! ### Unlocking -/

/-- Some step of `unlock` raises an exception that no clause catches: the file cannot be read as JSON for another
reason than its text, or a cost is infinite. -/
def Escapes (file : ConfigFile) : Prop :=
  ¬ Readable file ∨ ∃ config, file = .json (.obj config) ∧ Validated config ∧ InfiniteCost config

/-- The vault is unlocked, or a declared exception was raised and it is locked. -/
def FailsClosed (r : Except Exc Status × World) : Prop :=
  match r with
  | (.ok s, w) => s = ⟨true, py "unlocked"⟩ ∧ w.dek.isSome
  | (.error e, w) => e.isUnlockError ∧ w.dek = none

/-- Unlocking where the loader raises. -/
theorem run_unlock_of_load_error {file : ConfigFile} {w : World} {e : Exc} (passphrase : PyStr) (hw : w.config = some file)
    (hload : loadAndValidateConfig.run { w with dek := none } = (.error e, { w with dek := none })) :
    (unlock passphrase).run w = (.error e, { w with dek := none }) := by
  have hfound : configExists.run w = (.ok true, w) := by
    rw [run_configExists, hw]
    rfl
  unfold unlock
  rw [Prog.run_bind_ok hfound, Bool.not_true, if_neg (by decide), Prog.run_bind_ok (run_lockState w),
    Prog.run_bind_error hload]

/-- Unlocking with a configuration that was loaded. -/
theorem run_unlock_of_load_ok {file : ConfigFile} {w : World} {config : List (PyStr × Json)} (passphrase : PyStr)
    (hw : w.config = some file) (hload : loadAndValidateConfig.run { w with dek := none } = (.ok config, { w with dek := none })) :
    (unlock passphrase).run w =
      match unwrapDek passphrase config with
      | .error e => (.error (unlockExc e), { w with dek := none })
      | .ok dek =>
        if h : dek.length = 32 then (.ok ⟨true, py "unlocked"⟩, { w with dek := some ⟨dek, h⟩ })
        else (.error .vaultConfigCorruptedError, { w with dek := none }) := by
  have hfound : configExists.run w = (.ok true, w) := by
    rw [run_configExists, hw]
    rfl
  unfold unlock
  rw [Prog.run_bind_ok hfound, Bool.not_true, if_neg (by decide), Prog.run_bind_ok (run_lockState w),
    Prog.run_bind_ok hload]
  cases unwrapDek passphrase config with
  | error e => rfl
  | ok dek =>
    by_cases hlen : dek.length = 32
    · have hstatus : status.run { w with dek := some ⟨dek, hlen⟩ } =
          (.ok ⟨true, py "unlocked"⟩, { w with dek := some ⟨dek, hlen⟩ }) := by
        rw [run_status]
        simp [hw]
      simp only [Except.mapError, Prog.run_bind, Prog.run_done, hlen, ↓reduceDIte, Prog.run_change, hstatus]
    · simp only [Except.mapError, Prog.run_bind, Prog.run_done, hlen, ↓reduceDIte, Prog.run_throw]

/-- **Unlocking fails closed.** Whatever is in the configuration file: after any exception the vault is locked; and
`unlock` unlocks it or raises one of its declared exceptions exactly where the file does not escape its `except`
lists. -/
theorem unlock_fails_closed (hrejects : GcmRejects) (file : ConfigFile)
    (haccepted : ∀ config, file = .json (.obj config) → CostsAccepted config) (w : World) (hw : w.config = some file)
    (passphrase : PyStr) :
    (∀ e, ((unlock passphrase).run w).1 = .error e → ((unlock passphrase).run w).2.dek = none) ∧
      (FailsClosed ((unlock passphrase).run w) ↔ ¬ Escapes file) := by
  -- the vault is locked before the file is looked at
  have hlocked : ({ w with dek := none } : World).config = some file := hw
  by_cases hobj : ∃ config, file = .json (.obj config)
  · obtain ⟨config, rfl⟩ := hobj
    have hreadable : Readable (.json (.obj config)) := ⟨by simp, by simp, by simp⟩
    rcases run_loadAndValidateConfig_obj hlocked with ⟨hvalid, hload⟩ | ⟨hinvalid, hload⟩
    · have hescapes : Escapes (.json (.obj config)) ↔ InfiniteCost config := by
        constructor
        · rintro (h | ⟨config', hconfig, -, hinf⟩)
          · exact absurd hreadable h
          · rwa [← Json.obj.inj (ConfigFile.json.inj hconfig)] at hinf
        · exact fun h => .inr ⟨config, rfl, hvalid, h⟩
      rw [run_unlock_of_load_ok passphrase hw hload, hescapes]
      cases hunwrap : unwrapDek passphrase config with
      | error e =>
        refine ⟨fun _ _ => rfl, ?_⟩
        rcases unwrapDek_error hrejects (haccepted config rfl) hunwrap with ⟨hinf, rfl⟩ | ⟨hfinite, hcaught⟩
        · exact iff_of_false (fun h => by cases h.1) fun h => h hinf
        · exact iff_of_true ⟨unlockExc_of_isCaught hcaught, rfl⟩ hfinite
      | ok dek =>
        have hfinite : ¬ InfiniteCost config := by
          rintro ⟨data, hdata, hinf⟩
          have hsub : subscript config "kdf_parameters" = .ok (.obj data) := by simp only [subscript, hdata]
          simp [unwrapDek, hsub, readKdfParameters_infinite hinf] at hunwrap
        by_cases hlen : dek.length = 32
        · simp only [hlen, ↓reduceDIte]
          exact ⟨fun e he => (by cases he), iff_of_true ⟨rfl, rfl⟩ hfinite⟩
        · simp only [hlen, ↓reduceDIte]
          exact ⟨fun _ _ => trivial, iff_of_true ⟨rfl, rfl⟩ hfinite⟩
    · rw [run_unlock_of_load_error passphrase hw hload]
      refine ⟨fun _ _ => rfl, iff_of_true ⟨rfl, rfl⟩ ?_⟩
      rintro (h | ⟨config', hconfig, hvalid, -⟩)
      · exact h hreadable
      · rw [Json.obj.inj (ConfigFile.json.inj hconfig)] at hinvalid
        exact hinvalid hvalid
  · have hload := run_configLoad hlocked
    cases hfile : loadFile file with
    | ok config =>
      refine absurd ?_ hobj
      rcases file with - | - | - | - | value
      · cases hfile
      · cases hfile
      · cases hfile
      · cases hfile
      · cases value with
        | obj data => exact ⟨data, rfl⟩
        | null | bool | int | float | str | arr => cases hfile
    | error e =>
      rw [hfile] at hload
      rw [run_unlock_of_load_error passphrase hw (Prog.run_bind_error hload _)]
      refine ⟨fun _ _ => rfl, ?_⟩
      have hdeclared : e.isUnlockError ↔ ¬ Escapes file := by
        refine (loadFile_error hfile).2.trans ⟨fun h => ?_, fun h => by_contra fun hnot => h (.inl hnot)⟩
        rintro (hnot | ⟨config, hconfig, -⟩)
        · exact hnot h
        · exact hobj ⟨config, hconfig⟩
      exact ⟨fun h => hdeclared.mp h.1, fun h => ⟨hdeclared.mpr h, rfl⟩⟩

end VaultService

/-! ### An example -/

section Sample

attribute [local instance] samplePlatform

/-- A configuration that the vault did not write: one of its costs is missing. -/
def sampleForeignConfig : List (PyStr × Json) :=
  [(py "version", .int 1), (py "status", .str (py "locked")), (py "kdf", .str (py "argon2id")),
    (py "kdf_salt_b64", .null), (py "kdf_parameters", .obj [(py "time_cost", .int 3)]), (py "dek_nonce_b64", .null),
    (py "encrypted_dek_b64", .null), (py "dek_tag_b64", .null)]

/-- The same with the cost `Infinity`. -/
def sampleInfiniteConfig : List (PyStr × Json) :=
  [(py "version", .int 1), (py "status", .str (py "locked")), (py "kdf", .str (py "argon2id")),
    (py "kdf_salt_b64", .null), (py "kdf_parameters", .obj [(py "time_cost", .float ⟨0x7ff0000000000000⟩)]),
    (py "dek_nonce_b64", .null), (py "encrypted_dek_b64", .null), (py "dek_tag_b64", .null)]

/-- A world with the file. -/
def sampleConfigured (file : ConfigFile) : World := { World.fresh (fun _ => none) with config := some file }

/-- A configuration without a cost is corrupted, and the vault stays locked. -/
theorem unlock_fails_closed_sample :
    VaultService.FailsClosed ((VaultService.unlock samplePassphrase).run
      (sampleConfigured (.json (.obj sampleForeignConfig)))) := by
  refine (VaultService.unlock_fails_closed samplePlatform_gcmRejects (.json (.obj sampleForeignConfig)) ?_ _ rfl
    samplePassphrase).2.mpr ?_
  · rintro config - value parameters - - secret salt -
    exact ⟨_, rfl⟩
  · rintro (h | ⟨config, hconfig, -, data, hdata, hinf⟩)
    · exact h ⟨by simp, by simp, by simp⟩
    · obtain rfl := Json.obj.inj (ConfigFile.json.inj hconfig)
      have hmember : member (py "kdf_parameters") sampleForeignConfig = some (.obj [(py "time_cost", .int 3)]) := by
        decide +kernel
      obtain rfl := Json.obj.inj (Option.some.inj (hmember.symm.trans hdata))
      exact absurd hinf (by decide +kernel)

/-- **Files that escape**: bytes that are not UTF-8, and a cost `Infinity`. The exceptions are not declared ones. -/
theorem unlock_escapes_sample :
    ((VaultService.unlock samplePassphrase).run (sampleConfigured .undecodable)).1 = .error .unicodeDecodeError ∧
      ((VaultService.unlock samplePassphrase).run (sampleConfigured (.json (.obj sampleInfiniteConfig)))).1 =
        .error .overflowError ∧
      ¬ VaultService.FailsClosed ((VaultService.unlock samplePassphrase).run (sampleConfigured .undecodable)) := by
  have hundecodable : (VaultService.unlock samplePassphrase).run (sampleConfigured .undecodable) =
      (.error .unicodeDecodeError, sampleConfigured .undecodable) := rfl
  refine ⟨by rw [hundecodable], by decide +kernel, ?_⟩
  rw [hundecodable]
  exact fun h => by cases h.1

end Sample

end MiniVault
