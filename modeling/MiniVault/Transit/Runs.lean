import MiniVault.Kv.History
import MiniVault.Transit.AssociatedData
import MiniVault.Transit.Operations

/-!
# Runs of the transit operations

A run is any sequence of transit operations, by any users on any keys, mixed with `lock`,
`unlock` and restarts of the process. What the tables should hold after it is said without
tables: the keyring that its successful calls make (`keyring`).

## What is proved

* `KeysRefine.session` — every run keeps the tables, the configuration and the key in
  memory to `KeysRefine`: the tables store the keyring.
* `Recorded` — along the way every call that succeeded is explained by the keys there
  were before it, and every encryption and every signature on record by a call.
* `keyring_extends` — a key keeps its kind and its materials until it is revoked.
-/

namespace MiniVault

open Foundations

variable [Platform]

/-! ### Runs -/

/-- An operation of a run. -/
inductive TransitOp where
  /-- `TransitService.create_key`. -/
  | createKey (owner name : PyStr) (coins : KeyCoins)
  /-- `TransitService.create_signing_key`. -/
  | createSigningKey (owner name signingAlgorithm : PyStr) (coins : KeyCoins)
  /-- `TransitService.rotate_key`. -/
  | rotateKey (owner name : PyStr) (coins : KeyCoins)
  /-- `TransitService.delete_key`. -/
  | deleteKey (owner name : PyStr)
  /-- `TransitService.list_keys`. -/
  | listKeys (owner : PyStr)
  /-- `TransitService.encrypt`. -/
  | encrypt (owner name plaintextB64 : PyStr) (nonce : Nonce)
  /-- `TransitService.decrypt`. -/
  | decrypt (owner ciphertext : PyStr)
  /-- `TransitService.sign`. -/
  | sign (owner name messageB64 messageType signingAlgorithm : PyStr)
  /-- `TransitService.verify`. -/
  | verify (owner name messageB64 messageType signatureB64 signingAlgorithm : PyStr) (version : Option ℤ)
  /-- `VaultService.lock`. -/
  | lock
  /-- `VaultService.unlock`, with the passphrase of the run. -/
  | unlock
  /-- The process restarts. -/
  | restart
  /-- The clock shows another time. -/
  | tick (time : ℕ)

/-- What an operation answers. -/
inductive TransitAnswer where
  /-- Of an operation that makes or rotates a key. -/
  | metadata (m : Metadata)
  /-- Of a listing. -/
  | listing (keys : List Metadata)
  /-- Of a revocation. -/
  | revoked (name : PyStr)
  /-- Of an encryption. -/
  | encrypted (r : EncryptResult)
  /-- Of a decryption. -/
  | decrypted (r : DecryptResult)
  /-- Of a signature. -/
  | signed (r : SignResult)
  /-- Of a verification. -/
  | verified (r : VerifyResult)
  /-- Of the vault. -/
  | status (s : VaultService.Status)
  /-- Of an operation that answers nothing. -/
  | nothing
  deriving DecidableEq

/-- The program of an operation. -/
def TransitOp.exec (passphrase : PyStr) : TransitOp → Act TransitAnswer
  | .createKey owner name coins => do return .metadata (← TransitService.createKey owner name coins)
  | .createSigningKey owner name algorithm coins => do
    return .metadata (← TransitService.createSigningKey owner name algorithm coins)
  | .rotateKey owner name coins => do return .metadata (← TransitService.rotateKey owner name coins)
  | .deleteKey owner name => do return .revoked (← TransitService.deleteKey owner name)
  | .listKeys owner => do return .listing (← TransitService.listKeys owner)
  | .encrypt owner name plaintext nonce => do
    return .encrypted (← TransitService.encrypt owner name plaintext nonce)
  | .decrypt owner ciphertext => do return .decrypted (← TransitService.decrypt owner ciphertext)
  | .sign owner name message type algorithm => do
    return .signed (← TransitService.sign owner name message type algorithm)
  | .verify owner name message type signature algorithm version => do
    return .verified (← TransitService.verify owner name message type signature algorithm version)
  | .lock => do return .status (← VaultService.lock)
  | .unlock => do return .status (← VaultService.unlock passphrase)
  | .restart => do
    VaultService.restart
    return .nothing
  | .tick time => do
    Prog.change .clock fun w => { w with clock := time }
    return .nothing

/-- An operation with its answer. -/
abbrev TransitEvent := TransitOp × Except Exc TransitAnswer

/-- The operations of a run with their answers. -/
abbrev TransitTrace := List TransitEvent

/-- A run. -/
def transitSession (passphrase : PyStr) : World → List TransitOp → TransitTrace × World :=
  Prog.session (TransitOp.exec passphrase)

/-- What a call that succeeded makes of the keys. -/
def recordKey (K : Keyring) : TransitEvent → Keyring
  | (.createKey o n coins, .ok _) => K.set o n (some (.aes, [coins.material]))
  | (.createSigningKey o n _ coins, .ok _) => K.set o n (some (.ed25519, [coins.material]))
  | (.rotateKey o n coins, .ok _) => K.rotated o n coins.material
  | (.deleteKey o n, .ok _) => K.set o n none
  | _ => K

/-- The keys the calls of a run made. -/
def keyring (t : TransitTrace) : Keyring := t.foldl recordKey fun _ _ => none

omit [Platform] in
theorem keyring_append (t : TransitTrace) (e : TransitEvent) : keyring (t ++ [e]) = recordKey (keyring t) e := by
  simp [keyring]

/-! ### What a call found -/

/-- An owner that can be bound, and the name of a key. -/
def Nameable (owner name : PyStr) : Prop := keyNamePattern name ∧ Bindable owner

/-- A call that succeeded is explained by the keys there were: a key is made where there was
none, and a key that is rotated or used was there. -/
def KeyGenuine (K : Keyring) : TransitEvent → Prop
  | (.createKey o n _, .ok a) => Nameable o n ∧ K o n = none ∧ ∃ m, a = .metadata m ∧ m.latestVersion = 1
  | (.createSigningKey o n _ _, .ok a) => Nameable o n ∧ K o n = none ∧ ∃ m, a = .metadata m ∧ m.latestVersion = 1
  | (.rotateKey o n _, .ok a) =>
    ∃ key m, K o n = some key ∧ a = .metadata m ∧ m.latestVersion = key.2.length + 1
  | (.encrypt o n p _, .ok a) => ∃ r s, a = .encrypted r ∧ TransitService.Encrypted K o n p r s
  | (.sign o n m ty _, .ok a) => ∃ r s, a = .signed r ∧ TransitService.Signed K o n m ty r s
  | _ => True

/-- The event is an encryption, and this is what it encrypted. -/
def EncryptedBy (K : Keyring) (s : Sealing) : TransitEvent → Prop
  | (.encrypt o n p _, .ok (.encrypted r)) => TransitService.Encrypted K o n p r s
  | _ => False

/-- The event is a signature, and this is what it signed. -/
def SignedBy (K : Keyring) (s : Signing) : TransitEvent → Prop
  | (.sign o n m ty _, .ok (.signed r)) => TransitService.Signed K o n m ty r s
  | _ => False

/-- An encryption that is not of a payload: of the vault's key, or of the material of a key. -/
def WrapsKey (s : Sealing) : Prop :=
  s.aad = VaultService.dekWrapAad ∨ ∃ u k usage alg v, TransitService.keyAad u k usage alg v = .ok s.aad

/-- Something is true of an event of the run and the keys there were before it. -/
def Happened (P : Keyring → TransitEvent → Prop) (t : TransitTrace) : Prop :=
  ∃ before e after, t = before ++ e :: after ∧ P (keyring before) e

omit [Platform] in
theorem Happened.append {P : Keyring → TransitEvent → Prop} {t : TransitTrace} (h : Happened P t) (e : TransitEvent) :
    Happened P (t ++ [e]) := by
  obtain ⟨before, e', after, rfl, hP⟩ := h
  exact ⟨before, e', after ++ [e], by simp, hP⟩

omit [Platform] in
theorem Happened.last {P : Keyring → TransitEvent → Prop} {t : TransitTrace} {e : TransitEvent} (h : P (keyring t) e) :
    Happened P (t ++ [e]) :=
  ⟨t, e, [], rfl, h⟩

/-- **What the records of a run say.** -/
structure Recorded (t : TransitTrace) (w : World) : Prop where
  /-- Every call that succeeded is explained by the keys there were. -/
  genuine : Explained (fun before e => KeyGenuine (keyring before) e) t
  /-- Every encryption on record is of a key, or of a payload by a call. -/
  sealed : ∀ s ∈ w.sealed, WrapsKey s ∨ Happened (fun K e => EncryptedBy K s e) t
  /-- Every signature on record is by a call. -/
  signed : ∀ s ∈ w.signed, Happened (fun K e => SignedBy K s e) t

/-- **The refinement**: the tables store the keyring. -/
structure KeysRefine (passphrase : PyStr) (dek : Key) (t : TransitTrace) (w : World) : Prop where
  /-- The configuration wraps the key under the passphrase. -/
  config : Unlocks passphrase dek w.config
  /-- There is no other key in memory. -/
  memory : ∀ k ∈ w.dek, k = dek
  /-- The tables store the keyring. -/
  stores : Stores dek w.db (keyring t)

/-- The refinement is about the part of the world the keys live in. -/
theorem KeysRefine.of_keyPart {passphrase : PyStr} {dek : Key} {t t' : TransitTrace} {w w' : World}
    (h : KeysRefine passphrase dek t w) (hpart : w'.keyPart = w.keyPart) (ht : keyring t' = keyring t) :
    KeysRefine passphrase dek t' w' := by
  simp only [World.keyPart, KeyPart.mk.injEq] at hpart
  obtain ⟨hkeys, hversions, hdek, hconfig⟩ := hpart
  exact ⟨hconfig ▸ h.config, hdek ▸ h.memory, ht ▸ h.stores.of_tables hkeys hversions⟩

/-- What one more event adds to the records. -/
theorem Recorded.append {t : TransitTrace} {w w' : World} {e : TransitEvent} (h : Recorded t w)
    (hgenuine : KeyGenuine (keyring t) e)
    (hsealed : Sealed (fun s => WrapsKey s ∨ EncryptedBy (keyring t) s e) w w')
    (hsigned : ∀ s ∈ w'.signed, s ∈ w.signed ∨ SignedBy (keyring t) s e) : Recorded (t ++ [e]) w' := by
  refine ⟨explained_append.mpr ⟨h.genuine, hgenuine⟩, fun s hs => ?_, fun s hs => ?_⟩
  · obtain ⟨more, heq, hmore⟩ := hsealed
    rw [heq] at hs
    rcases List.mem_append.mp hs with hs | hs
    · exact (h.sealed s hs).imp id fun hold => hold.append e
    · exact (hmore s hs).imp id .last
  · rcases hsigned s hs with hs | hs
    · exact (h.signed s hs).append e
    · exact .last hs

/-! ### Every operation keeps to the keyring -/

section Step

variable {passphrase : PyStr} {dek : Key} {t : TransitTrace} {w : World}

/-- An operation that changes no key, and is explained, keeps both. -/
theorem KeysRefine.keep (h : KeysRefine passphrase dek t w) (hrec : Recorded t w) {e : TransitEvent} {w' : World}
    (hpart : w'.keyPart = w.keyPart) (he : recordKey (keyring t) e = keyring t) (hgenuine : KeyGenuine (keyring t) e)
    (hsealed : Sealed (fun s => WrapsKey s ∨ EncryptedBy (keyring t) s e) w w')
    (hsigned : ∀ s ∈ w'.signed, s ∈ w.signed ∨ SignedBy (keyring t) s e) :
    KeysRefine passphrase dek (t ++ [e]) w' ∧ Recorded (t ++ [e]) w' :=
  ⟨h.of_keyPart hpart (by rw [keyring_append, he]), hrec.append hgenuine hsealed hsigned⟩

/-- An operation that changes nothing but the log, and is explained, keeps both. -/
theorem KeysRefine.keep_besideLog (h : KeysRefine passphrase dek t w) (hrec : Recorded t w) {e : TransitEvent} {w' : World}
    (hpart : w'.besideLog = w.besideLog) (he : recordKey (keyring t) e = keyring t)
    (hgenuine : KeyGenuine (keyring t) e) : KeysRefine passphrase dek (t ++ [e]) w' ∧ Recorded (t ++ [e]) w' := by
  have hsealed : w'.sealed = w.sealed := by simpa [World.besideLog] using congrArg World.sealed hpart
  have hsigned : w'.signed = w.signed := by simpa [World.besideLog] using congrArg World.signed hpart
  exact h.keep hrec (World.keyPart_of_besideLog hpart) he hgenuine (.of_eq hsealed) fun s hs => .inl (hsigned ▸ hs)

/-- What wraps a material is the encryption of a key. -/
theorem TransitService.Wrapping.wrapsKey {owner name : PyStr} {kind : KeyKind} {material : Key} {s : Sealing}
    (h : TransitService.Wrapping owner name kind material s) : WrapsKey s := by
  obtain ⟨-, version, haad⟩ := h
  exact .inr ⟨_, _, _, _, version, haad⟩

/-- An operation that stores a material keeps both. -/
theorem KeysRefine.stored (h : KeysRefine passphrase dek t w) (hrec : Recorded t w) {owner name : PyStr} {kind : KeyKind}
    {coins : KeyCoins} {change : Keyring → ℤ → Prop} {p : Act Metadata} {op : TransitOp}
    (hcases : TransitService.StoresOrFails dek owner name kind coins change w (p.run w))
    (hkeeps : Keeps World.besideStores p) (hseals : Seals WrapsKey p)
    (hfail : ∀ e, recordKey (keyring t) (op, .error e) = keyring t ∧ KeyGenuine (keyring t) (op, .error e))
    (hok : ∀ m K', change K' m.latestVersion → Nameable owner name →
      recordKey (keyring t) (op, .ok (.metadata m)) = K' ∧ KeyGenuine (keyring t) (op, .ok (.metadata m))) :
    let run := (p >>= fun m => pure (TransitAnswer.metadata m)).run w
    KeysRefine passphrase dek (t ++ [(op, run.1)]) run.2 ∧ Recorded (t ++ [(op, run.1)]) run.2 := by
  intro run
  have hsealed := hseals.run w
  have hbeside := hkeeps.run w
  rcases hrun : p.run w with ⟨r, w'⟩
  rw [hrun] at hcases hsealed hbeside
  obtain ⟨hsigned, hvault⟩ := World.parts_of_besideStores hbeside
  have hseal : ∀ e, Sealed (fun s => WrapsKey s ∨ EncryptedBy (keyring t) s e) w w' := by
    intro e
    obtain ⟨more, heq, hmore⟩ := hsealed
    exact ⟨more, heq, fun s hs => .inl (hmore s hs)⟩
  rcases hcases with ⟨e, he, hpart⟩ | ⟨m, K', hm, hchange, hname, howner, -, hstores, -⟩
  · obtain rfl : r = .error e := he
    have hrun' : run = (.error e, w') := by
      simp only [run, run_answer, hrun]
    rw [hrun']
    exact h.keep hrec hpart (hfail e).1 (hfail e).2 (hseal _) fun s hs => .inl (hsigned ▸ hs)
  · obtain rfl : r = .ok m := hm
    have hrun' : run = (.ok (.metadata m), w') := by
      simp only [run, run_answer, hrun]
    rw [hrun']
    obtain ⟨hK, hgenuine⟩ := hok m K' hchange ⟨hname, howner⟩
    obtain ⟨hdek, hconfig⟩ := Prod.mk.inj hvault
    refine ⟨⟨hconfig ▸ h.config, hdek ▸ h.memory, ?_⟩, hrec.append hgenuine (hseal _) fun s hs => .inl (hsigned ▸ hs)⟩
    rw [keyring_append, hK]
    exact hstores

/-- **Every operation keeps to the keyring**, and is on record. -/
theorem KeysRefine.step (hgcm : GcmCorrect) (op : TransitOp) (h : KeysRefine passphrase dek t w) (hrec : Recorded t w) :
    let run := (op.exec passphrase).run w
    KeysRefine passphrase dek (t ++ [(op, run.1)]) run.2 ∧ Recorded (t ++ [(op, run.1)]) run.2 := by
  cases op with
  | createKey owner name coins =>
    refine h.stored hrec (TransitService.createKey_cases hgcm h.stores h.memory)
      (TransitService.createKey_keeps owner name coins)
      ((TransitService.createKey_seals owner name coins).mono fun s hs => hs.wrapsKey) (fun e => ⟨rfl, trivial⟩) ?_
    rintro m K' ⟨hnone, rfl, hversion⟩ hnameable
    exact ⟨rfl, hnameable, hnone, m, rfl, hversion⟩
  | createSigningKey owner name algorithm coins =>
    refine h.stored hrec (TransitService.createSigningKey_cases hgcm h.stores h.memory algorithm)
      (TransitService.createSigningKey_keeps owner name algorithm coins)
      ((TransitService.createSigningKey_seals owner name algorithm coins).mono fun s hs => hs.wrapsKey)
      (fun e => ⟨rfl, trivial⟩) ?_
    rintro m K' ⟨hnone, rfl, hversion⟩ hnameable
    exact ⟨rfl, hnameable, hnone, m, rfl, hversion⟩
  | rotateKey owner name coins =>
    obtain ⟨kind, hcases⟩ := TransitService.rotateKey_cases owner name coins hgcm h.stores
      h.memory
    refine h.stored hrec hcases (TransitService.rotateKey_keeps owner name coins)
      ((TransitService.rotateKey_seals owner name coins).mono fun s ⟨kind, hs⟩ => hs.wrapsKey)
      (fun e => ⟨rfl, trivial⟩) ?_
    rintro m K' ⟨materials, hK, rfl, hversion⟩ -
    exact ⟨rfl, (kind, materials), m, hK, rfl, hversion⟩
  | deleteKey owner name =>
    have hsealed := (TransitService.deleteKey_keepsSealed owner name).run w
    have hbeside := (TransitService.deleteKey_keeps owner name).run w
    simp only [TransitOp.exec, run_answer]
    rcases TransitService.deleteKey_cases owner name h.stores with
      ⟨e, w', hrun, hpart⟩ | ⟨w', hrun, -, -, -, -, hstores, rfl⟩ <;> rw [hrun] at hsealed hbeside ⊢
    · have hsigned := (World.parts_of_besideStores hbeside).1
      exact h.keep hrec hpart rfl trivial (.of_eq hsealed) fun s hs => .inl (hsigned ▸ hs)
    · refine ⟨⟨h.config, h.memory, ?_⟩, hrec.append trivial (.of_eq hsealed) fun s hs => .inl hs⟩
      rw [keyring_append]
      exact hstores
  | listKeys owner =>
    have hkeep := (TransitService.listKeys_keeps (f := World.besideLog) owner).run w
    simp only [TransitOp.exec, run_answer]
    rcases hrun : (TransitService.listKeys owner).run w with ⟨e | a, w'⟩ <;> rw [hrun] at hkeep <;>
      exact h.keep_besideLog hrec hkeep rfl trivial
  | encrypt owner name plaintext nonce =>
    simp only [TransitOp.exec, run_answer]
    have hsigned := (TransitService.encrypt_keeps (f := World.signed) owner name plaintext nonce (fun _ => rfl)
      fun _ _ => rfl).run w
    rcases TransitService.encrypt_cases owner name hgcm h.stores h.memory plaintext nonce with
      ⟨e, w', hrun, hpart, hsealed⟩ | ⟨r, s, hrun, -, -, -, hencrypted⟩ <;> rw [hrun] at hsigned ⊢
    · exact h.keep hrec hpart rfl trivial (.of_eq hsealed) fun s hs => .inl (hsigned ▸ hs)
    · refine h.keep hrec rfl rfl ⟨r, s, rfl, hencrypted⟩ ⟨[s], rfl, ?_⟩ fun s hs => .inl hs
      simp only [List.mem_singleton, forall_eq]
      exact .inr hencrypted
  | decrypt owner ciphertext =>
    have hkeep := (TransitService.decrypt_keeps owner ciphertext).run w
    simp only [TransitOp.exec, run_answer]
    rcases hrun : (TransitService.decrypt owner ciphertext).run w with ⟨e | a, w'⟩ <;> rw [hrun] at hkeep <;>
      exact h.keep_besideLog hrec hkeep rfl trivial
  | sign owner name message type algorithm =>
    have hsealed := (TransitService.sign_keeps (f := World.sealed) owner name message type algorithm (fun _ => rfl)
      fun _ _ => rfl).run w
    simp only [TransitOp.exec, run_answer]
    rcases TransitService.sign_cases owner name h.stores h.memory message type algorithm with
      ⟨e, w', hrun, hpart, hsigned⟩ | ⟨r, s, hrun, -, hsign⟩ <;> rw [hrun] at hsealed ⊢
    · exact h.keep hrec hpart rfl trivial (.of_eq hsealed) fun s hs => .inl (hsigned ▸ hs)
    · refine h.keep hrec rfl rfl ⟨r, s, rfl, hsign⟩ (.of_eq hsealed) fun s' hs => ?_
      rcases List.mem_append.mp hs with hs | hs
      · exact .inl hs
      · obtain rfl := List.mem_singleton.mp hs
        exact .inr hsign
  | verify owner name message type signature algorithm version =>
    have hkeep := (TransitService.verify_keeps owner name message type signature algorithm version).run w
    simp only [TransitOp.exec, run_answer]
    rcases hrun : (TransitService.verify owner name message type signature algorithm version).run w with ⟨e | a, w'⟩ <;>
      rw [hrun] at hkeep <;> exact h.keep_besideLog hrec hkeep rfl trivial
  | lock =>
    simp only [TransitOp.exec, run_answer, VaultService.run_lock]
    exact ⟨⟨h.config, by simp, by rw [keyring_append]; exact h.stores⟩,
      hrec.append trivial (.of_eq rfl) fun s hs => .inl hs⟩
  | unlock =>
    obtain ⟨salt, parameters, wrappingKey, wrapped, hconfig, hderive, hopens⟩ := h.config
    simp only [TransitOp.exec, run_answer, VaultService.run_unlock_configOf hconfig hderive hopens]
    exact ⟨⟨h.config, by simp, by rw [keyring_append]; exact h.stores⟩,
      hrec.append trivial (.of_eq rfl) fun s hs => .inl hs⟩
  | restart =>
    simp only [TransitOp.exec, VaultService.run_restart, Prog.run_bind, Prog.run_pure]
    exact ⟨⟨h.config, by simp, by rw [keyring_append]; exact h.stores⟩,
      hrec.append trivial (.of_eq rfl) fun s hs => .inl hs⟩
  | tick time =>
    simp only [TransitOp.exec, Prog.run_bind, Prog.run_change, Prog.run_pure]
    exact h.keep hrec rfl rfl trivial (.of_eq rfl) fun s hs => .inl hs

/-- **The tables store the keyring**, after every run, and its records say what it was. -/
theorem KeysRefine.session (hgcm : GcmCorrect) (h : KeysRefine passphrase dek [] w) (hrec : Recorded [] w)
    (ops : List TransitOp) :
    KeysRefine passphrase dek (transitSession passphrase w ops).1 (transitSession passphrase w ops).2 ∧
      Recorded (transitSession passphrase w ops).1 (transitSession passphrase w ops).2 :=
  Prog.session_invariant (I := fun t w => KeysRefine passphrase dek t w ∧ Recorded t w) ⟨h, hrec⟩
    (fun _ _ op hs => hs.1.step hgcm op hs.2) ops

/-- A vault that has just been initialized, over an empty database. -/
theorem KeysRefine.start (hgcm : GcmCorrect) {environ : PyStr → Option PyStr} {coins : VaultService.InitCoins}
    (hinit : ((VaultService.initializeVault passphrase coins).run (.fresh environ)).1.isOk) :
    let start := ((VaultService.initializeVault passphrase coins).run (.fresh environ)).2
    KeysRefine passphrase coins.dek [] start ∧ Recorded [] start := by
  have hstart := Refines.start hgcm hinit
  rcases hrun : (VaultService.initializeVault passphrase coins).run (.fresh environ) with ⟨e | s, w⟩
  · rw [hrun] at hinit
    cases hinit
  · obtain ⟨-, -, wrappingKey, encrypted, hderive, hlen, henc, rfl⟩ := VaultService.run_initializeVault_eq_ok hrun
    rw [hrun] at hstart
    refine ⟨⟨hstart.config, hstart.memory, .fresh _⟩, ⟨.nil, fun s hs => ?_, fun s hs => ?_⟩⟩
    · obtain rfl := List.mem_singleton.mp hs
      exact .inl (.inl rfl)
    · cases hs

end Step

/-! ### What becomes of a key -/

/-- The event revokes the key. -/
def Revokes (owner name : PyStr) (e : TransitEvent) : Prop := ∃ a, e = (.deleteKey owner name, .ok a)

/-- The material the operation draws. -/
def TransitOp.drawn : TransitOp → Option Key
  | .createKey _ _ coins => some coins.material
  | .createSigningKey _ _ _ coins => some coins.material
  | .rotateKey _ _ coins => some coins.material
  | _ => none

/-- The material the operation draws for a key. -/
def TransitOp.drawnFor (owner name : PyStr) : TransitOp → Option Key
  | .createKey o n coins => if owner = o ∧ name = n then some coins.material else none
  | .createSigningKey o n _ coins => if owner = o ∧ name = n then some coins.material else none
  | .rotateKey o n coins => if owner = o ∧ name = n then some coins.material else none
  | _ => none

omit [Platform] in
theorem TransitOp.drawn_of_drawnFor {owner name : PyStr} {op : TransitOp} {m : Key}
    (h : op.drawnFor owner name = some m) : op.drawn = some m := by
  cases op with
  | createKey | createSigningKey | rotateKey =>
    simp only [drawnFor] at h
    split_ifs at h
    exact h
  | deleteKey | listKeys | encrypt | decrypt | sign | verify | lock | unlock | restart | tick => cases h

omit [Platform] in
theorem TransitOp.drawnFor_inj {u k u' k' : PyStr} {op : TransitOp} {m m' : Key} (h : op.drawnFor u k = some m)
    (h' : op.drawnFor u' k' = some m') : u = u' ∧ k = k' := by
  cases op with
  | createKey | createSigningKey | rotateKey =>
    simp only [drawnFor] at h h'
    split_ifs at h h' with hu hu'
    exact ⟨hu.1.trans hu'.1.symm, hu.2.trans hu'.2.symm⟩
  | deleteKey | listKeys | encrypt | decrypt | sign | verify | lock | unlock | restart | tick => cases h

omit [Platform] in
/-- What one event does to a key that is not revoked: nothing, or one more version, or the
first. -/
theorem recordKey_cases (K : Keyring) (e : TransitEvent) (u k : PyStr) :
    recordKey K e u k = K u k ∨ (Revokes u k e ∧ recordKey K e u k = none) ∨
      ∃ m, e.1.drawnFor u k = some m ∧ ((∃ kind, recordKey K e u k = some (kind, [m])) ∨
        recordKey K e u k = (K u k).map fun key => (key.1, key.2 ++ [m])) := by
  rcases e with ⟨op, e | a⟩
  · left
    cases op <;> rfl
  · have hset : ∀ (o n : PyStr) key, K.set o n key u k = if u = o ∧ k = n then key else K u k := fun _ _ _ => rfl
    cases op with
    | createKey o n coins =>
      simp only [recordKey, hset]
      by_cases hu : u = o ∧ k = n
      · exact .inr (.inr ⟨_, if_pos hu, .inl ⟨.aes, if_pos hu⟩⟩)
      · exact .inl (if_neg hu)
    | createSigningKey o n algorithm coins =>
      simp only [recordKey, hset]
      by_cases hu : u = o ∧ k = n
      · exact .inr (.inr ⟨_, if_pos hu, .inl ⟨.ed25519, if_pos hu⟩⟩)
      · exact .inl (if_neg hu)
    | rotateKey o n coins =>
      simp only [recordKey, Keyring.rotated, hset]
      by_cases hu : u = o ∧ k = n
      · obtain ⟨rfl, rfl⟩ := hu
        exact .inr (.inr ⟨_, if_pos ⟨rfl, rfl⟩, .inr (if_pos ⟨rfl, rfl⟩)⟩)
      · exact .inl (if_neg hu)
    | deleteKey o n =>
      simp only [recordKey, hset]
      by_cases hu : u = o ∧ k = n
      · obtain ⟨rfl, rfl⟩ := hu
        exact .inr (.inl ⟨⟨a, rfl⟩, if_pos ⟨rfl, rfl⟩⟩)
      · exact .inl (if_neg hu)
    | listKeys | encrypt | decrypt | sign | verify | lock | unlock | restart | tick => exact .inl rfl

/-- A key that there is, is not made again. -/
theorem recordKey_extends {K : Keyring} {e : TransitEvent} (hgenuine : KeyGenuine K e) {u k : PyStr}
    {kind : KeyKind} {materials : List Key} (hK : K u k = some (kind, materials)) (hkeep : ¬ Revokes u k e) :
    ∃ more, recordKey K e u k = some (kind, materials ++ more) := by
  rcases recordKey_cases K e u k with hsame | ⟨hrevokes, -⟩ | ⟨m, hdrawn, ⟨kind', hfirst⟩ | hnext⟩
  · exact ⟨[], by rw [hsame, hK, List.append_nil]⟩
  · exact absurd hrevokes hkeep
  · -- a first version is made only where there was no key
    rcases e with ⟨op, e | a⟩
    · have hsame : recordKey K (op, .error e) u k = K u k := by cases op <;> rfl
      exact ⟨[], by rw [hsame, hK, List.append_nil]⟩
    · have hset : ∀ (o n : PyStr) key, K.set o n key u k = if u = o ∧ k = n then key else K u k := fun _ _ _ => rfl
      have hother : ∀ (o n : PyStr) key, K o n = none → K.set o n key u k = K u k := by
        intro o n key hnone
        rw [hset, if_neg]
        rintro ⟨rfl, rfl⟩
        rw [hnone] at hK
        cases hK
      cases op with
      | createKey o n coins => exact ⟨[], by rw [recordKey, hother _ _ _ hgenuine.2.1, hK, List.append_nil]⟩
      | createSigningKey o n algorithm coins =>
        exact ⟨[], by rw [recordKey, hother _ _ _ hgenuine.2.1, hK, List.append_nil]⟩
      | rotateKey o n coins =>
        by_cases hu : u = o ∧ k = n
        · obtain ⟨rfl, rfl⟩ := hu
          exact ⟨[coins.material], by simp [recordKey, Keyring.rotated, hK]⟩
        · exact ⟨[], by simp [recordKey, Keyring.rotated, hset, hu, hK]⟩
      | deleteKey | listKeys | encrypt | decrypt | sign | verify | lock | unlock | restart | tick => cases hdrawn
  · exact ⟨[m], by rw [hnext, hK]; rfl⟩

/-- **A key keeps its kind and its materials** until it is revoked. -/
theorem keyring_extends (t₁ t₂ : TransitTrace) (h : Explained (fun before e => KeyGenuine (keyring before) e) (t₁ ++ t₂))
    {u k : PyStr} {kind : KeyKind} {materials : List Key} (hK : keyring t₁ u k = some (kind, materials))
    (hkeep : ∀ e ∈ t₂, ¬ Revokes u k e) : ∃ more, keyring (t₁ ++ t₂) u k = some (kind, materials ++ more) := by
  induction t₂ using List.reverseRecOn with
  | nil => exact ⟨[], by simp [hK]⟩
  | append_singleton t₂ e ih =>
    rw [← List.append_assoc] at h ⊢
    obtain ⟨hold, hgenuine⟩ := explained_append.mp h
    obtain ⟨more, hmore⟩ := ih hold fun e' he' => hkeep e' (List.mem_append_left _ he')
    rw [keyring_append]
    obtain ⟨more', hmore'⟩ := recordKey_extends hgenuine hmore (hkeep e (by simp))
    exact ⟨more ++ more', by rw [hmore', List.append_assoc]⟩

omit [Platform] in
/-- The materials of a key were drawn for it, in order, by operations of the run; and if the
key was revoked, then since it was. -/
theorem keyring_drawn (t₁ : TransitTrace) {t₂ : TransitTrace} {u k : PyStr} {kind : KeyKind} {materials : List Key}
    (hK : keyring (t₁ ++ t₂) u k = some (kind, materials)) (hnew : keyring t₁ u k = none ∨ ∃ e ∈ t₂, Revokes u k e) :
    materials.Sublist (t₂.filterMap fun e => e.1.drawnFor u k) := by
  induction t₂ using List.reverseRecOn generalizing kind materials with
  | nil =>
    rcases hnew with hnone | ⟨e, he, -⟩
    · rw [List.append_nil, hnone] at hK
      cases hK
    · cases he
  | append_singleton t₂ e ih =>
    rw [← List.append_assoc, keyring_append] at hK
    rw [List.filterMap_append]
    have hlater : ∀ {kind ms}, keyring (t₁ ++ t₂) u k = some (kind, ms) → (¬ Revokes u k e) →
        ms.Sublist (t₂.filterMap fun e => e.1.drawnFor u k) := by
      intro kind' ms hold hkeep
      refine ih hold (hnew.imp id ?_)
      rintro ⟨e', he', hrevokes⟩
      rcases List.mem_append.mp he' with he' | he'
      · exact ⟨e', he', hrevokes⟩
      · obtain rfl := List.mem_singleton.mp he'
        exact absurd hrevokes hkeep
    rcases recordKey_cases (keyring (t₁ ++ t₂)) e u k with hsame | ⟨-, hnone⟩ | ⟨m, hdrawn, ⟨kind', hfirst⟩ | hnext⟩
    · refine (hlater (hsame ▸ hK) ?_).trans (List.sublist_append_left _ _)
      rintro ⟨a, rfl⟩
      rw [recordKey, Keyring.set_self] at hK
      cases hK
    · rw [hnone] at hK
      cases hK
    · rw [hfirst, Option.some.injEq, Prod.mk.injEq] at hK
      obtain ⟨-, rfl⟩ := hK
      simp [hdrawn]
    · rw [hnext] at hK
      obtain ⟨⟨kind', ms⟩, hold, heq⟩ := Option.map_eq_some_iff.mp hK
      obtain ⟨-, rfl⟩ := Prod.mk.inj heq
      refine (hlater hold ?_).append (by simp [hdrawn])
      rintro ⟨a, rfl⟩
      cases hdrawn

/-- A key that there is has a name and an owner. -/
theorem keyring_nameable {t : TransitTrace} (h : Explained (fun before e => KeyGenuine (keyring before) e) t) {u k : PyStr}
    (hK : keyring t u k ≠ none) : Nameable u k := by
  induction t using List.reverseRecOn with
  | nil => exact absurd rfl hK
  | append_singleton t e ih =>
    obtain ⟨hold, hgenuine⟩ := explained_append.mp h
    rw [keyring_append] at hK
    by_cases hbefore : keyring t u k = none
    · -- the key was made by this event
      rcases e with ⟨op, e | a⟩
      · exact absurd hbefore (by cases op <;> exact hK)
      · have hset : ∀ {o n : PyStr} {key}, (keyring t).set o n key u k ≠ none → u = o ∧ k = n := by
          intro o n key hne
          by_contra hother
          exact hne ((if_neg hother).trans hbefore)
        cases op with
        | createKey o n coins =>
          obtain ⟨rfl, rfl⟩ := hset hK
          exact hgenuine.1
        | createSigningKey o n algorithm coins =>
          obtain ⟨rfl, rfl⟩ := hset hK
          exact hgenuine.1
        | rotateKey o n coins =>
          obtain ⟨rfl, rfl⟩ := hset hK
          obtain ⟨key, -, hkey, -⟩ := hgenuine
          rw [hbefore] at hkey
          cases hkey
        | deleteKey o n =>
          obtain ⟨rfl, rfl⟩ := hset hK
          exact absurd (Keyring.set_self _ _ _ _) hK
        | listKeys | encrypt | decrypt | sign | verify | lock | unlock | restart | tick => exact absurd hbefore hK
    · exact ih hold hbefore

/-! ### Materials that are all different -/

/-- No two materials drawn in the run are the same. -/
def Fresh (ops : List TransitOp) : Prop := (ops.filterMap TransitOp.drawn).Nodup

instance (ops : List TransitOp) : Decidable (Fresh ops) := inferInstanceAs (Decidable (List.Nodup _))

omit [Platform] in
/-- The materials drawn for a key are among those drawn. -/
theorem drawnFor_sublist (t : TransitTrace) (u k : PyStr) :
    (t.filterMap fun e => e.1.drawnFor u k).Sublist ((t.map Prod.fst).filterMap TransitOp.drawn) := by
  induction t with
  | nil => exact .slnil
  | cons e t ih =>
    cases hfor : e.1.drawnFor u k with
    | none =>
      simp only [List.filterMap_cons, hfor, List.map_cons]
      exact ih.trans ((List.sublist_cons_self _ _).filterMap _)
    | some m =>
      simp only [List.filterMap_cons, hfor, List.map_cons, TransitOp.drawn_of_drawnFor hfor]
      exact ih.cons_cons m

omit [Platform] in
/-- What is drawn for one key is not drawn for another. -/
theorem Fresh.same_key {t : TransitTrace} (h : Fresh (t.map Prod.fst)) {u k u' k' : PyStr} {m : Key}
    (hm : m ∈ t.filterMap fun e => e.1.drawnFor u k) (hm' : m ∈ t.filterMap fun e => e.1.drawnFor u' k') :
    u = u' ∧ k = k' := by
  unfold Fresh at h
  induction t with
  | nil => cases hm
  | cons e t ih =>
    rw [List.map_cons] at h
    have hsub : ∀ {u k}, m ∈ (t.filterMap fun e => e.1.drawnFor u k) → m ∈ (t.map Prod.fst).filterMap TransitOp.drawn :=
      fun hmem => (drawnFor_sublist t _ _).subset hmem
    rw [List.mem_filterMap] at hm hm'
    simp only [List.mem_cons, exists_eq_or_imp, ← List.mem_filterMap] at hm hm'
    cases hd : e.1.drawn with
    | none =>
      rw [List.filterMap_cons_none hd] at h
      have hno : ∀ u k, e.1.drawnFor u k ≠ some m := by
        intro u k hfor
        rw [TransitOp.drawn_of_drawnFor hfor] at hd
        cases hd
      exact ih h (hm.resolve_left (hno u k)) (hm'.resolve_left (hno u' k'))
    | some x =>
      rw [List.filterMap_cons_some hd, List.nodup_cons] at h
      rcases hm with hm | hm
      · obtain rfl : x = m := Option.some.inj (hd.symm.trans (TransitOp.drawn_of_drawnFor hm))
        have hm' := hm'.resolve_right fun hmem => h.1 (hsub hmem)
        exact TransitOp.drawnFor_inj hm hm'
      · rcases hm' with hm' | hm'
        · obtain rfl : x = m := Option.some.inj (hd.symm.trans (TransitOp.drawn_of_drawnFor hm'))
          exact absurd (hsub hm) h.1
        · exact ih h.2 hm hm'

/-- **A material tells its key**: where materials are all different, one that was the latest
of some key and is now among those of a key, was of that key and has its number there, and
the key was not revoked in between. -/
theorem Fresh.latest {before after : TransitTrace} (h : Fresh ((before ++ after).map Prod.fst))
    (hexplained : Explained (fun before e => KeyGenuine (keyring before) e) (before ++ after)) {u k u' k' : PyStr}
    {kind kind' : KeyKind} {ms ms' : List Key} {m : Key} {i : ℕ} (hK' : keyring before u' k' = some (kind', ms'))
    (hlast : ms'.getLast? = some m) (hK : keyring (before ++ after) u k = some (kind, ms)) (hi : ms[i]? = some m) :
    u' = u ∧ k' = k ∧ kind' = kind ∧ ms'.length = i + 1 ∧ ∀ e ∈ after, ¬ Revokes u k e := by
  have hbefore := keyring_drawn [] hK' (.inl rfl)
  have hall := keyring_drawn [] hK (.inl rfl)
  have hm' : m ∈ ms' := List.mem_of_getLast? hlast
  have hm : m ∈ ms := List.mem_of_getElem? hi
  obtain ⟨rfl, rfl⟩ : u' = u ∧ k' = k := by
    refine h.same_key ?_ (hall.subset hm)
    rw [List.filterMap_append]
    exact List.mem_append_left _ (hbefore.subset hm')
  -- had the key been revoked, its materials would have been drawn since
  have hkeep : ∀ e ∈ after, ¬ Revokes u' k' e := by
    intro e he hrevokes
    have hafter := keyring_drawn _ hK (.inr ⟨e, he, hrevokes⟩)
    unfold Fresh at h
    rw [List.map_append, List.filterMap_append, List.nodup_append] at h
    exact h.2.2 m ((drawnFor_sublist _ _ _).subset (hbefore.subset hm')) m
      ((drawnFor_sublist _ _ _).subset (hafter.subset hm)) rfl
  obtain ⟨more, hmore⟩ := keyring_extends _ _ hexplained hK' hkeep
  rw [hK, Option.some.injEq, Prod.mk.injEq] at hmore
  obtain ⟨rfl, rfl⟩ := hmore
  have hnodup : (ms' ++ more).Nodup := (hall.trans (drawnFor_sublist _ _ _)).nodup h
  rw [List.getLast?_eq_getElem?] at hlast
  have hlt := (List.getElem?_eq_some_iff.mp hlast).1
  have hsame : (ms' ++ more)[ms'.length - 1]? = some m := by
    rw [List.getElem?_append_left hlt, hlast]
  have hi' := (List.getElem?_eq_some_iff.mp hi).1
  have hindex : ms'.length - 1 = i := by
    rw [List.getElem?_eq_some_iff] at hsame hi
    obtain ⟨h₁, h₁'⟩ := hsame
    obtain ⟨h₂, h₂'⟩ := hi
    exact (hnodup.getElem_inj_iff).mp (h₁'.trans h₂'.symm)
  exact ⟨rfl, rfl, rfl, by omega, hkeep⟩

end MiniVault
