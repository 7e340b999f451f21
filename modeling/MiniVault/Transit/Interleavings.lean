import MiniVault.Transit.Tokens

/-!
# Transit operations side by side

Any number of transit operations at once, with `lock`, `unlock` and restarts, in any order
of their steps: whether each version that is stored fits its key.

## The model

The operations are a pool of programs on one world. `rotate_key` chooses a wrapper by the
usage in the row it finds first, and calls it in a later transaction, whose label says which
usage it was chosen for; in between the name may have been revoked and made again.

## What is proved

* `TransitOp.exec_held` — every step of every operation keeps the tables to a keyring, and
  the configuration and the key in memory to the vault's key (`KeysHeld`), where a rotation
  finds a key of the usage its wrapper is for (`RotatesInKind`).
* `versions_fit` — so after every interleaving all of whose rotations do, every version was
  wrapped for the owner, name, usage and algorithm of its key, and is unwrapped.
* `version_unfit_sample` — where a rotation finds another usage, its version is not.
-/

namespace MiniVault

open Foundations

section Interleavings

variable [Platform]

/-! ### What every step keeps -/

/-- What every operation relies on: the configuration wraps the key, no other key is in
memory, and the tables store a keyring. -/
structure KeysHeld (passphrase : PyStr) (dek : Key) (w : World) : Prop where
  /-- The configuration wraps the key under the passphrase. -/
  config : Unlocks passphrase dek w.config
  /-- There is no other key in memory. -/
  memory : ∀ k ∈ w.dek, k = dek
  /-- The tables store some keyring. -/
  stores : ∃ K, Stores dek w.db K

/-- A rotation finds the key it is called for, if there is one, with the usage its wrapper was
chosen for. -/
def RotatesInKind : Label → World → Prop
  | .rotate owner name usage, w => ∀ r ∈ w.db.keyAt owner name, r.keyUsage = .str usage
  | _, _ => True

instance (l : Label) (w : World) : Decidable (RotatesInKind l w) := by
  cases l with
  | rotate owner name usage => exact inferInstanceAs (Decidable (∀ r ∈ w.db.keyAt owner name, _))
  | _ => exact isTrue trivial

/-- Every step of the program, if it is a rotation one in kind, keeps what the operations
rely on. -/
def HoldsKeys {α : Type} (passphrase : PyStr) (dek : Key) (p : Act α) : Prop :=
  p.Sat (KeysHeld passphrase dek) fun l w w' => RotatesInKind l w → KeysHeld passphrase dek w'

variable {passphrase : PyStr} {dek : Key} {w w' : World} {α β : Type} {owner name : PyStr} {kind : KeyKind}
  {coins : KeyCoins}

/-- It is about the part of the world the keys live in. -/
theorem KeysHeld.of_keyPart (h : KeysHeld passphrase dek w) (hpart : w'.keyPart = w.keyPart) :
    KeysHeld passphrase dek w' := by
  simp only [World.keyPart, KeyPart.mk.injEq] at hpart
  obtain ⟨hkeys, hversions, hdek, hconfig⟩ := hpart
  obtain ⟨K, hK⟩ := h.stores
  exact ⟨hconfig ▸ h.config, hdek ▸ h.memory, K, hK.of_tables hkeys hversions⟩

/-- An operation that keeps that part keeps what the others rely on. -/
theorem Keeps.holdsKeys {p : Act α} (hp : Keeps World.keyPart p) : HoldsKeys passphrase dek p := by
  induction hp with
  | done r => exact .done r
  | atom hact _ ih => exact .atom (fun w h _ => h.of_keyPart (hact w trivial)) fun w _ => ih w trivial

/-- And so does one that changes nothing but the log. -/
theorem Keeps.holdsKeys_besideLog {p : Act α} (hp : Keeps World.besideLog p) : HoldsKeys passphrase dek p :=
  (hp.weaken World.keyPart_of_besideLog).holdsKeys

/-- A transaction that leaves the vault, and where it commits a keyring. -/
theorem connection_holdsKeys {label : Label} {body : Act α} (hbody : Keeps World.vaultPart body)
    (hcommit : ∀ w a w', KeysHeld passphrase dek w → RotatesInKind label w → body.run w = (.ok a, w') →
      ∃ K, Stores dek w'.db K) : HoldsKeys passphrase dek (connection label body) := by
  refine Prog.Sat.atomic fun w h hkind => ?_
  have hvault := hbody.run w
  rw [Prog.run_atomic]
  rcases hrun : body.run w with ⟨e | a, w'⟩ <;> rw [hrun] at hvault <;> obtain ⟨hdek, hconfig⟩ := Prod.mk.inj hvault
  · exact ⟨hconfig ▸ h.config, hdek ▸ h.memory, h.stores⟩
  · exact ⟨hconfig ▸ h.config, hdek ▸ h.memory, hcommit w a w' h hkind hrun⟩

/-! ### The operations -/

namespace TransitService

/-- Making a key. -/
theorem create_holdsKeys (kind : KeyKind) (hgcm : GcmCorrect) :
    HoldsKeys passphrase dek (NamedKeyRepository.create owner name kind.usage kind.algorithm
      (wrapFor kind owner name coins)) := by
  refine Prog.Sat.bind (Keeps.now.holdsKeys) fun now => Prog.Sat.bind (Prog.Sat.handle ?_ fun e => ?_) fun _ =>
    Prog.Sat.bind (reads_keep (f := World.besideLog)).holdsKeys_besideLog fun row => ?_
  · refine connection_holdsKeys (createBody_keeps (fun v => wrapFor_keeps (fun _ _ => rfl) v) fun _ _ => rfl) ?_
    intro w u w' h _ hrun
    obtain ⟨K, hK⟩ := h.stores
    obtain ⟨-, -, -, -, hstores, -⟩ := createBody_stores hgcm hK h.memory hrun
    exact ⟨_, hstores⟩
  · split <;> exact .done _
  · cases row <;> exact .done _

/-- Rotating a key, with the wrapper for the keys of a kind. -/
theorem rotate_holdsKeys (hgcm : GcmCorrect) :
    HoldsKeys passphrase dek (NamedKeyRepository.rotate owner name (wrapFor kind owner name coins)) := by
  refine Prog.Sat.bind Keeps.now.holdsKeys fun now => Prog.Sat.bind ?_ fun rotated =>
    Prog.Sat.ite (fun _ => (reads_keep (f := World.besideLog)).holdsKeys_besideLog) fun _ => .done _
  refine connection_holdsKeys (rotateBody_keeps (fun v => wrapFor_keeps (fun _ _ => rfl) v) fun _ _ => rfl) ?_
  intro w b w' h hkind hrun
  obtain ⟨K, hK⟩ := h.stores
  -- the key there is now is of the kind the wrapper is for
  have hsame : ∀ key, K owner name = some key → key.1 = kind := by
    intro key hkey
    have hrow : w.db.keyAt owner name ≠ none := by
      rw [ne_eq, hK.keyAt_eq_none, hkey]
      simp
    obtain ⟨r, hr⟩ := Option.ne_none_iff_exists'.mp hrow
    obtain ⟨key', hkey', hold⟩ := hK.holdsKey hr
    obtain rfl : key = key' := Option.some.inj (hkey.symm.trans hkey')
    exact KeyKind.usage_inj (Value.str.inj (hold.usage.symm.trans (hkind r hr)))
  obtain ⟨-, -, ⟨-, -, rfl⟩ | ⟨-, -, key, -, hstores, -⟩⟩ := rotateBody_stores hgcm hK h.memory hsame hrun
  · exact ⟨K, hK⟩
  · exact ⟨_, hstores⟩

/-- Revoking a key. -/
theorem deleteOwned_holdsKeys : HoldsKeys passphrase dek (NamedKeyRepository.deleteOwned owner name) := by
  refine connection_holdsKeys (.bind (.execute fun _ _ _ _ => rfl) fun _ => .pure _) ?_
  intro w b w' h _ hrun
  obtain ⟨K, hK⟩ := h.stores
  obtain ⟨n, w₁, hexecute, hpure⟩ := Prog.run_bind_eq_ok.mp hrun
  obtain ⟨-, db, hdb, rfl⟩ := run_execute_eq_ok.mp hexecute
  obtain ⟨-, rfl⟩ := Prod.mk.inj (Except.ok.inj hdb)
  rw [← (Prod.mk.inj hpure).2]
  exact ⟨_, hK.delete owner name⟩

end TransitService

/-- Unlocking: the configuration there is wraps no other key. -/
theorem VaultService.unlock_holdsKeys : HoldsKeys passphrase dek (unlock passphrase) := by
  refine Prog.Sat.bind (Keeps.look _ _).holdsKeys fun found => Prog.Sat.ite (fun _ => .throw _) fun _ => ?_
  refine Prog.Sat.bind (Prog.Sat.change fun w h _ => ⟨h.config, by simp, h.stores⟩) fun _ => ?_
  refine Prog.Sat.bind_yields (P := fun config => unwrapDek passphrase config = .ok dek.1)
    loadAndValidateConfig_keeps.holdsKeys ?_ fun config hconfig => ?_
  · apply loadAndValidateConfig_yields
    intro w h data hdata
    obtain ⟨salt, parameters, wrappingKey, wrapped, hconf, hderive, hopens⟩ := h.config
    obtain rfl := Json.obj.inj (ConfigFile.json.inj (Option.some.inj (hdata.symm.trans hconf)))
    exact unwrapDek_configOf hderive hopens
  · rw [hconfig]
    refine Prog.Sat.bind_done fun k hk => ?_
    obtain rfl := Except.ok.inj hk
    rw [dif_pos dek.2]
    exact Prog.Sat.bind (Prog.Sat.change fun w h _ => ⟨h.config, by simp, h.stores⟩) fun _ => status_keeps.holdsKeys

/-- **Every step of every operation** keeps what the operations rely on, if it is no rotation
with the wrapper for another kind. -/
theorem TransitOp.exec_held (hgcm : GcmCorrect) (op : TransitOp) : HoldsKeys passphrase dek (op.exec passphrase) := by
  have hanswer : ∀ {α : Type} {p : Act α} (f : α → TransitAnswer), HoldsKeys passphrase dek p →
      HoldsKeys passphrase dek (p >>= fun a => pure (f a)) := fun f hp => Prog.Sat.bind hp fun _ => .done _
  have hdrop : HoldsKeys passphrase dek lockState := Prog.Sat.change fun w h _ => ⟨h.config, by simp, h.stores⟩
  cases op with
  | createKey owner name coins =>
    refine hanswer _ (Prog.Sat.bind (Prog.Sat.ite (fun _ => .done _) fun _ => .done _) fun _ =>
      Prog.Sat.bind Keeps.getDek.holdsKeys fun _ => Prog.Sat.bind ?_ fun row =>
        (TransitService.metadata_keeps row).holdsKeys_besideLog)
    exact TransitService.create_holdsKeys .aes hgcm
  | createSigningKey owner name algorithm coins =>
    refine hanswer _ (Prog.Sat.bind (Prog.Sat.ite (fun _ => .done _) fun _ => .done _) fun _ =>
      Prog.Sat.ite (fun _ => .done _) fun _ => Prog.Sat.bind Keeps.getDek.holdsKeys fun _ => Prog.Sat.bind ?_ fun row =>
        (TransitService.metadata_keeps row).holdsKeys_besideLog)
    exact TransitService.create_holdsKeys .ed25519 hgcm
  | rotateKey owner name coins =>
    refine hanswer _ (Prog.Sat.bind (TransitService.ownedKey_keeps _ _).holdsKeys_besideLog fun keyRow =>
      Prog.Sat.bind Keeps.getDek.holdsKeys fun _ => Prog.Sat.bind ?_ fun rotated => ?_)
    · obtain ⟨kind, hwrapper⟩ := TransitService.wrapperOf_eq keyRow owner name coins
      rw [hwrapper]
      exact TransitService.rotate_holdsKeys hgcm
    · cases rotated with
      | none => exact .done _
      | some row => exact (TransitService.metadata_keeps row).holdsKeys_besideLog
  | deleteKey owner name =>
    exact hanswer _ (Prog.Sat.bind (TransitService.ownedKey_keeps _ _).holdsKeys_besideLog fun _ =>
      Prog.Sat.bind Keeps.getDek.holdsKeys fun _ => Prog.Sat.bind TransitService.deleteOwned_holdsKeys fun _ =>
        Prog.Sat.ite (fun _ => .done _) fun _ => .done _)
  | listKeys owner => exact hanswer _ (TransitService.listKeys_keeps owner).holdsKeys_besideLog
  | encrypt owner name plaintext nonce =>
    exact hanswer _ (TransitService.encrypt_keeps owner name plaintext nonce (fun _ => rfl) fun _ _ => rfl).holdsKeys
  | decrypt owner ciphertext => exact hanswer _ (TransitService.decrypt_keeps owner ciphertext).holdsKeys_besideLog
  | sign owner name message type algorithm =>
    exact hanswer _ (TransitService.sign_keeps owner name message type algorithm (fun _ => rfl) fun _ _ => rfl).holdsKeys
  | verify owner name message type signature algorithm version =>
    exact hanswer _ (TransitService.verify_keeps owner name message type signature algorithm version).holdsKeys_besideLog
  | lock => exact hanswer _ (Prog.Sat.bind hdrop fun _ =>
      VaultService.status_keeps.holdsKeys)
  | unlock => exact hanswer _ VaultService.unlock_holdsKeys
  | restart => exact Prog.Sat.bind (Prog.Sat.change fun w h _ => ⟨h.config, by simp, h.stores⟩) fun _ => .done _
  | tick time => exact Prog.Sat.bind (Prog.Sat.change fun w h _ => h.of_keyPart rfl) fun _ => .done _

/-! ### Every version fits its key -/

/-- The version was wrapped for its key: for its owner, name, usage and algorithm, with the
public half if there is one; and unwrapping it gives the material. -/
def VersionFits (dek : Key) (w : World) (r : NamedKey) (row : NamedKeyVersion) : Prop :=
  ∃ kind owner name material, r.ownerEmail = .str owner ∧ r.keyName = .str name ∧ r.keyUsage = .str (KeyKind.usage kind) ∧
    r.signingAlgorithm = kind.algorithm ∧ Wraps dek owner name kind row material ∧
      (TransitService.unwrap r row).run { w with dek := some dek } = (.ok material.1, { w with dek := some dek })

/-- Where the tables store a keyring, every version fits its key. -/
theorem Stores.versionFits {K : Keyring} (h : Stores dek w.db K) {r : NamedKey} (hr : r ∈ w.db.namedKeys.rows)
    {row : NamedKeyVersion} (hrow : row ∈ w.db.namedKeyVersions.rows) (href : row.keyId.sqlEq (.int r.id)) :
    VersionFits dek w r row := by
  obtain ⟨owner, name, howner, hname⟩ := h.named r hr
  have hat : w.db.keyAt owner name = some r := by
    have hfound := h.sound.headOf_key hr
    simp only [keyTables, howner, hname] at hfound
    exact hfound
  obtain ⟨key, hK, hold⟩ := h.holdsKey hat
  have hmem : row ∈ w.db.keyVersionsAt owner name := by
    rw [Database.keyVersionsAt_eq hat]
    rw [Value.sqlEq_int, decide_eq_true_eq] at href
    exact List.mem_filter.mpr ⟨hrow, decide_eq_true href⟩
  obtain ⟨i, hi⟩ := List.getElem?_of_mem hmem
  obtain ⟨hlt, hget⟩ := List.getElem?_eq_some_iff.mp hi
  have hwraps := hold.wraps.get hlt (hold.wraps.length_eq ▸ hlt)
  simp only [List.get_eq_getElem, hget] at hwraps
  refine ⟨key.1, owner, name, _, howner, hname, hold.usage, hold.algorithm, hwraps, ?_⟩
  obtain ⟨n, blob, associatedData, hn, hblob, haad, hopens, -⟩ := hwraps
  refine TransitService.run_unwrap_eq_ok.mpr ⟨dek, rfl, TransitService.openVersion_eq_ok.mpr
    ⟨blob, n, associatedData, hblob, by rw [hn, pyInt_int], ?_, hopens⟩, rfl⟩
  rwa [howner, hname, hold.usage, hold.algorithm]

/-- **Every version fits its key**: whatever transit operations are requested side by side of
a new vault, and however their steps interleave, if every rotation still finds the usage
its wrapper was chosen for, then every version that is stored was wrapped for its key,
and is unwrapped with the vault's key. -/
theorem versions_fit (hgcm : GcmCorrect) (environ : PyStr → Option PyStr) (passphrase : PyStr)
    (coins : VaultService.InitCoins) (ops : List TransitOp) (schedule : List ℕ) :
    let start := (VaultService.initializeVault passphrase coins).run (.fresh environ)
    let pool : Config World Label Exc TransitAnswer := ⟨start.2, ops.map (TransitOp.exec passphrase)⟩
    start.1.isOk → (∀ e ∈ pool.trace schedule, RotatesInKind e.label e.pre) →
      let w := (pool.exec schedule).state
      ∀ r ∈ w.db.namedKeys.rows, ∀ row ∈ w.db.namedKeyVersions.rows, row.keyId.sqlEq (.int r.id) →
        VersionFits coins.dek w r row := by
  intro start pool hinit hkind w r hr row hrow href
  have hstart : KeysHeld passphrase coins.dek start.2 := by
    obtain ⟨hrefines, -⟩ := KeysRefine.start hgcm hinit
    exact ⟨hrefines.config, hrefines.memory, _, hrefines.stores⟩
  have hsat : ∀ p ∈ pool.procs, HoldsKeys passphrase coins.dek p := by
    intro p hp
    obtain ⟨op, -, rfl⟩ := List.mem_map.mp hp
    exact op.exec_held hgcm
  obtain ⟨K, hK⟩ := (Config.exec_invariant (fun l w w' _ hstep hC => hstep hC) hsat hstart hkind).stores
  exact hK.versionFits hr hrow href

end Interleavings

/-! ### Two interleavings on the sample platform -/

section Sample

attribute [local instance] samplePlatform

/-- A key is made, and while it is rotated it is revoked and a signing key is made under its
name. -/
def sampleRotations : List TransitOp :=
  [.unlock, .createKey sampleOwner sampleKeyName (sampleKeyCoins 11), .rotateKey sampleOwner sampleKeyName (sampleKeyCoins 12),
    .deleteKey sampleOwner sampleKeyName,
    .createSigningKey sampleOwner sampleKeyName (py "ed25519") (sampleKeyCoins 13)]

/-- The pool of these operations on a new vault. -/
def samplePool : Config World Label Exc TransitAnswer :=
  ⟨sampleStart.2, sampleRotations.map (TransitOp.exec samplePassphrase)⟩

/-- All steps of an operation and more. -/
def allOf (i : ℕ) : List ℕ := List.replicate 16 i

/-- The revocation and the creation come before the transaction of the rotation. -/
def sampleOvertaken : List ℕ := allOf 0 ++ allOf 1 ++ [2, 2, 2] ++ allOf 3 ++ allOf 4 ++ allOf 2

/-- All four come in between each other, and the transactions in their order. -/
def sampleOrderly : List ℕ := allOf 0 ++ [1, 4, 1, 4, 1, 2, 3, 1, 2, 3, 2, 2, 3, 4, 1, 2, 4, 1, 2, 4]

attribute [local irreducible] Config.exec Config.trace

/-- A rotation that finds another usage than it started with stores a version that does not
fit. -/
theorem version_unfit_sample : sampleStart.1.isOk ∧
    ¬ ∀ r ∈ (samplePool.exec sampleOvertaken).state.db.namedKeys.rows,
      ∀ row ∈ (samplePool.exec sampleOvertaken).state.db.namedKeyVersions.rows, row.keyId.sqlEq (.int r.id) →
        VersionFits sampleCoins.dek (samplePool.exec sampleOvertaken).state r row := by
  refine ⟨by decide +kernel, fun hfit => ?_⟩
  -- the second version of the signing key has no public half
  have hunfit : ((samplePool.exec sampleOvertaken).state.db.namedKeys.rows.any fun r =>
      (samplePool.exec sampleOvertaken).state.db.namedKeyVersions.rows.any fun row =>
        row.keyId.sqlEq (.int r.id) && r.keyUsage = .str signVerify && row.publicKeyB64 = .none) = true := by
    decide +kernel
  simp only [List.any_eq_true, Bool.and_eq_true, decide_eq_true_eq] at hunfit
  obtain ⟨r, hr, row, hrow, ⟨href, husage⟩, hnone⟩ := hunfit
  obtain ⟨kind, owner, name, material, -, -, hkind, -, ⟨-, -, -, -, -, -, -, hpublic⟩, -⟩ := hfit r hr row hrow href
  obtain rfl : kind = .ed25519 := KeyKind.usage_inj (Value.str.inj (hkind.symm.trans husage))
  rw [hnone] at hpublic
  cases hpublic

/-- Every version fits in the other interleaving. -/
theorem versions_fit_sample : sampleStart.1.isOk ∧
    ∀ r ∈ (samplePool.exec sampleOrderly).state.db.namedKeys.rows,
      ∀ row ∈ (samplePool.exec sampleOrderly).state.db.namedKeyVersions.rows, row.keyId.sqlEq (.int r.id) →
        VersionFits sampleCoins.dek (samplePool.exec sampleOrderly).state r row :=
  ⟨by decide +kernel, versions_fit samplePlatform_gcmCorrect (fun _ => none) samplePassphrase sampleCoins sampleRotations
    sampleOrderly (by decide +kernel) (by decide +kernel)⟩

end Sample

end MiniVault
