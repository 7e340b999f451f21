import MiniVault.Core.Runs
import MiniVault.Kv.AssociatedData
import MiniVault.Kv.History

/-!
# The vault initialized while it is used

Any number of calls of `initialize` at once, side by side with `lock`, `unlock` and the
operations of the key-value store.

## The model

`initialize` looks whether there is a configuration, derives a key, writes the temporary file
and moves it over the configuration; between two of these steps any other request may take
its own. The temporary file has one name for all of them.

## What is proved

* `initialized_once` — in every interleaving in which a configuration is moved into its place
  only where there is none, and is the one the same call wrote, at most one `initialize`
  succeeds; from then on the configuration stays, its passphrase brings back the key it made,
  and whatever the key-value store holds is sealed under that key.
* `initialized_twice_sample` — where a configuration is moved over another, two succeed.
-/

namespace MiniVault

open Foundations

section Initialization

variable [Platform]

/-! ### Requests -/

/-- A request. -/
inductive VaultRequest where
  /-- To the vault. -/
  | vault (op : VaultOp)
  /-- To the key-value store, or to the vault with a passphrase. -/
  | kv (passphrase : PyStr) (op : KvOp)

/-- What a request is answered. -/
inductive VaultReply where
  /-- By the vault. -/
  | vault (a : VaultAnswer)
  /-- By the key-value store. -/
  | kv (a : KvAnswer)
  deriving DecidableEq

/-- The program of a request. -/
def VaultRequest.exec : VaultRequest → Act VaultReply
  | .vault op => do return .vault (← op.exec)
  | .kv passphrase op => do return .kv (← op.exec passphrase)

/-- The requests side by side, on a vault that is not initialized. -/
def vaultPool (environ : PyStr → Option PyStr) (requests : List VaultRequest) : Config World Label Exc VaultReply :=
  ⟨.fresh environ, requests.map VaultRequest.exec⟩

/-- The request is an initialization. -/
def VaultRequest.coins : VaultRequest → Option VaultService.InitCoins
  | .vault (.initializeVault _ coins) => some coins
  | _ => none

/-- The file is the configuration that a call of `initialize` writes. -/
def WrittenBy (passphrase : PyStr) (coins : VaultService.InitCoins) (file : ConfigFile) : Prop :=
  ∃ parameters wrappingKey encrypted,
    file = .json (.obj (VaultService.configOf coins.salt parameters (.split coins.nonce encrypted))) ∧
      deriveWrappingKey passphrase coins.salt parameters = .ok wrappingKey ∧ wrappingKey.length = 32 ∧
        Platform.aesGcmEncrypt wrappingKey coins.nonce coins.dek VaultService.dekWrapAad = .ok encrypted

/-- Where the step moves a file into the place of the configuration, there is none yet, and
the file is the one that the call has written. -/
def ReplacesOwn (requests : List VaultRequest) (e : Event World Label) : Prop :=
  e.label = .replace → ∀ file ∈ e.pre.temporary, e.pre.config = none ∧ ∃ passphrase coins,
    requests[e.proc]? = some (.vault (.initializeVault passphrase coins)) ∧ WrittenBy passphrase coins file

/-! ### The configuration -/

/-- The temporary file can be moved over the configuration, and the step does. -/
def Moves (l : Label) (w : World) : Prop := l = .replace ∧ w.temporary ≠ none ∧ Platform.replaces w.configPath = true

instance (l : Label) (w : World) : Decidable (Moves l w) := inferInstanceAs (Decidable (_ ∧ _ ∧ _))

/-- What a step does to the configuration: the temporary file is moved over it, or nothing. -/
def MovesConfig (l : Label) (w w' : World) : Prop := w'.config = if Moves l w then w.temporary else w.config

theorem VaultService.initializeVault_movesConfig (passphrase : PyStr) (coins : InitCoins) :
    (initializeVault passphrase coins).Sat (fun _ => True) MovesConfig := by
  have hlook : ∀ {α : Type} {l : Label} {f : World → Except Exc α}, l ≠ .replace →
      (Prog.look l f).Sat (fun _ => True) MovesConfig := fun hl => .look fun _ _ => (if_neg fun h => hl h.1).symm
  have hchange : ∀ {l : Label} {f : World → World}, l ≠ .replace → (∀ w, (f w).config = w.config) →
      (Prog.change l f : Act Unit).Sat (fun _ => True) MovesConfig := by
    refine fun hl hf => .change fun w _ => ?_
    unfold MovesConfig
    rw [hf, if_neg fun h => hl h.1]
  have hstatus : status.Sat (fun _ => True) MovesConfig :=
    .bind (hlook (by decide)) fun found => .ite (fun _ => .done _) fun _ => .bind (hlook (by decide)) fun _ => .done _
  refine .bind (hlook (by decide)) fun found => .ite (fun _ => .done _) fun _ => ?_
  cases evaluate passphrase with
  | some issue => exact .done _
  | none =>
    refine .bind (hlook (by decide)) fun parameters => .bind (.done _) fun wrappingKey => .bind ?_ fun wrapped =>
      .bind ?_ fun _ => .bind (hchange (by decide) fun _ => rfl) fun _ => hstatus
    · exact .ite (fun _ => .done _) fun _ => .bind (.done _) fun _ => .bind (hchange (by decide) fun _ => rfl) fun _ =>
        .done _
    · refine saveAtomic_sat _ (fun w _ _ => (if_neg fun h => nomatch h.1).symm) (fun w file _ hfile hreplaces => ?_)
        fun w _ hfails => (if_neg fun h => ?_).symm
      · have hmoves : Moves .replace w := ⟨rfl, by simp [hfile], hreplaces⟩
        rw [MovesConfig, if_pos hmoves, hfile]
      · cases (hfails h.2.1).symm.trans h.2.2

/-- An operation of the key-value store leaves the configuration alone. -/
theorem KvOp.exec_keepsConfig (passphrase : PyStr) (op : KvOp) : Keeps World.config (op.exec passphrase) := by
  cases op with
  | write owner path data nonce => exact .bind (KvService.write_keeps owner path data nonce fun _ _ _ => rfl) fun _ => .pure _
  | read owner path version => exact .bind ((KvService.read_keeps owner path version).aside fun _ => rfl) fun _ => .pure _
  | versions owner path => exact .bind ((KvService.versions_keeps owner path).aside fun _ => rfl) fun _ => .pure _
  | delete owner path => exact .bind (KvService.delete_keeps owner path fun _ _ => rfl) fun _ => .pure _
  | lock => exact .bind (.bind (.change fun _ => rfl) fun _ => VaultService.status_keeps) fun _ => .pure _
  | unlock => exact .bind (VaultService.unlock_keeps fun _ _ => rfl) fun _ => .pure _
  | restart => exact .bind (.change fun _ => rfl) fun _ => .pure _
  | tick time => exact .bind (.change fun _ => rfl) fun _ => .pure _

/-- Every request leaves it alone but an initialization. -/
theorem VaultRequest.exec_keepsConfig {request : VaultRequest} (h : request.coins = none) :
    Keeps World.config request.exec := by
  cases request with
  | kv passphrase op => exact .bind (op.exec_keepsConfig passphrase) fun _ => .pure _
  | vault op =>
    refine .bind ?_ fun _ => .pure _
    cases op with
    | initializeVault passphrase coins => cases h
    | unlock passphrase => exact .bind (VaultService.unlock_keeps fun _ _ => rfl) fun _ => .pure _
    | lock => exact .bind (.bind (.change fun _ => rfl) fun _ => VaultService.status_keeps) fun _ => .pure _
    | restart => exact .bind (.change fun _ => rfl) fun _ => .pure _
    | setEnviron environ => exact .bind (.change fun _ => rfl) fun _ => .pure _

/-- What the steps of a request do to the configuration: those of an initialization move the
temporary file over it, and no others touch it. -/
theorem VaultRequest.exec_movesConfig (request : VaultRequest) :
    request.exec.Sat (fun _ => True) fun l w w' =>
      (MovesConfig l w w' ∨ w'.config = w.config) ∧ (request.coins.isSome → MovesConfig l w w') := by
  cases hcoins : request.coins with
  | none => exact (exec_keepsConfig hcoins).mono (fun _ _ => trivial) fun l w w' hw => ⟨.inr hw, fun h => by simp at h⟩
  | some coins =>
    cases request with
    | kv passphrase op => cases hcoins
    | vault op =>
      cases op with
      | initializeVault passphrase coins =>
        refine Prog.Sat.mono (Prog.Sat.bind (Prog.Sat.bind (VaultService.initializeVault_movesConfig passphrase coins) fun _ =>
          .done _) fun _ => .done _) (fun _ _ => trivial) fun l w w' hw => ⟨.inl hw, fun _ => hw⟩
      | unlock | lock | restart | setEnviron => cases hcoins

/-- A call of `initialize` does not succeed without moving a file over the configuration. -/
theorem VaultService.initializeVault_needs (passphrase : PyStr) (coins : InitCoins) :
    (initializeVault passphrase coins).Needs Moves := by
  refine .bind_right fun found => .ite (fun _ => .error _) fun _ => ?_
  cases evaluate passphrase with
  | some issue => exact .error _
  | none =>
    refine .bind_right fun parameters => .bind_right fun wrappingKey => .bind_right fun wrapped => .bind_left ?_
    refine .bind_right fun written => ?_
    cases written with
    | false => exact .atom fun _ _ => .error _
    | true =>
      refine .atom fun w hnot => ?_
      have hfails : w.temporary = none ∨ Platform.replaces w.configPath = false := by
        by_contra hboth
        rw [not_or, Bool.not_eq_false] at hboth
        exact hnot ⟨rfl, hboth⟩
      rcases htemporary : w.temporary with - | file
      · simp only [htemporary]
        exact .atom fun _ _ => .error _
      · simp only [htemporary, reduceCtorEq, false_or] at hfails
        simp only [htemporary, hfails]
        exact .atom fun _ _ => .error _

/-! ### What is encrypted -/

/-- Where what is encrypted is bound to what the vault's key is bound to, it is a key that one
of the requests makes, with its nonce. -/
def WrapsDrawn (requests : List VaultRequest) (s : Sealing) : Prop :=
  s.aad = VaultService.dekWrapAad → ∃ coins ∈ requests.filterMap VaultRequest.coins,
    s.plaintext = coins.dek.1 ∧ s.blob.nonce = coins.nonce.1

theorem VaultRequest.exec_seals {requests : List VaultRequest} {request : VaultRequest} (h : request ∈ requests) :
    Seals (WrapsDrawn requests) request.exec := by
  cases request with
  | kv passphrase op =>
    refine .bind ?_ fun _ => Keeps.seals (.pure _)
    cases op with
    | write owner path data nonce =>
      refine .bind ((KvService.write_sealsAad owner path data nonce).mono fun s ⟨v, haad⟩ hbound => ?_) fun _ =>
        Keeps.seals (.pure _)
      exact absurd hbound (KvService.aad_ne_dekWrapAad haad)
    | read owner path version =>
      exact Keeps.seals (.bind ((KvService.read_keeps owner path version).aside fun _ => rfl) fun _ => .pure _)
    | versions owner path =>
      exact Keeps.seals (.bind ((KvService.versions_keeps owner path).aside fun _ => rfl) fun _ => .pure _)
    | delete owner path => exact Keeps.seals (.bind (KvService.delete_keeps owner path fun _ _ => rfl) fun _ => .pure _)
    | lock => exact Keeps.seals (.bind (.bind (.change fun _ => rfl) fun _ => VaultService.status_keeps) fun _ => .pure _)
    | unlock => exact Keeps.seals (.bind (VaultService.unlock_keeps fun _ _ => rfl) fun _ => .pure _)
    | restart => exact Keeps.seals (.bind (.change fun _ => rfl) fun _ => .pure _)
    | tick time => exact Keeps.seals (.bind (.change fun _ => rfl) fun _ => .pure _)
  | vault op =>
    refine .bind ?_ fun _ => Keeps.seals (.pure _)
    cases op with
    | initializeVault passphrase coins =>
      refine .bind ((VaultService.initializeVault_seals passphrase coins).mono fun s hs _ => ⟨coins, ?_, hs⟩) fun _ =>
        Keeps.seals (.pure _)
      exact List.mem_filterMap.mpr ⟨_, h, rfl⟩
    | unlock passphrase => exact Keeps.seals (.bind (VaultService.unlock_keeps fun _ _ => rfl) fun _ => .pure _)
    | lock => exact Keeps.seals (.bind (.bind (.change fun _ => rfl) fun _ => VaultService.status_keeps) fun _ => .pure _)
    | restart => exact Keeps.seals (.bind (.change fun _ => rfl) fun _ => .pure _)
    | setEnviron environ => exact Keeps.seals (.bind (.change fun _ => rfl) fun _ => .pure _)

/-! ### One key -/

/-- What holds once it is known which configuration the run comes to: there is no other, no
other key comes into memory, and the rows of the key-value store are sealed under it. -/
structure VaultHeld (dek : Key) (file : ConfigFile) (w : World) : Prop where
  /-- There is no other configuration. -/
  config : ∀ f ∈ w.config, f = file
  /-- There is no other key in memory. -/
  memory : ∀ k ∈ w.dek, k = dek
  /-- The tables are in order. -/
  sound : w.db.KvSound
  /-- Every row of an owner's path holds data, sealed under the key. -/
  holds : ∀ u p, ∀ row ∈ w.db.versionsAt u p, ∃ data, Holds dek u p row data

/-- Every step of the program keeps it, if it moves no other file over the configuration. -/
def HoldsVault {α : Type} (dek : Key) (file : ConfigFile) (p : Act α) : Prop :=
  p.Sat (VaultHeld dek file) fun l w w' => (Moves l w → ∀ f ∈ w.temporary, f = file) → VaultHeld dek file w'

section Held

variable {dek : Key} {file : ConfigFile} {w w' : World} {α : Type} {owner path : PyStr}

theorem VaultHeld.of_kvPart (h : VaultHeld dek file w) (hpart : w'.kvPart = w.kvPart) : VaultHeld dek file w' := by
  simp only [World.kvPart, KvPart.mk.injEq] at hpart
  obtain ⟨hrecords, hversions, hdek, hconfig⟩ := hpart
  refine ⟨hconfig ▸ h.config, hdek ▸ h.memory,
    ⟨?_, hrecords ▸ h.sound.recordCells, hversions ▸ h.sound.versionCells⟩, fun u p => ?_⟩
  · rw [hrecords, hversions]
    exact h.sound.toSound
  · have hat : w'.db.versionsAt u p = w.db.versionsAt u p := by
      unfold Database.versionsAt
      rw [hrecords, hversions]
    rw [hat]
    exact h.holds u p

theorem Keeps.holdsVault {p : Act α} (hp : Keeps World.kvPart p) : HoldsVault dek file p := by
  induction hp with
  | done r => exact .done r
  | atom hact _ ih => exact .atom (fun w h _ => h.of_kvPart (hact w trivial)) fun w _ => ih w trivial

theorem Keeps.holdsVault_besideLog {p : Act α} (hp : Keeps World.besideLog p) : HoldsVault dek file p :=
  (hp.weaken World.kvPart_of_besideLog).holdsVault

/-- Dropping the key in memory. -/
theorem lockState_holdsVault : HoldsVault dek file lockState :=
  Prog.Sat.change fun _ h _ => ⟨h.config, by simp, h.sound, h.holds⟩

/-- So does a restart. -/
theorem VaultService.restart_holdsVault : HoldsVault dek file restart :=
  Prog.Sat.change fun _ h _ => ⟨h.config, by simp, h.sound, h.holds⟩

/-- A transaction that leaves the vault, and where it commits, rows that are sealed. -/
theorem connection_holdsVault {label : Label} {body : Act α} (hbody : Keeps World.vaultPart body)
    (hcommit : ∀ w a w', VaultHeld dek file w → body.run w = (.ok a, w') → w'.db.KvSound ∧
      ∀ u p, ∀ row ∈ w'.db.versionsAt u p, ∃ data, Holds dek u p row data) :
    HoldsVault dek file (connection label body) := by
  refine Prog.Sat.atomic fun w h _ => ?_
  have hvault := hbody.run w
  rw [Prog.run_atomic]
  rcases hrun : body.run w with ⟨e | a, w'⟩ <;> rw [hrun] at hvault <;> obtain ⟨hdek, hconfig⟩ := Prod.mk.inj hvault
  · exact ⟨hconfig ▸ h.config, hdek ▸ h.memory, h.sound, h.holds⟩
  · obtain ⟨hsound, hholds⟩ := hcommit w a w' h hrun
    exact ⟨hconfig ▸ h.config, hdek ▸ h.memory, hsound, hholds⟩

/-- Writing. -/
theorem KvService.write_holdsVault (hgcm : GcmCorrect) (data : Data) (nonce : Nonce) :
    HoldsVault dek file (write owner path data nonce) := by
  refine Prog.Sat.bind (authorize_keeps owner path).holdsVault_besideLog fun _ => Prog.Sat.bind Keeps.getDek.holdsVault
    fun _ => Prog.Sat.bind_done fun plaintext hdata => ?_
  refine Prog.Sat.bind_yields (P := fun k => k = dek) Keeps.getDek.holdsVault (.look fun w h k hk => ?_) ?_
  · split at hk
    · next k' hk' =>
      rw [← Except.ok.inj hk]
      exact h.memory k' hk'
    · cases hk
  · intro k hk
    subst hk
    rw [appendVersion_eq]
    refine Prog.Sat.bind Keeps.now.holdsVault fun now => connection_holdsVault (appendBody_keeps
      (fun v => encryptFor_keeps (fun _ _ => rfl) _ plaintext owner path nonce v) fun _ _ => rfl) ?_
    intro w a w' h hrun
    obtain ⟨-, -, associatedData, encrypted, haad, henc, id, db, db', halloc, hins, rfl⟩ := run_appendBody_eq_ok hrun
    obtain ⟨hsound, -, hversion, row, hn, hc, ht, hrows⟩ := halloc.append h.sound hins
    refine ⟨hsound, fun u p row' hrow' => ?_⟩
    change row' ∈ db'.versionsAt u p at hrow'
    rw [hrows] at hrow'
    split_ifs at hrow' with hup
    · obtain ⟨rfl, rfl⟩ := hup
      rcases List.mem_append.mp hrow' with hold | hnew
      · exact h.holds owner path row' hold
      · obtain rfl := List.mem_singleton.mp hnew
        have hat : (db'.versionsAt owner path)[(w.db.versionsAt owner path).length]? = some row' := by
          rw [hrows]
          simp
        have hblob : blobOf row' = .ok (.split nonce encrypted) := by
          simp [blobOf, hn, hc, ht, pure, Except.pure]
        exact ⟨data, a.version, _, associatedData, plaintext, by rw [Database.versionsAt_number hsound hat, hversion], hblob,
          haad, hdata, hgcm.opens k.2 henc⟩
    · exact h.holds u p row' hrow'

/-- Deleting. -/
theorem KvService.delete_holdsVault : HoldsVault dek file (delete owner path) := by
  refine Prog.Sat.bind (authorize_keeps owner path).holdsVault_besideLog fun _ => Prog.Sat.bind Keeps.getDek.holdsVault
    fun _ => Prog.Sat.bind ?_ fun deleted => Prog.Sat.ite (fun _ => .done _) fun _ => .done _
  refine connection_holdsVault (.bind (.execute fun _ _ _ _ => rfl) fun _ => .pure _) ?_
  intro w b w' h hrun
  obtain ⟨n, w₁, hexecute, hpure⟩ := Prog.run_bind_eq_ok.mp hrun
  obtain ⟨-, db, hdb, rfl⟩ := run_execute_eq_ok.mp hexecute
  obtain ⟨-, rfl⟩ := Prod.mk.inj (Except.ok.inj hdb)
  obtain ⟨hsound, -, -, hrows⟩ := Database.deleteRecord_spec h.sound owner path
  rw [← (Prod.mk.inj hpure).2]
  refine ⟨hsound, fun u p row hrow => ?_⟩
  change row ∈ (w.db.deleteRecord owner path).2.versionsAt u p at hrow
  rw [hrows] at hrow
  split_ifs at hrow
  · cases hrow
  · exact h.holds u p row hrow

/-- Unlocking: what the configuration wraps is the key. -/
theorem VaultService.unlock_holdsVault (passphrase : PyStr)
    (honly : ∀ data, file = .json (.obj data) → ∀ k, unwrapDek passphrase data = .ok k → k = dek.1) :
    HoldsVault dek file (unlock passphrase) := by
  refine Prog.Sat.bind (Keeps.look _ _).holdsVault fun found => Prog.Sat.ite (fun _ => .throw _) fun _ => ?_
  refine Prog.Sat.bind lockState_holdsVault fun _ => ?_
  refine Prog.Sat.bind_yields (P := fun config => ∀ k, unwrapDek passphrase config = .ok k → k = dek.1)
    loadAndValidateConfig_keeps.holdsVault ?_ fun config hconfig => ?_
  · exact loadAndValidateConfig_yields fun w h data hdata => honly data (h.config _ hdata).symm
  · refine Prog.Sat.bind_done fun k hk => ?_
    have hkey : k = dek.1 := by
      rcases hopen : unwrapDek passphrase config with e | k'
      · simp [hopen, Except.mapError] at hk
      · rw [hopen] at hk
        rw [← Except.ok.inj hk]
        exact hconfig k' hopen
    subst hkey
    rw [dif_pos dek.2]
    exact Prog.Sat.bind (Prog.Sat.change fun w h _ => ⟨h.config, by simp, h.sound, h.holds⟩) fun _ =>
      status_keeps.holdsVault

/-- Initializing: only the move of the file touches what is held. -/
theorem VaultService.initializeVault_holdsVault (passphrase : PyStr) (coins : InitCoins) :
    HoldsVault dek file (initializeVault passphrase coins) := by
  refine Prog.Sat.bind (Keeps.look _ _).holdsVault fun found => Prog.Sat.ite (fun _ => .throw _) fun _ => ?_
  cases evaluate passphrase with
  | some issue => exact .done _
  | none =>
    refine Prog.Sat.bind (Keeps.look _ _).holdsVault fun parameters => Prog.Sat.bind (.done _) fun wrappingKey =>
      Prog.Sat.bind (encryptAesGcm_keeps fun _ _ => rfl).holdsVault fun wrapped => Prog.Sat.bind ?_ fun _ =>
        Prog.Sat.bind lockState_holdsVault fun _ => status_keeps.holdsVault
    refine saveAtomic_sat _ (fun w _ h _ => h.of_kvPart rfl) (fun w f h hf hreplaces hown => ?_) fun _ h _ _ => h
    exact ⟨by simpa using hown ⟨rfl, by simp [hf], hreplaces⟩ f hf, h.memory, h.sound, h.holds⟩

/-- **Every step of every request** keeps what is held. -/
theorem VaultRequest.exec_holdsVault (hgcm : GcmCorrect)
    (honly : ∀ passphrase data, file = .json (.obj data) → ∀ k, VaultService.unwrapDek passphrase data = .ok k → k = dek.1)
    (request : VaultRequest) : HoldsVault dek file request.exec := by
  have hlock : HoldsVault dek file VaultService.lock :=
    Prog.Sat.bind lockState_holdsVault fun _ => VaultService.status_keeps.holdsVault
  cases request with
  | kv passphrase op =>
    refine Prog.Sat.bind ?_ fun _ => .done _
    cases op with
    | write owner path data nonce => exact Prog.Sat.bind (KvService.write_holdsVault hgcm data nonce) fun _ => .done _
    | read owner path version =>
      exact Prog.Sat.bind (KvService.read_keeps owner path version).holdsVault_besideLog fun _ => .done _
    | versions owner path => exact Prog.Sat.bind (KvService.versions_keeps owner path).holdsVault_besideLog fun _ => .done _
    | delete owner path => exact Prog.Sat.bind KvService.delete_holdsVault fun _ => .done _
    | lock => exact Prog.Sat.bind hlock fun _ => .done _
    | unlock => exact Prog.Sat.bind (VaultService.unlock_holdsVault passphrase (honly passphrase)) fun _ => .done _
    | restart => exact Prog.Sat.bind VaultService.restart_holdsVault fun _ => .done _
    | tick time => exact Prog.Sat.bind (Prog.Sat.change fun w h _ => h.of_kvPart rfl) fun _ => .done _
  | vault op =>
    refine Prog.Sat.bind ?_ fun _ => .done _
    cases op with
    | initializeVault passphrase coins =>
      exact Prog.Sat.bind (VaultService.initializeVault_holdsVault passphrase coins) fun _ => .done _
    | unlock passphrase => exact Prog.Sat.bind (VaultService.unlock_holdsVault passphrase (honly passphrase)) fun _ => .done _
    | lock => exact Prog.Sat.bind hlock fun _ => .done _
    | restart => exact Prog.Sat.bind VaultService.restart_holdsVault fun _ => .done _
    | setEnviron environ => exact Prog.Sat.bind (Prog.Sat.change fun w h _ => h.of_kvPart rfl) fun _ => .done _

end Held

/-! ### One initialization -/

section Pool

variable {environ : PyStr → Option PyStr} {requests : List VaultRequest}

/-- The program of a request. -/
theorem vaultPool_procs {i : ℕ} {p : Act VaultReply} (h : (vaultPool environ requests).procs[i]? = some p) :
    ∃ request, requests[i]? = some request ∧ p = request.exec := by
  rw [vaultPool, List.getElem?_map] at h
  obtain ⟨request, hrequest, rfl⟩ := Option.map_eq_some_iff.mp h
  exact ⟨request, hrequest, rfl⟩

/-- What the requests guarantee of the configuration. -/
theorem vaultPool_sat (i : ℕ) (p : Act VaultReply) (h : (vaultPool environ requests).procs[i]? = some p) :
    p.Sat (fun _ => True) fun l w w' => (MovesConfig l w w' ∨ w'.config = w.config) ∧
      (∀ request, requests[i]? = some request → request.coins.isSome → MovesConfig l w w') := by
  obtain ⟨request, hrequest, rfl⟩ := vaultPool_procs h
  refine request.exec_movesConfig.mono (fun _ _ => trivial) fun l w w' ⟨hmoves, hinit⟩ =>
    ⟨hmoves, fun request' hrequest' hsome => ?_⟩
  obtain rfl := Option.some.inj (hrequest.symm.trans hrequest')
  exact hinit hsome

/-- Where configurations are moved only where there is none, the one there is stays. -/
theorem config_stays {before after : List ℕ} {f : ConfigFile}
    (hown : ∀ e ∈ (vaultPool environ requests).trace (before ++ after), ReplacesOwn requests e)
    (hconfig : ((vaultPool environ requests).exec before).state.config = some f) :
    ((vaultPool environ requests).exec (before ++ after)).state.config = some f := by
  rw [Config.exec_append]
  refine Config.exec_invariant (I := fun w => w.config = some f) (C := fun l w => Moves l w → w.config = none)
    (G := fun l w w' => MovesConfig l w w' ∨ w'.config = w.config) ?_ ?_ hconfig ?_
  · rintro l w w' hf (hmoves | hsame) hC
    · unfold MovesConfig at hmoves
      split_ifs at hmoves with hl
      · rw [hC hl] at hf
        cases hf
      · rw [hmoves, hf]
    · rw [hsame, hf]
  · intro p hp
    obtain ⟨i, hi⟩ := List.getElem?_of_mem hp
    exact (Config.exec_sat vaultPool_sat before i p hi).mono (fun _ _ => trivial) fun l w w' hw => hw.1
  · rintro e he ⟨hl, hsome, -⟩
    obtain ⟨g, hg⟩ := Option.ne_none_iff_exists'.mp hsome
    refine (hown e ?_ hl g hg).1
    rw [Config.trace_append]
    exact List.mem_append_right _ he

/-- A configuration that was moved into its place is the configuration from then on. -/
theorem config_moved {schedule : List ℕ}
    (hown : ∀ e ∈ (vaultPool environ requests).trace schedule, ReplacesOwn requests e) {e : Event World Label}
    (he : e ∈ (vaultPool environ requests).trace schedule) (hl : Moves e.label e.pre) {f : ConfigFile}
    (hf : f ∈ e.pre.temporary) : ((vaultPool environ requests).exec schedule).state.config = some f := by
  obtain ⟨-, passphrase, coins, hrequest, -⟩ := hown e he hl.1 f hf
  obtain ⟨before, after, rfl, hpre, -, hmoves⟩ := Config.trace_cases vaultPool_sat he
  have hafter := hmoves _ hrequest rfl
  unfold MovesConfig at hafter
  rw [if_pos hl, hf] at hafter
  rw [← List.singleton_append, ← List.append_assoc] at hown ⊢
  exact config_stays hown hafter

/-- Of a request that is an initialization. -/
theorem vaultPool_needs {i : ℕ} {passphrase : PyStr} {coins : VaultService.InitCoins}
    (hi : requests[i]? = some (.vault (.initializeVault passphrase coins))) (p : Act VaultReply)
    (hp : (vaultPool environ requests).procs[i]? = some p) : p.Needs Moves := by
  obtain ⟨request, hrequest, rfl⟩ := vaultPool_procs hp
  obtain rfl := Option.some.inj (hi.symm.trans hrequest)
  exact .bind_left (.bind_left (VaultService.initializeVault_needs passphrase coins))

/-- A call of `initialize` that has succeeded has put its own configuration into place. -/
theorem written_of_success {before after : List ℕ}
    (hown : ∀ e ∈ (vaultPool environ requests).trace (before ++ after), ReplacesOwn requests e) {i : ℕ} {passphrase : PyStr}
    {coins : VaultService.InitCoins} (hi : requests[i]? = some (.vault (.initializeVault passphrase coins)))
    {a : VaultReply} (hresult : ((vaultPool environ requests).exec before).result i = some (.ok a)) :
    ∃ file, WrittenBy passphrase coins file ∧ ((vaultPool environ requests).exec before).state.config = some file := by
  have hbefore : ∀ e ∈ (vaultPool environ requests).trace before, ReplacesOwn requests e := by
    intro e he
    apply hown e
    rw [Config.trace_append]
    exact List.mem_append_left _ he
  obtain ⟨e, he, rfl, hl⟩ := Config.needs_event (vaultPool_needs hi) hresult
  obtain ⟨file, hfile⟩ := Option.ne_none_iff_exists'.mp hl.2.1
  obtain ⟨-, passphrase', coins', hi', hwritten⟩ := hbefore e he hl.1 file hfile
  obtain ⟨rfl, rfl⟩ := VaultOp.initializeVault.inj (VaultRequest.vault.inj (Option.some.inj (hi.symm.trans hi')))
  exact ⟨file, hwritten, config_moved hbefore he hl hfile⟩

/-- An ideal cipher opens what a call of `initialize` wrapped to the key it made only, where no
two calls draw the same nonce. -/
theorem unwrapDek_only {w : World} (hsealed : ∀ s ∈ w.sealed, WrapsDrawn requests s) (hideal : IdealWrapping w)
    (hnonces : ((requests.filterMap VaultRequest.coins).map VaultService.InitCoins.nonce).Nodup)
    {coins : VaultService.InitCoins} (hcoins : coins ∈ requests.filterMap VaultRequest.coins) {passphrase : PyStr}
    {file : ConfigFile} (hwritten : WrittenBy passphrase coins file) (hconfig : w.config = some file) (Q : PyStr)
    (data : List (PyStr × Json)) (hdata : file = .json (.obj data)) (k : Bytes)
    (hopen : VaultService.unwrapDek Q data = .ok k) : k = coins.dek.1 := by
  obtain ⟨parameters, wrappingKey, encrypted, rfl, -⟩ := hwritten
  obtain rfl := Json.obj.inj (ConfigFile.json.inj hdata)
  rw [VaultService.unwrapDek_configOf_eq] at hopen
  obtain ⟨key, -, hkey⟩ := bind_eq_ok.mp hopen
  obtain ⟨coins', hcoins', hplain, hnonce⟩ := hsealed _ (hideal _ _ _ hconfig key k hkey) rfl
  have hsame : coins = coins' := List.inj_on_of_nodup_map hnonces hcoins hcoins' (Subtype.ext hnonce)
  rw [hsame]
  exact hplain

end Pool

/-- After a call of `initialize` has returned: its passphrase brings back the key it made, no other
key is in memory, and whatever is stored is sealed under that key. -/
structure Initialized (passphrase : PyStr) (dek : Key) (w : World) : Prop where
  /-- Unlocking restores the key. -/
  unlock : (VaultService.unlock passphrase).run w = (.ok ⟨true, py "unlocked"⟩, { w with dek := some dek })
  /-- There is no other in memory. -/
  memory : ∀ k ∈ w.dek, k = dek
  /-- Every version under an owner and a path is sealed data. -/
  holds : ∀ u p, ∀ row ∈ w.db.versionsAt u p, ∃ data, Holds dek u p row data

/-- **The vault is initialized at most once**: however calls of `initialize` interleave with each
other and with the other requests, if a configuration is only ever moved where there is none and by
the call that wrote it, then no two calls succeed; and once one has, the configuration stays
as it is, its passphrase restores the key the call made, and all that is stored is sealed under it. -/
theorem initialized_once (hgcm : GcmCorrect) (environ : PyStr → Option PyStr) (requests : List VaultRequest)
    (schedule : List ℕ)
    (hnonces : ((requests.filterMap VaultRequest.coins).map VaultService.InitCoins.nonce).Nodup)
    (hideal : IdealWrapping ((vaultPool environ requests).exec schedule).state)
    (hown : ∀ e ∈ (vaultPool environ requests).trace schedule, ReplacesOwn requests e) :
    (∀ i j a b passphrase coins passphrase' coins',
      requests[i]? = some (.vault (.initializeVault passphrase coins)) →
        requests[j]? = some (.vault (.initializeVault passphrase' coins')) →
          ((vaultPool environ requests).exec schedule).result i = some (.ok a) →
            ((vaultPool environ requests).exec schedule).result j = some (.ok b) → i = j) ∧
      ∀ before after i a passphrase coins, schedule = before ++ after →
        requests[i]? = some (.vault (.initializeVault passphrase coins)) →
          ((vaultPool environ requests).exec before).result i = some (.ok a) →
            ((vaultPool environ requests).exec schedule).state.config =
              ((vaultPool environ requests).exec before).state.config ∧
              Initialized passphrase coins.dek ((vaultPool environ requests).exec schedule).state := by
  refine ⟨fun i j a b passphrase coins passphrase' coins' hi hj hri hrj => ?_, ?_⟩
  · refine @Config.success_unique _ _ _ _ Moves (fun w => w.config ≠ none)
      (fun i => ∃ passphrase coins, requests[i]? = some (.vault (.initializeVault passphrase coins))) _ ?_ ?_ _ ?_
      i j a b ⟨_, _, hi⟩ ⟨_, _, hj⟩ hri hrj
    · rintro i p ⟨passphrase, coins, hi⟩ hp
      exact vaultPool_needs hi p hp
    · intro i p hp
      refine (vaultPool_sat i p hp).mono (fun _ _ => trivial) fun l w w' ⟨hmoves, hinit⟩ => ⟨?_, fun hup => ?_⟩
      · rintro ⟨passphrase, coins, hi⟩ hl
        have hmoved := hinit _ hi rfl
        unfold MovesConfig at hmoved
        rw [hmoved, if_pos hl]
        exact hl.2.1
      · obtain ⟨f, hf⟩ := Option.ne_none_iff_exists'.mp hup
        rcases hmoves with hmoves | hsame
        · unfold MovesConfig at hmoves
          rw [hmoves, hf]
          split_ifs with hl
          · exact hl.2.1
          · simp
        · rwa [hsame]
    · rintro e he ⟨hl, hsome, -⟩
      obtain ⟨f, hf⟩ := Option.ne_none_iff_exists'.mp hsome
      simpa using (hown e he hl f hf).1
  · rintro before after i a passphrase coins rfl hi hresult
    obtain ⟨file, hwritten, hbefore⟩ := written_of_success hown hi hresult
    have hconfig := config_stays hown hbefore
    refine ⟨hconfig.trans hbefore.symm, ?_⟩
    have hcoins : coins ∈ requests.filterMap VaultRequest.coins :=
      List.mem_filterMap.mpr ⟨_, List.mem_of_getElem? hi, rfl⟩
    have hsealed : ∀ s ∈ ((vaultPool environ requests).exec (before ++ after)).state.sealed, WrapsDrawn requests s := by
      refine Config.exec_invariant (I := fun w => ∀ s ∈ w.sealed, WrapsDrawn requests s)
        (C := fun _ _ => True) (G := fun _ w w' => Sealed (WrapsDrawn requests) w w') ?_ ?_ ?_ fun _ _ => trivial
      · rintro l w w' hw ⟨more, heq, hmore⟩ - s hs
        rw [heq] at hs
        exact (List.mem_append.mp hs).elim (hw s) (hmore s)
      · intro p hp
        obtain ⟨request, hrequest, rfl⟩ := List.mem_map.mp hp
        exact Prog.Sat.mono (VaultRequest.exec_seals hrequest) (fun _ _ => trivial) fun _ _ _ hw => hw
      · intro s hs
        cases hs
    have honly := unwrapDek_only hsealed hideal hnonces hcoins hwritten hconfig
    have hheld : VaultHeld coins.dek file ((vaultPool environ requests).exec (before ++ after)).state := by
      refine Config.exec_invariant (C := fun l w => Moves l w → ∀ f ∈ w.temporary, f = file)
        (G := fun l w w' => (Moves l w → ∀ f ∈ w.temporary, f = file) → VaultHeld coins.dek file w')
        (fun l w w' _ hstep hC => hstep hC) (fun p hp => ?_) ?_ fun e he hl f hf => ?_
      · obtain ⟨request, -, rfl⟩ := List.mem_map.mp hp
        exact request.exec_holdsVault hgcm honly
      · exact ⟨by simp [vaultPool, World.fresh], by simp [vaultPool, World.fresh], .fresh, fun u p row hrow => by cases hrow⟩
      · exact Option.some.inj ((config_moved hown he hl hf).symm.trans hconfig)
    obtain ⟨parameters, wrappingKey, encrypted, rfl, hderive, hlen, henc⟩ := hwritten
    exact ⟨VaultService.run_unlock_configOf hconfig hderive (hgcm.opens hlen henc), hheld.memory, hheld.holds⟩

end Initialization

/-! ### Two interleavings on the sample platform -/

section Sample

attribute [local instance] samplePlatform

/-- What another initialization draws. -/
def sampleOtherCoins : VaultService.InitCoins := ⟨⟨List.replicate 16 8, rfl⟩, sampleKey 3, sampleNonce 4⟩

/-- Two initializations, an unlocking and a write. -/
def sampleRequests : List VaultRequest :=
  [.vault (.initializeVault samplePassphrase sampleCoins), .vault (.initializeVault sampleOtherPassphrase sampleOtherCoins),
    .vault (.unlock samplePassphrase), .kv samplePassphrase (.write sampleOwner samplePath [] (sampleNonce 5))]

/-- All steps of a request and more. -/
def allSteps (i : ℕ) : List ℕ := List.replicate 10 i

/-- Both look for a configuration before one of them has written it. -/
def sampleRace : List ℕ := [0, 1] ++ allSteps 0 ++ allSteps 1

/-- The other one and the unlocking begin when the first one has moved its configuration, and before it ends. -/
def sampleBegun : List ℕ := [0, 0, 0, 0, 0, 2, 1, 0, 2, 0, 2, 0]

/-- The write begins before the unlocking ends. -/
def sampleEnded : List ℕ := [2, 2, 3, 2, 3] ++ allSteps 2 ++ allSteps 3

/-- What wraps the key of the first one. -/
def sampleInitialKey : Bytes :=
  (deriveWrappingKey samplePassphrase sampleCoins.salt (currentParameters fun _ => none)).toOption.getD []

/-- What it is wrapped to. -/
def sampleInitialWrapped : EncryptedBlob :=
  .split sampleCoins.nonce (sampleEncrypt sampleInitialKey sampleCoins.nonce sampleCoins.dek VaultService.dekWrapAad)

/-- The configuration of the first one. -/
def sampleFile : ConfigFile :=
  .json (.obj (VaultService.configOf sampleCoins.salt (currentParameters fun _ => none) sampleInitialWrapped))

theorem sampleFile_writtenBy : WrittenBy samplePassphrase sampleCoins sampleFile :=
  ⟨_, sampleInitialKey, _, rfl, by decide +kernel, by decide +kernel, rfl⟩

attribute [local irreducible] sampleInitialKey Config.exec Config.trace

/-- **Two initializations succeed**: one moves its configuration over the other's, and the passphrase of the one that
was first unlocks the vault no more. -/
theorem initialized_twice_sample :
    (¬ ∀ i j a b, ((vaultPool (fun _ => none) sampleRequests).exec sampleRace).result i = some (.ok a) →
      ((vaultPool (fun _ => none) sampleRequests).exec sampleRace).result j = some (.ok b) → i = j) ∧
      ((VaultService.unlock samplePassphrase).run ((vaultPool (fun _ => none) sampleRequests).exec sampleRace).state).1 =
        .error .invalidMasterPassphraseError := by
  have hlocked : ∀ i ∈ [0, 1], ((vaultPool (fun _ => none) sampleRequests).exec sampleRace).result i =
      some (.ok (.vault (.status ⟨true, py "locked"⟩))) := by decide +kernel
  refine ⟨fun honce => ?_, by decide +kernel⟩
  exact absurd (honce 0 1 _ _ (hlocked 0 (by simp)) (hlocked 1 (by simp))) (by decide)

/-- Where the other one begins after the first one has moved its configuration, what is said of the first one holds. -/
theorem initialized_once_sample :
    ((vaultPool (fun _ => none) sampleRequests).exec (sampleBegun ++ sampleEnded)).result 1 =
      some (.error .vaultAlreadyInitializedError) ∧
      Initialized samplePassphrase sampleCoins.dek
        ((vaultPool (fun _ => none) sampleRequests).exec (sampleBegun ++ sampleEnded)).state := by
  have hreplaced : ∀ e ∈ (vaultPool (fun _ => none) sampleRequests).trace (sampleBegun ++ sampleEnded), e.label = .replace →
      e.proc = 0 ∧ e.pre.config = none ∧ e.pre.temporary = some sampleFile := by decide +kernel
  have hfile : ((vaultPool (fun _ => none) sampleRequests).exec (sampleBegun ++ sampleEnded)).state.config =
      some sampleFile := by
    decide +kernel
  have hsealed : ⟨sampleInitialKey, VaultService.dekWrapAad, sampleCoins.dek.1, sampleInitialWrapped⟩ ∈
      ((vaultPool (fun _ => none) sampleRequests).exec (sampleBegun ++ sampleEnded)).state.sealed := by decide +kernel
  have hresult : ((vaultPool (fun _ => none) sampleRequests).exec sampleBegun).result 0 =
      some (.ok (.vault (.status ⟨true, py "locked"⟩))) := by decide +kernel
  have hideal : @IdealWrapping samplePlatform
      ((vaultPool (fun _ => none) sampleRequests).exec (sampleBegun ++ sampleEnded)).state := by
    intro salt parameters wrapped hconfig key
    rw [hfile] at hconfig
    obtain ⟨-, -, rfl⟩ := VaultService.configOf_inj (Json.obj.inj (ConfigFile.json.inj (Option.some.inj hconfig)))
    exact samplePlatform_opensOnly _ _ _ hsealed key _
  have hown : ∀ e ∈ (vaultPool (fun _ => none) sampleRequests).trace (sampleBegun ++ sampleEnded), ReplacesOwn sampleRequests e := by
    intro e he hl file hfile
    obtain ⟨hproc, hnone, hwritten⟩ := hreplaced e he hl
    rw [hwritten] at hfile
    obtain rfl := Option.some.inj hfile
    exact ⟨hnone, samplePassphrase, sampleCoins, by rw [hproc]; rfl, sampleFile_writtenBy⟩
  refine ⟨by decide +kernel, ?_⟩
  exact ((initialized_once samplePlatform_gcmCorrect (fun _ => none) sampleRequests (sampleBegun ++ sampleEnded)
    (by decide +kernel) hideal hown).2 sampleBegun sampleEnded 0 _ _ _ rfl rfl hresult).2

end Sample

end MiniVault
