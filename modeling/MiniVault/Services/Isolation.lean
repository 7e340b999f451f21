import MiniVault.Services.Noninterference

/-!
# Users do not interfere

What one user is answered by the services does not depend on what the others do, whatever
the order in which the steps of all their requests come.

## The model

* `AppOp.answer` — an operation of the program with what it answers.
* `AppOp.Concerns u` — the operations of the user on the two services, and what is of all
  users: the vault, and the clock.
* `AppOp.Modest` — an operation without a long text. The numbers in a row are longer in a fuller
  database, so that a row at the limit of SQLite may be refused there only.

## What is proved

* `AppOp.answer_alike` — what concerns the user acts alike in worlds that are the same for the
  user.
* `AppOp.answer_aside` — what does not leaves worlds the same for the user.
* `isolation` — in every interleaving the user is answered, and the vault answers, as in the
  interleaving that is left without all other requests.
-/

namespace MiniVault

open Foundations

/-! ### The operations -/

/-- What an operation of the program answers. -/
inductive AppAnswer where
  /-- Of the vault. -/
  | vault (a : VaultAnswer)
  /-- Of the services. -/
  | service (a : ServiceAnswer)
  /-- Of the accounts. -/
  | auth (a : AuthReply)
  /-- Who a token is of. -/
  | currentUser (user : AuthenticatedUser)
  /-- Entries of the log. -/
  | entries (rows : List AuditLog)
  /-- What a verification reports. -/
  | report (r : Report)

/-- An operation with its answer. -/
def AppOp.answer [Platform] : AppOp → Act AppAnswer
  | .vault op => do return .vault (← op.exec)
  | .service passphrase op => do return .service (← op.exec passphrase)
  | .auth op => do return .auth (← op.exec)
  | .currentUser credentials => do return .currentUser (← getCurrentUser credentials)
  | .listAudit requesterEmail limit => do return .entries (← AuditRepository.listForRequester requesterEmail limit)
  | .verifyAudit => do return .report (← AuditRepository.verify)

/-- The operation is the user's own, or of all users. -/
def AppOp.Concerns (u : PyStr) : AppOp → Prop
  | .vault _ => True
  | .service _ (.kv op) => ∀ owner ∈ op.requester, owner = u
  | .service _ (.transit op) => ∀ owner ∈ op.requester, owner = u
  | .auth (.advance _) => True
  | _ => False

instance (u : PyStr) : DecidablePred (AppOp.Concerns u) := fun op =>
  match op with
  | .vault _ => .isTrue trivial
  | .service _ (.kv op) => inferInstanceAs (Decidable (∀ owner ∈ op.requester, owner = u))
  | .service _ (.transit op) => inferInstanceAs (Decidable (∀ owner ∈ op.requester, owner = u))
  | .auth (.advance _) => .isTrue trivial
  | .auth (.register ..) => .isFalse id
  | .auth (.login ..) => .isFalse id
  | .auth (.logout _) => .isFalse id
  | .currentUser _ => .isFalse id
  | .listAudit .. => .isFalse id
  | .verifyAudit => .isFalse id

/-- Neither the path nor what the data is encrypted to is long. -/
def KvOp.Modest [Platform] : KvOp → Prop
  | .write _ path data nonce => Short path ∧ KvService.ShortData data nonce
  | .read _ path _ => Short path
  | .versions _ path => Short path
  | .delete _ path => Short path
  | _ => True

/-- No text of the operation is long. The names of keys never are. -/
def AppOp.Modest [Platform] : AppOp → Prop
  | .service _ (.kv op) => op.Modest
  | _ => True

/-- The operations in the midst of each other. -/
def answers [Platform] (w : World) (ops : List AppOp) : Config World Label Exc AppAnswer := ⟨w, ops.map AppOp.answer⟩

/-- A turn is that of an operation that concerns the user. -/
def Concerning (u : PyStr) (ops : List AppOp) (x : ℕ) : Prop := ∀ op ∈ ops[x]?, op.Concerns u

instance (u : PyStr) (ops : List AppOp) : DecidablePred (Concerning u ops) := fun x =>
  inferInstanceAs (Decidable (∀ op ∈ ops[x]?, op.Concerns u))

section Isolation

variable [Platform] {u : PyStr} {i : Links}

/-! ### What is of all users -/

omit [Platform] in
/-- What is common is the same in each of its parts. -/
theorem common_eq_iff {s t : World} : s.common = t.common ↔ s.dek = t.dek ∧ s.config = t.config ∧
    s.temporary = t.temporary ∧ s.environ = t.environ ∧ s.clock = t.clock ∧ s.configPath = t.configPath := by
  simp only [World.common, Prod.mk.injEq]

theorem configExists_alike : configExists.Alike (Related u) (fun _ a b => a = b) configExists i := by
  apply look_alike
  intro s t h
  rw [(common_eq_iff.mp h).2.1]

theorem lockState_alike : lockState.Alike (Related u) (fun _ a b => a = b) lockState i := by
  refine change_alike (fun s t h => ?_) fun _ => rfl
  obtain ⟨-, hrest⟩ := common_eq_iff.mp h
  exact common_eq_iff.mpr ⟨rfl, hrest⟩

theorem VaultService.restart_alike : restart.Alike (Related u) (fun _ a b => a = b) restart i := by
  refine change_alike (fun s t h => ?_) fun _ => rfl
  obtain ⟨-, hrest⟩ := common_eq_iff.mp h
  exact common_eq_iff.mpr ⟨rfl, hrest⟩

theorem configLoad_alike : configLoad.Alike (Related u) (fun _ a b => a = b) configLoad i := by
  refine .bind configExists_alike fun _ found found' _ hfound => ?_
  subst hfound
  refine .ite (fun _ => .throw _) fun _ => look_alike fun s t h => ?_
  rw [(common_eq_iff.mp h).2.1]

/-- The temporary file is the same in both, or missing in both. -/
theorem replaceConfig_alike : replaceConfig.Alike (Related u) (fun _ a b => a = b) replaceConfig i := by
  refine .attempt (fun h => h.of_succ) fun j n s t _ hR => ?_
  obtain ⟨hdek, -, htemporary, henviron, hclock, hpath⟩ := common_eq_iff.mp hR.tied.common
  rw [← htemporary, ← hpath]
  cases s.temporary with
  | none => exact .inr ⟨_, rfl, rfl⟩
  | some file =>
    by_cases hreplaces : Platform.replaces s.configPath = true
    · refine .inl ⟨_, _, _, _, if_pos hreplaces, if_pos hreplaces, rfl, hR.of_succ.of_db ?_ rfl rfl⟩
      exact common_eq_iff.mpr ⟨hdek, rfl, rfl, henviron, hclock, rfl⟩
    · exact .inr ⟨_, if_neg hreplaces, if_neg hreplaces⟩

/-- The temporary file is written in both or in neither. -/
theorem writeTemporary_alike (data : List (PyStr × Json)) :
    (writeTemporary data).Alike (Related u) (fun _ a b => a = b) (writeTemporary data) i := by
  refine .attempt (fun h => h.of_succ) fun j n s t _ hR => ?_
  obtain ⟨hdek, hconfig, htemporary, henviron, hclock, hpath⟩ := common_eq_iff.mp hR.tied.common
  rw [← hpath]
  rcases Platform.makeParent s.configPath with e | v
  · exact .inr ⟨e, rfl, rfl⟩
  rcases hname : temporaryName s.configPath with e | name
  · exact .inr ⟨e, rfl, rfl⟩
  simp only [ok_bind]
  by_cases hwrites : Platform.writesBeside s.configPath name = true
  · refine .inl ⟨_, _, _, _, if_pos hwrites, if_pos hwrites, rfl, hR.of_succ.of_db ?_ rfl rfl⟩
    exact common_eq_iff.mpr ⟨hdek, hconfig, rfl, henviron, hclock, rfl⟩
  · exact .inl ⟨_, _, _, _, if_neg hwrites, if_neg hwrites, rfl, hR.of_succ.of_db (common_eq_iff.mpr
      ⟨hdek, hconfig, htemporary, henviron, hclock, hpath⟩) rfl rfl⟩

theorem saveAtomic_alike (data : List (PyStr × Json)) :
    (saveAtomic data).Alike (Related u) (fun _ a b => a = b) (saveAtomic data) i := by
  have hremove : ∀ {j : Links}, (Prog.change .file fun w => { w with temporary := none } : Act Unit).Alike
      (Related u) (fun _ a b => a = b) (Prog.change .file fun w => { w with temporary := none }) j := by
    intro j
    refine change_alike (fun s t h => ?_) fun _ => rfl
    obtain ⟨hdek, hconfig, -, hrest⟩ := common_eq_iff.mp h
    exact common_eq_iff.mpr ⟨hdek, hconfig, rfl, hrest⟩
  refine .bind (writeTemporary_alike data) fun _ written written' _ hwritten => ?_
  subst hwritten
  exact .handle (.ite (fun _ => replaceConfig_alike) fun _ => .throw _) fun _ _ _ => .bind hremove fun _ _ _ _ _ => .throw _

namespace VaultService

theorem status_alike : status.Alike (Related u) (fun _ a b => a = b) status i := by
  refine .bind configExists_alike fun _ found found' _ hfound => ?_
  subst hfound
  cases found with
  | false => exact .pure rfl
  | true =>
    refine .bind (V := fun _ a b => a = b) (look_alike fun s t h => ?_) fun _ a b _ hab => .pure ?_
    · rw [(common_eq_iff.mp h).1]
    · rw [hab]

theorem lock_alike : lock.Alike (Related u) (fun _ a b => a = b) lock i :=
  .bind lockState_alike fun _ _ _ _ _ => status_alike

theorem loadAndValidateConfig_alike :
    loadAndValidateConfig.Alike (Related u) (fun _ a b => a = b) loadAndValidateConfig i := by
  refine .bind configLoad_alike fun _ config config' _ hconfig => ?_
  subst hconfig
  refine .ite (fun _ => .throw _) fun _ => .bind done_alike fun _ version version' _ hversion => ?_
  subst hversion
  refine .bind done_alike fun _ kdf kdf' _ hkdf => ?_
  subst hkdf
  exact .ite (fun _ => .throw _) fun _ => .pure rfl

theorem unlock_alike (passphrase : PyStr) :
    (unlock passphrase).Alike (Related u) (fun _ a b => a = b) (unlock passphrase) i := by
  refine .bind configExists_alike fun _ found found' _ hfound => ?_
  subst hfound
  refine .ite (fun _ => .throw _) fun _ => .bind lockState_alike fun _ _ _ _ _ =>
    .bind loadAndValidateConfig_alike fun _ config config' _ hconfig => ?_
  subst hconfig
  refine .bind done_alike fun _ dek dek' _ hdek => ?_
  subst hdek
  split_ifs with hlen
  · refine .bind (change_alike (fun s t h => ?_) fun _ => rfl) fun _ _ _ _ _ => status_alike
    obtain ⟨-, hrest⟩ := common_eq_iff.mp h
    exact common_eq_iff.mpr ⟨rfl, hrest⟩
  · exact .throw _

theorem initializeVault_alike (passphrase : PyStr) (coins : InitCoins) :
    (initializeVault passphrase coins).Alike (Related u) (fun _ a b => a = b) (initializeVault passphrase coins) i := by
  refine .bind configExists_alike fun _ found found' _ hfound => ?_
  subst hfound
  refine .ite (fun _ => .throw _) fun _ => ?_
  cases evaluate passphrase with
  | some issue => exact .throw _
  | none =>
    refine .bind (V := fun _ a b => a = b) (look_alike fun s t h => ?_) fun _ parameters parameters' _ hparameters => ?_
    · rw [(common_eq_iff.mp h).2.2.2.1]
    · subst hparameters
      refine .bind done_alike fun _ wrappingKey wrappingKey' _ hkey => ?_
      subst hkey
      refine .bind encryptAesGcm_alike fun _ wrapped wrapped' _ hwrapped => ?_
      subst hwrapped
      exact .bind (saveAtomic_alike _) fun _ _ _ _ _ => .bind lockState_alike fun _ _ _ _ _ => status_alike

end VaultService

/-! ### What concerns the user -/

/-- What is made of an answer is the same of the same. -/
theorem answered_alike {α β : Type} {p : Act α} (f : α → β) (h : p.Alike (Related u) (fun _ a b => a = b) p i) :
    (p >>= fun a => (pure (f a) : Act β)).Alike (Related u) (fun _ a b => a = b) (p >>= fun a => pure (f a)) i :=
  .bind h fun _ _ _ _ hab => .pure (congrArg f hab)

/-- The clock is set in both. -/
theorem setClock_alike {α : Type} {f : ℕ → ℕ} {a : α} :
    (do Prog.change .clock fun w => { w with clock := f w.clock }
        return a : Act α).Alike (Related u) (fun _ a b => a = b)
      (do Prog.change .clock fun w => { w with clock := f w.clock }
          return a) i := by
  refine .bind (change_alike (fun s t h => ?_) fun _ => rfl) fun _ _ _ _ _ => .pure rfl
  obtain ⟨hdek, hconfig, htemporary, henviron, hclock, hpath⟩ := common_eq_iff.mp h
  exact common_eq_iff.mpr ⟨hdek, hconfig, htemporary, henviron, congrArg f hclock, hpath⟩

/-- **The vault answers alike.** -/
theorem VaultOp.exec_alike (op : VaultOp) : op.exec.Alike (Related u) (fun _ a b => a = b) op.exec i := by
  cases op with
  | initializeVault passphrase coins => exact answered_alike _ (VaultService.initializeVault_alike _ _)
  | unlock passphrase => exact answered_alike _ (VaultService.unlock_alike _)
  | lock => exact answered_alike _ VaultService.lock_alike
  | restart => exact .bind VaultService.restart_alike fun _ _ _ _ _ => .pure rfl
  | setEnviron environ =>
    refine .bind (change_alike (fun s t h => ?_) fun _ => rfl) fun _ _ _ _ _ => .pure rfl
    obtain ⟨hdek, hconfig, htemporary, -, hclock⟩ := common_eq_iff.mp h
    exact common_eq_iff.mpr ⟨hdek, hconfig, htemporary, rfl, hclock⟩

/-- **The key-value store answers the user alike.** -/
theorem KvOp.exec_alike (hu : Short u) (passphrase : PyStr) {op : KvOp} (h : ∀ owner ∈ op.requester, owner = u)
    (hmodest : op.Modest) : (op.exec passphrase).Alike (Related u) (fun _ a b => a = b) (op.exec passphrase) i := by
  cases op with
  | write owner path data nonce =>
    obtain rfl := h owner rfl
    exact answered_alike _ (KvService.write_alike hu hmodest.1 hmodest.2)
  | read owner path version =>
    obtain rfl := h owner rfl
    exact answered_alike _ (KvService.read_alike hu hmodest _)
  | versions owner path =>
    obtain rfl := h owner rfl
    exact answered_alike _ (KvService.versions_alike hu hmodest)
  | delete owner path =>
    obtain rfl := h owner rfl
    exact .bind (KvService.delete_alike hu hmodest) fun _ _ _ _ _ => .pure rfl
  | lock => exact answered_alike _ VaultService.lock_alike
  | unlock => exact answered_alike _ (VaultService.unlock_alike _)
  | restart => exact .bind VaultService.restart_alike fun _ _ _ _ _ => .pure rfl
  | tick time => exact setClock_alike (f := fun _ => time)

/-- **The named keys answer the user alike.** -/
theorem TransitOp.exec_alike (hu : Short u) (passphrase : PyStr) {op : TransitOp} (h : ∀ owner ∈ op.requester, owner = u) :
    (op.exec passphrase).Alike (Related u) (fun _ a b => a = b) (op.exec passphrase) i := by
  cases op with
  | createKey owner name coins =>
    obtain rfl := h owner rfl
    exact answered_alike _ (TransitService.createKey_alike _ _)
  | createSigningKey owner name algorithm coins =>
    obtain rfl := h owner rfl
    exact answered_alike _ (TransitService.createSigningKey_alike _ _ _)
  | rotateKey owner name coins =>
    obtain rfl := h owner rfl
    exact answered_alike _ (TransitService.rotateKey_alike hu _ _)
  | deleteKey owner name =>
    obtain rfl := h owner rfl
    exact answered_alike _ (TransitService.deleteKey_alike hu _)
  | listKeys owner =>
    obtain rfl := h owner rfl
    exact answered_alike _ TransitService.listKeys_alike
  | encrypt owner name plaintext nonce =>
    obtain rfl := h owner rfl
    exact answered_alike _ (TransitService.encrypt_alike hu _ _ _)
  | decrypt owner ciphertext =>
    obtain rfl := h owner rfl
    exact answered_alike _ (TransitService.decrypt_alike hu _)
  | sign owner name message type algorithm =>
    obtain rfl := h owner rfl
    exact answered_alike _ (TransitService.sign_alike hu _ _ _ _)
  | verify owner name message type signature algorithm version =>
    obtain rfl := h owner rfl
    exact answered_alike _ (TransitService.verify_alike hu _ _ _ _ _ _)
  | lock => exact answered_alike _ VaultService.lock_alike
  | unlock => exact answered_alike _ (VaultService.unlock_alike _)
  | restart => exact .bind VaultService.restart_alike fun _ _ _ _ _ => .pure rfl
  | tick time => exact setClock_alike (f := fun _ => time)

/-- **What concerns the user acts alike** in worlds that are the same for the user. -/
theorem AppOp.answer_alike (hu : Short u) {op : AppOp} (h : op.Concerns u) (hmodest : op.Modest) :
    op.answer.Alike (Related u) (fun _ a b => a = b) op.answer i := by
  cases op with
  | vault op => exact answered_alike _ op.exec_alike
  | service passphrase op =>
    cases op with
    | kv op => exact answered_alike _ (answered_alike _ (op.exec_alike hu passphrase h hmodest))
    | transit op => exact answered_alike _ (answered_alike _ (op.exec_alike hu passphrase h))
  | auth op =>
    cases op with
    | advance time => exact answered_alike _ (setClock_alike (f := fun clock => clock + time))
    | _ => exact h.elim
  | _ => exact h.elim

/-! ### What does not -/

omit [Platform] in
theorem common_beside : BesideAccounts World.common := ⟨fun _ _ _ => rfl, fun _ _ h => h, fun _ _ => rfl⟩

/-- An operation on a path leaves what is common. -/
theorem KvOp.exec_keepsCommon (passphrase : PyStr) {op : KvOp} {owner : PyStr} (h : op.requester = some owner) :
    Keeps World.common (op.exec passphrase) := by
  cases op with
  | write o path data nonce => exact .bind (KvService.write_keeps _ _ _ _ fun _ _ _ => rfl) fun _ => .pure _
  | read o path version => exact .bind ((KvService.read_keeps _ _ _).aside fun _ => rfl) fun _ => .pure _
  | versions o path => exact .bind ((KvService.versions_keeps _ _).aside fun _ => rfl) fun _ => .pure _
  | delete o path => exact .bind (KvService.delete_keeps _ _ fun _ _ => rfl) fun _ => .pure _
  | _ => cases h

omit [Platform] in
theorem common_of_besideStores {w w' : World} (h : w'.besideStores = w.besideStores) : w'.common = w.common := by
  have hcommon : w'.besideStores.common = w.besideStores.common := by rw [h]
  exact hcommon

/-- An operation on a key leaves what is common. -/
theorem TransitOp.exec_keepsCommon (passphrase : PyStr) {op : TransitOp} {owner : PyStr} (h : op.requester = some owner) :
    Keeps World.common (op.exec passphrase) := by
  cases op with
  | createKey o name coins =>
    exact .bind ((TransitService.createKey_keeps _ _ _).weaken common_of_besideStores) fun _ => .pure _
  | createSigningKey o name algorithm coins =>
    exact .bind ((TransitService.createSigningKey_keeps _ _ _ _).weaken common_of_besideStores) fun _ => .pure _
  | rotateKey o name coins =>
    exact .bind ((TransitService.rotateKey_keeps _ _ _).weaken common_of_besideStores) fun _ => .pure _
  | deleteKey o name =>
    exact .bind ((TransitService.deleteKey_keeps _ _).weaken common_of_besideStores) fun _ => .pure _
  | listKeys o => exact .bind (TransitService.listKeys_keeps _) fun _ => .pure _
  | encrypt o name plaintext nonce =>
    exact .bind (TransitService.encrypt_keeps _ _ _ _ (fun _ => rfl) fun _ _ => rfl) fun _ => .pure _
  | decrypt o ciphertext => exact .bind ((TransitService.decrypt_keeps _ _).aside fun _ => rfl) fun _ => .pure _
  | sign o name message type algorithm =>
    exact .bind (TransitService.sign_keeps _ _ _ _ _ (fun _ => rfl) fun _ _ => rfl) fun _ => .pure _
  | verify o name message type signature algorithm version =>
    exact .bind ((TransitService.verify_keeps _ _ _ _ _ _ _).aside fun _ => rfl) fun _ => .pure _
  | _ => cases h

/-- **What does not concern the user leaves what is common.** -/
theorem AppOp.exec_keepsCommon {op : AppOp} (h : ¬ op.Concerns u) : Keeps World.common op.exec := by
  have hrequester : ∀ {requester : Option PyStr}, ¬ (∀ owner ∈ requester, owner = u) → ∃ owner, requester = some owner := by
    intro requester hne
    cases requester with
    | none => exact absurd (fun owner howner => by cases howner) hne
    | some owner => exact ⟨owner, rfl⟩
  cases op with
  | vault op => exact absurd trivial h
  | service passphrase op =>
    cases op with
    | kv op =>
      obtain ⟨owner, howner⟩ := hrequester h
      exact .bind (.bind (op.exec_keepsCommon passphrase howner) fun _ => .pure _) fun _ => .pure _
    | transit op =>
      obtain ⟨owner, howner⟩ := hrequester h
      exact .bind (.bind (op.exec_keepsCommon passphrase howner) fun _ => .pure _) fun _ => .pure _
  | auth op =>
    cases op with
    | register email passphrase confirmPassphrase salt =>
      exact .bind (.bind (AuthService.register_keeps common_beside _ _ _ _) fun _ => .pure _) fun _ => .pure _
    | login email passphrase coins =>
      exact .bind (.bind (AuthService.login_keeps common_beside _ _ _) fun _ => .pure _) fun _ => .pure _
    | logout token => exact .bind (.bind (AuthService.logout_keeps common_beside _) fun _ => .pure _) fun _ => .pure _
    | advance time => exact absurd trivial h
  | currentUser credentials => exact .bind (getCurrentUser_keeps _) fun _ => .pure _
  | listAudit requesterEmail limit => exact .bind TransitService.reads_keep fun _ => .pure _
  | verifyAudit =>
    exact .bind (.bind TransitService.reads_keep fun rows => .bind (.bind TransitService.reads_keep fun row => .pure _)
      fun stored => .done _) fun _ => .pure _

/-- The answer is what is left out of the program alone. -/
theorem AppOp.exec_eq_answer (op : AppOp) : op.exec = op.answer >>= fun _ => pure () := by
  cases op with
  | vault op => exact (Prog.bind_assoc op.exec (fun a => pure (AppAnswer.vault a)) fun _ => pure ()).symm
  | service passphrase op =>
    exact (Prog.bind_assoc (op.exec passphrase) (fun a => pure (AppAnswer.service a)) fun _ => pure ()).symm
  | auth op => exact (Prog.bind_assoc op.exec (fun a => pure (AppAnswer.auth a)) fun _ => pure ()).symm
  | currentUser credentials =>
    exact (Prog.bind_assoc (getCurrentUser credentials) (fun a => pure (AppAnswer.currentUser a)) fun _ => pure ()).symm
  | listAudit requesterEmail limit =>
    exact (Prog.bind_assoc (AuditRepository.listForRequester requesterEmail limit) (fun a => pure (AppAnswer.entries a))
      fun _ => pure ()).symm
  | verifyAudit => exact (Prog.bind_assoc AuditRepository.verify (fun a => pure (AppAnswer.report a)) fun _ => pure ()).symm

/-- **What does not concern the user leaves worlds the same for the user.** -/
theorem AppOp.answer_aside {op : AppOp} (h : ¬ op.Concerns u) : op.answer.Aside (Related u) := by
  suffices hexec : op.exec.Aside (Related u) by
    unfold Prog.Aside at hexec
    rw [op.exec_eq_answer] at hexec
    exact hexec.of_bind
  have hcommon := op.exec_keepsCommon h
  cases hrequester : op.requester with
  | none =>
    refine (hcommon.both (op.exec_besideAccounts hrequester)).mono (fun _ _ => ⟨trivial, trivial⟩) ?_
    rintro l s s' ⟨hsame, hbeside⟩ i n t hR
    exact hR.of_succ.of_besideAccounts hsame hbeside
  | some owner =>
    have hne : owner ≠ u := by
      rintro rfl
      apply h
      cases op with
      | service passphrase op =>
        cases op <;> exact fun o ho => Option.some.inj (ho.symm.trans hrequester)
      | _ => cases hrequester
    refine (hcommon.both (op.exec_changes hrequester)).mono (fun _ _ => ⟨trivial, trivial⟩) ?_
    rintro l s s' ⟨hsame, hbeside | hchange⟩ i n t hR
    · exact hR.of_succ.of_besideAccounts hsame hbeside
    · exact hR.aside hsame hchange hne

/-! ### All operations -/

/-- **A user is answered by the services as if the others were not there**, and so is whoever asks the vault: in every
interleaving, an operation that concerns the user is answered as in the one that is left without the turns of all that
does not, where the schedule is shorter than there are identifiers and the texts of the user are not long. -/
theorem isolation {u : PyStr} (hu : Short u) (environ : PyStr → Option PyStr) {ops : List AppOp}
    (hmodest : ∀ op ∈ ops, op.Concerns u → op.Modest) (sched : List ℕ) (hroom : sched.length < 2 ^ 63) {x : ℕ}
    (hx : Concerning u ops x) :
    ((answers (.fresh environ) ops).exec sched).result x =
      ((answers (.fresh environ) ops).exec (sched.filter (Concerning u ops))).result x := by
  have hop : ∀ {y : ℕ} {p : Act AppAnswer}, (answers (.fresh environ) ops).procs[y]? = some p →
      ∃ op, ops[y]? = some op ∧ op.answer = p := fun hp => by
    simpa only [answers, List.getElem?_map, Option.map_eq_some_iff] using hp
  have halike : (answers (.fresh environ) ops).Alike (Related u) (Concerning u ops) (fun _ _ => False, fun _ _ => False)
      (answers (.fresh environ) ops) := by
    refine ⟨rfl, fun y hy p q hp hq => ?_, fun y hy p hp => ?_⟩
    · obtain ⟨op, hget, rfl⟩ := hop hp
      obtain rfl := Option.some.inj (hp.symm.trans hq)
      exact op.answer_alike hu (hy op hget) (hmodest op (List.mem_of_getElem? hget) (hy op hget))
    · obtain ⟨op, hget, rfl⟩ := hop hp
      refine op.answer_aside fun hconcerns => hy fun o ho => ?_
      obtain rfl := Option.some.inj (hget.symm.trans ho)
      exact hconcerns
  exact Config.exec_alike (fun h => h.of_succ) sched halike (.fresh environ hroom) hx

end Isolation

/-! ### An example -/

section Sample

attribute [local instance] limitedPlatform

/-- A user writes on a vault that has been unlocked; somebody else is refused, and the log is verified. -/
def sampleNeighbours : List AppOp :=
  [.vault (.initializeVault samplePassphrase sampleCoins), .vault (.unlock samplePassphrase),
    .service samplePassphrase (.kv (.write sampleOwner samplePath [] (sampleNonce 1))),
    .service samplePassphrase (.kv (.delete (py "mallory@example.com") samplePath)), .verifyAudit]

/-- The turns of the last two come between those of the write. -/
def sampleTurns : List ℕ := [0, 0, 0, 0, 0, 0, 0, 0, 1, 1, 3, 1, 1, 1, 1, 1, 2, 3, 2, 4, 2, 4, 2]

attribute [local irreducible] Config.exec

/-- They are left out. -/
theorem isolation_sample :
    ((answers (.fresh fun _ => none) sampleNeighbours).exec sampleTurns).result 2 =
      ((answers (.fresh fun _ => none) sampleNeighbours).exec
        [0, 0, 0, 0, 0, 0, 0, 0, 1, 1, 1, 1, 1, 1, 1, 2, 2, 2, 2]).result 2 := by
  have hmodest : ∀ op ∈ sampleNeighbours, op.Concerns sampleOwner → op.Modest := by
    simp only [sampleNeighbours, List.mem_cons, List.not_mem_nil, or_false]
    rintro op (rfl | rfl | rfl | rfl | rfl) -
    · trivial
    · trivial
    · refine ⟨by decide +kernel, fun dek plaintext associatedData encrypted hdata henc => ?_⟩
      obtain rfl := Except.ok.inj (hdata.symm.trans (show KvService.encodeData [] = .ok [123, 125] by decide +kernel))
      change (if _ then _ else _) = _ at henc
      split_ifs at henc
      obtain rfl := Except.ok.inj henc
      decide
    · exact (by decide +kernel : Short samplePath)
    · trivial
  have h := isolation (by decide +kernel) (fun _ => none) hmodest sampleTurns (by decide)
    (by decide +kernel : Concerning sampleOwner sampleNeighbours 2)
  have hturns : sampleTurns.filter (Concerning sampleOwner sampleNeighbours) =
      [0, 0, 0, 0, 0, 0, 0, 0, 1, 1, 1, 1, 1, 1, 1, 2, 2, 2, 2] := by
    decide +kernel
  rwa [hturns] at h

end Sample

end MiniVault
