import MiniVault.Foundations.Withdrawal
import MiniVault.Services.Interleavings

/-!
# Operations that fail

The vault may be locked at any time, also in the midst of an operation that has found it
unlocked. An operation of the services then ends as it would have without that, or raises
`VaultLockedError` and has stored nothing.

## The model

* `withoutKey` — the world after the key was taken out of memory. One operation and any
  number of calls of `lock` run by any schedule (`lockings`).

## What is proved

* `lock_all_or_nothing` — the operation does what it does alone, or fails because of the
  lock and leaves the database.
* `failure_leaves_stores` — where it fails, for whatever reason, the tables of both services
  are as they were, and the log has grown by the entry of its denial or not at all.
-/

namespace MiniVault

open Foundations

/-- The world without the key in memory. -/
def withoutKey (w : World) : World := { w with dek := none }

theorem withoutKey_idem (w : World) : withoutKey (withoutKey w) = withoutKey w := rfl

/-- The program does not look for the key. -/
def KeyBlind {α : Type} (p : Act α) : Prop := p.Blind withoutKey

/-- Whenever the vault is locked, the program does all it does alone or fails and leaves the database. -/
def LockProof {α : Type} (p : Act α) : Prop := p.AllOrNothing withoutKey .vaultLockedError World.db

section Steps

variable {α β : Type}

theorem KeyBlind.done (r : Except Exc α) : KeyBlind (Prog.done r) := Prog.Blind.done r

theorem KeyBlind.pure (a : α) : KeyBlind (pure a : Act α) := .done _

theorem KeyBlind.throw (e : Exc) : KeyBlind (throw e : Act α) := .done _

theorem KeyBlind.bind {p : Act α} {g : α → Act β} (hp : KeyBlind p) (hg : ∀ a, KeyBlind (g a)) : KeyBlind (p >>= g) :=
  Prog.Blind.bind hp hg

theorem KeyBlind.ite {c : Prop} [Decidable c] {p q : Act α} (hp : KeyBlind p) (hq : KeyBlind q) :
    KeyBlind (if c then p else q) :=
  Prog.Blind.ite hp hq

theorem KeyBlind.query (params : List Value) {cells : α → List Value} (g : Database → α) : KeyBlind (query params cells g) :=
  Prog.Blind.look fun _ => rfl

theorem KeyBlind.execute (params : List Value) (g : Database → Except Exc (α × Database)) : KeyBlind (execute params g) := by
  refine Prog.Blind.atom (fun w => ?_) (fun w => congrArg Prog.done ?_) fun _ => .done _ <;> simp only [withoutKey] <;>
    rcases bindAll params with e | u <;> try rfl
  all_goals rcases hg : g w.db with e | ⟨a, db⟩ <;> rfl

theorem KeyBlind.connection {label : Label} {body : Act α} (hb : KeyBlind body) : KeyBlind (connection label body) :=
  Prog.Blind.atomic hb fun _ _ => rfl

theorem KeyBlind.now : KeyBlind now := Prog.Blind.look fun _ => rfl

theorem KeyBlind.mapExc {caught : Exc → Bool} {e : Exc} {p : Act α} (hp : KeyBlind p) : KeyBlind (mapExc caught e p) :=
  Prog.Blind.handle hp fun _ => .ite (.throw _) (.throw _)

theorem KeyBlind.lockProof {p : Act α} (h : KeyBlind p) : LockProof p := Prog.Blind.allOrNothing withoutKey_idem h

theorem LockProof.done (r : Except Exc α) : LockProof (Prog.done r) := KeyBlind.lockProof (.done r)

/-- A look for the key. -/
theorem LockProof.getDek : LockProof getDek :=
  Prog.AllOrNothing.look (δ := withoutKey) (f := World.db) (fun _ => rfl) fun _ => rfl

/-- What follows a program that leaves the database where it succeeds. -/
theorem LockProof.bind {p : Act α} {g : α → Act β} (hp : LockProof p)
    (hkeep : ∀ w a w', p.run w = (.ok a, w') → w'.db = w.db) (hg : ∀ a, LockProof (g a)) : LockProof (p >>= g) :=
  Prog.AllOrNothing.bind withoutKey_idem hp hkeep hg

/-- What follows a program that leaves the database. -/
theorem LockProof.after {p : Act α} {g : α → Act β} (hp : LockProof p) (hkeep : Keeps World.db p)
    (hg : ∀ a, LockProof (g a)) : LockProof (p >>= g) := by
  refine hp.bind (fun w a w' hrun => ?_) hg
  have hdb := hkeep.run w
  rwa [hrun] at hdb

/-- What does not look for the key any more. -/
theorem LockProof.then {p : Act α} {g : α → Act β} (hp : LockProof p) (hg : ∀ a, KeyBlind (g a)) : LockProof (p >>= g) :=
  Prog.AllOrNothing.bind_blind withoutKey_idem hp hg

theorem LockProof.mapExc {caught : Exc → Bool} {e : Exc} {p : Act α} (hp : LockProof p)
    (hcaught : caught .vaultLockedError = false) : LockProof (MiniVault.mapExc caught e p) := by
  have hturn : MiniVault.mapExc caught e p = tryCatch p fun x => throw (if caught x then e else x) := by
    unfold MiniVault.mapExc
    congr 1
    funext x
    split <;> rfl
  rw [hturn]
  exact Prog.AllOrNothing.handle hp (by rw [hcaught]; rfl)

/-- A transaction that looks for the key. -/
theorem LockProof.transaction {label : Label} {body : Act α} (hb : body.Stops withoutKey .vaultLockedError) :
    LockProof (connection label body) :=
  Prog.AllOrNothing.transaction withoutKey_idem (fun _ => rfl) hb (fun _ _ => rfl) fun _ _ => rfl

theorem stops_getDek : getDek.Stops withoutKey .vaultLockedError :=
  Prog.Stops.look (δ := withoutKey) fun _ => rfl

end Steps

section Failures

variable [Platform]

/-! ### The operations -/

theorem encryptAesGcm_blind (key plaintext associatedData : Bytes) (nonce : Nonce) :
    KeyBlind (encryptAesGcm key plaintext associatedData nonce) := by
  unfold encryptAesGcm
  exact .ite (.throw _) (.bind (.done _) fun _ => .bind (Prog.Blind.change fun _ => rfl) fun _ => .pure _)

theorem AuditRepository.log_blind (o : Occurrence) : KeyBlind (log o) :=
  .bind .now fun _ => .connection (.bind (.query _ _) fun _ => .bind (.done _) fun _ => .bind (.done _) fun _ =>
    .bind (.execute _ _) fun _ => .execute _ _)

namespace KvService

variable (owner path : PyStr)

theorem authorize_blind : KeyBlind (authorize owner path) := by
  unfold authorize
  exact .ite (.bind (AuditRepository.log_blind _) fun _ => .throw _) (.pure _)

/-- Who is let through has changed nothing. -/
theorem authorize_ok {w w' : World} {u : Unit} (h : (authorize owner path).run w = (.ok u, w')) : w'.db = w.db := by
  unfold authorize at h
  dsimp only at h
  split_ifs at h with hown
  · obtain ⟨_, _, -, hthrow⟩ := Prog.run_bind_eq_ok.mp h
    cases hthrow
  · rw [(Prog.run_done_eq_ok.mp h).2]

theorem authorized_lockProof {α : Type} {k : Unit → Act α} (hk : ∀ u, LockProof (k u)) :
    LockProof (authorize owner path >>= k) :=
  LockProof.bind (KeyBlind.lockProof (authorize_blind owner path)) (fun _ _ _ h => authorize_ok owner path h) hk

theorem write_lockProof (data : List (PyStr × Json)) (nonce : Nonce) : LockProof (write owner path data nonce) := by
  refine authorized_lockProof owner path fun _ => .after .getDek .getDek fun _ => .after (.done _) (.done _) fun plaintext =>
    .then .getDek fun dek => ?_
  rw [appendVersion_eq]
  refine .bind .now fun now => .connection (.bind (.bind (.query _ _) fun record => ?_) fun ⟨id, version, createdAt⟩ =>
    .bind (.bind (.done _) fun _ => .bind (encryptAesGcm_blind _ _ _ _) fun _ => .pure _) fun ⟨n, c, t⟩ =>
      .bind (.execute _ _) fun _ => .pure _)
  cases record with
  | none => exact .bind (.execute _ _) fun _ => .pure _
  | some record => exact .bind (.done _) fun _ => .bind (.execute _ _) fun _ => .pure _

theorem read_lockProof (version : Option ℤ) : LockProof (read owner path version) := by
  unfold read
  refine authorized_lockProof owner path fun _ => .after (.done _) (.done _) fun requested => .after .getDek .getDek fun _ =>
    .after (KeyBlind.lockProof (.connection ?_)) (.connection ?_ fun _ _ _ => rfl) fun record => ?_
  · cases requested <;> exact .query _ _
  · cases requested <;> exact .query _ _
  · rcases record with - | ⟨row, record⟩
    · exact KeyBlind.lockProof (.throw _)
    · refine .then (.mapExc (.after .getDek .getDek fun _ => .done _) rfl) fun decoded => ?_
      cases decoded with
      | obj => exact .bind (.done _) fun _ => .bind (.done _) fun _ => .pure _
      | _ => exact .throw _

theorem versions_lockProof : LockProof (versions owner path) := by
  unfold versions
  refine authorized_lockProof owner path fun _ => .then .getDek fun _ => .bind (.connection (.query _ _)) fun rows => ?_
  rcases rows.getLast? with - | ⟨row, record⟩
  · exact .throw _
  · exact .bind (.done _) fun _ => .bind (.done _) fun _ => .pure _

theorem delete_lockProof : LockProof (delete owner path) := by
  unfold delete
  exact authorized_lockProof owner path fun _ => .then .getDek fun _ => .bind (.connection (.bind (.execute _ _) fun _ => .pure _))
    fun deleted => .ite (.throw _) (.pure _)

end KvService

namespace TransitService

variable (owner name : PyStr)

omit [Platform] in
theorem reads_blind {α : Type} (params : List Value) {cells : α → List Value} (g : Database → α) :
    KeyBlind (connection .transaction (query params cells g)) :=
  .connection (.query params g)

theorem ownedKey_blind : KeyBlind (ownedKey owner name) := by
  refine .bind (.ite (.pure _) (.throw _)) fun _ => .bind (reads_blind _ _) fun row => ?_
  cases row with
  | none => exact .bind (AuditRepository.log_blind _) fun _ => .throw _
  | some row => exact .pure _

/-- Where the key is found, nothing has changed. -/
theorem owned_lockProof {α : Type} {k : NamedKey → Act α} (hk : ∀ r, LockProof (k r)) :
    LockProof (ownedKey owner name >>= k) := by
  refine LockProof.bind (KeyBlind.lockProof (ownedKey_blind owner name)) (fun w row w' h => ?_) hk
  obtain ⟨-, -, -, -, rfl⟩ := run_ownedKey_eq_ok.mp h
  rfl

theorem metadata_blind (row : NamedKey) : KeyBlind (metadata row) :=
  .bind (.done _) fun _ => .bind (reads_blind _ _) fun _ => .bind (.done _) fun _ => .pure _

omit [Platform] in
theorem keyVersion_blind (keyRow : NamedKey) (version : ℤ) : KeyBlind (keyVersion keyRow version) := by
  refine .bind (reads_blind _ _) fun row => ?_
  cases row with
  | none => exact .throw _
  | some row => exact .pure _

/-- A wrapper stops where the key is gone. -/
theorem wrapFor_stops (kind : KeyKind) (coins : KeyCoins) (version : ℤ) :
    ((wrapFor kind owner name coins).wrap version).Stops withoutKey .vaultLockedError :=
  stops_getDek.bind fun _ => (KeyBlind.bind (.done _) fun _ => .bind (encryptAesGcm_blind _ _ _ _) fun _ => .pure _).stops

theorem insertVersion_stops (kind : KeyKind) (coins : KeyCoins) (keyId version : ℤ) (now : PyStr) :
    (NamedKeyRepository.insertVersion keyId version (wrapFor kind owner name coins) now).Stops withoutKey
      .vaultLockedError :=
  (wrapFor_stops owner name kind coins version).bind fun _ => (KeyBlind.execute _ _).stops

/-- **Making a key** is all or nothing: the lock is found before the transaction commits. -/
theorem create_lockProof (kind : KeyKind) (coins : KeyCoins) : LockProof
    (NamedKeyRepository.create owner name kind.usage kind.algorithm (wrapFor kind owner name coins) >>= metadata) := by
  have hbody : ∀ now, (NamedKeyRepository.createBody owner name kind.usage kind.algorithm (wrapFor kind owner name coins)
      now).Stops withoutKey .vaultLockedError :=
    fun now => (KeyBlind.execute _ _).stops.bind fun id => insertVersion_stops owner name kind coins id 1 now
  refine .then (.after (KeyBlind.lockProof .now) .now fun now => .then (.mapExc (.transaction (hbody now)) rfl) fun _ => ?_)
    fun row => metadata_blind row
  refine .bind (reads_blind _ _) fun row => ?_
  cases row with
  | none => exact .throw _
  | some row => exact .pure _

/-- **Rotating a key** is. -/
theorem rotate_lockProof (kind : KeyKind) (coins : KeyCoins) :
    LockProof (NamedKeyRepository.rotate owner name (wrapFor kind owner name coins)) := by
  have hbody : ∀ now, (NamedKeyRepository.rotateBody owner name (wrapFor kind owner name coins) now).Stops withoutKey
      .vaultLockedError := by
    intro now
    refine (KeyBlind.query _ _).stops.bind fun row => ?_
    cases row with
    | none => exact (KeyBlind.pure _).stops
    | some row =>
      exact (KeyBlind.done _).stops.bind fun latest => (insertVersion_stops owner name kind coins _ _ now).bind
        fun _ => (KeyBlind.bind (.execute _ _) fun _ => .pure _).stops
  exact .after (KeyBlind.lockProof .now) .now fun now => .then (.transaction (hbody now)) fun rotated =>
    .ite (reads_blind _ _) (.pure _)

theorem unwrap_lockProof (keyRow : NamedKey) (row : NamedKeyVersion) : LockProof (unwrap keyRow row) :=
  .mapExc (.after .getDek .getDek fun _ => .done _) rfl

theorem candidates_blind (keyRow : NamedKey) (version : Option ℤ) : KeyBlind (candidates keyRow version) := by
  have hrows : ∀ rows, KeyBlind (candidateRows keyRow rows) := by
    intro rows
    induction rows with
    | nil => exact .pure _
    | cons row rows ih => exact .bind (.done _) fun _ => .bind (keyVersion_blind _ _) fun _ => .bind ih fun _ => .pure _
  cases version with
  | some version => exact .bind (keyVersion_blind _ _) fun _ => .pure _
  | none => exact .bind (reads_blind _ _) fun _ => hrows _

end TransitService

/-! ### All or nothing -/

/-- The operation is a request: no change of the vault or of the clock. -/
def KvOp.isRequest : KvOp → Bool
  | .lock | .unlock | .restart | .tick _ => false
  | _ => true

/-- The operation is a request. -/
def TransitOp.isRequest : TransitOp → Bool
  | .lock | .unlock | .restart | .tick _ => false
  | _ => true

/-- The operation is a request. -/
def ServiceOp.isRequest : ServiceOp → Bool
  | .kv op => op.isRequest
  | .transit op => op.isRequest

theorem KvOp.exec_lockProof (passphrase : PyStr) {op : KvOp} (hop : op.isRequest) : LockProof (op.exec passphrase) := by
  cases op with
  | write owner path data nonce => exact .then (KvService.write_lockProof owner path data nonce) fun _ => .pure _
  | read owner path version => exact .then (KvService.read_lockProof owner path version) fun _ => .pure _
  | versions owner path => exact .then (KvService.versions_lockProof owner path) fun _ => .pure _
  | delete owner path => exact .then (KvService.delete_lockProof owner path) fun _ => .pure _
  | lock | unlock | restart | tick => cases hop

theorem TransitOp.exec_lockProof (passphrase : PyStr) {op : TransitOp} (hop : op.isRequest) :
    LockProof (op.exec passphrase) := by
  have hvalid : ∀ {α : Type} {name : PyStr} {g : Unit → Act α}, (∀ u, LockProof (g u)) →
      LockProof (TransitService.validateKeyName name >>= g) :=
    fun hg => .after (KeyBlind.lockProof (.ite (.pure _) (.throw _))) (Prog.Sat.ite (fun _ => .pure _) fun _ => .throw _) hg
  have hite : ∀ {α : Type} {c : Prop} [Decidable c] {p q : Act α}, LockProof p → LockProof q →
      LockProof (if c then p else q) := fun hp hq => Prog.AllOrNothing.ite hp hq
  have hthrow : ∀ {α : Type} (e : Exc), LockProof (throw e : Act α) := fun e => .done _
  cases op with
  | createKey owner name coins =>
    exact .then (hvalid fun _ => .after .getDek .getDek fun _ => TransitService.create_lockProof owner name .aes coins)
      fun _ => .pure _
  | createSigningKey owner name algorithm coins =>
    exact .then (hvalid fun _ => hite (hthrow _) (LockProof.after .getDek .getDek fun _ =>
      TransitService.create_lockProof owner name .ed25519 coins)) fun _ => .pure _
  | rotateKey owner name coins =>
    refine .then (TransitService.owned_lockProof owner name fun keyRow => .after .getDek .getDek fun _ => ?_) fun _ => .pure _
    obtain ⟨kind, hwrapper⟩ := TransitService.wrapperOf_eq keyRow owner name coins
    rw [hwrapper]
    refine .then (TransitService.rotate_lockProof owner name kind coins) fun rotated => ?_
    cases rotated with
    | none => exact .throw _
    | some row => exact TransitService.metadata_blind row
  | deleteKey owner name =>
    exact .then (TransitService.owned_lockProof owner name fun _ => .then .getDek fun _ =>
      .bind (.connection (.bind (.execute _ _) fun _ => .pure _)) fun deleted => .ite (.pure _) (.throw _)) fun _ => .pure _
  | listKeys owner =>
    have hall : ∀ rows, KeyBlind (TransitService.metadataAll rows) := by
      intro rows
      induction rows with
      | nil => exact .pure _
      | cons row rows ih => exact .bind (TransitService.metadata_blind row) fun _ => .bind ih fun _ => .pure _
    exact .then (.then .getDek fun _ => .bind (TransitService.reads_blind _ _) hall) fun _ => .pure _
  | encrypt owner name plaintext nonce =>
    refine .then (TransitService.owned_lockProof owner name fun keyRow => hite (hthrow _) (LockProof.after .getDek .getDek
      fun _ => .after (.done _) (.done _) fun plaintext => .after (.done _) (.done _) fun version =>
        .after (KeyBlind.lockProof (TransitService.keyVersion_blind _ _)) (TransitService.keyVersion_keeps _ _) fun row =>
          .then (TransitService.unwrap_lockProof _ _) fun material => .ite (.throw _) ?_)) fun _ => .pure _
    exact .bind (.done _) fun _ => .bind (encryptAesGcm_blind _ _ _ _) fun _ => .bind (.done _) fun _ => .pure _
  | decrypt owner ciphertext =>
    refine .then (.after (.done _) (.done _) fun parsed => TransitService.owned_lockProof owner parsed.keyName fun keyRow =>
      hite (hthrow _) (LockProof.after .getDek .getDek fun _ =>
        .after (KeyBlind.lockProof (TransitService.keyVersion_blind _ _)) (TransitService.keyVersion_keeps _ _) fun row =>
          .then (TransitService.unwrap_lockProof _ _) fun material => .bind (.mapExc (.done _)) fun _ => .pure _)) fun _ => .pure _
  | sign owner name message type algorithm =>
    refine .then (TransitService.owned_lockProof owner name fun keyRow => hite (hthrow _) (LockProof.after
      (KeyBlind.lockProof (.ite (.throw _) (.pure _))) (Prog.Sat.ite (fun _ => .throw _) fun _ => .pure _) fun _ =>
        .after .getDek .getDek fun _ => .after (.done _) (.done _) fun digest => .after (.done _) (.done _) fun version =>
          .after (KeyBlind.lockProof (TransitService.keyVersion_blind _ _)) (TransitService.keyVersion_keeps _ _) fun row =>
            .then (TransitService.unwrap_lockProof _ _) fun privateKey => .ite (.throw _) ?_)) fun _ => .pure _
    exact .bind (Prog.Blind.change fun _ => rfl) fun _ => .pure _
  | verify owner name message type signature algorithm version =>
    exact .then (TransitService.owned_lockProof owner name fun keyRow => hite (hthrow _) (LockProof.after
      (KeyBlind.lockProof (.ite (.throw _) (.pure _))) (Prog.Sat.ite (fun _ => .throw _) fun _ => .pure _) fun _ =>
        .then .getDek fun _ => .bind (.done _) fun digest => .bind (TransitService.candidates_blind _ _) fun rows =>
          .bind (.done _) fun _ => .pure _)) fun _ => .pure _
  | lock | unlock | restart | tick => cases hop

/-- The program of a request, which is answered, and calls of `lock`, which answer nothing. -/
def lockings (passphrase : PyStr) (w : World) (op : ServiceOp) (n : ℕ) : Config World Label Exc (Option ServiceAnswer) :=
  ⟨w, (do return some (← op.exec passphrase)) :: List.replicate n do
    let _ ← VaultService.lock
    return none⟩

omit [Platform] in
/-- A lock takes the key out of memory, and changes nothing else. -/
theorem lock_withdraws : (do
    let _ ← VaultService.lock
    return none : Act (Option ServiceAnswer)).Sat (fun _ => True) fun _ => Withdraws withoutKey := by
  have hstatus : VaultService.status.Sat (fun _ => True) fun _ => Withdraws withoutKey :=
    VaultService.status_keeps.mono (fun _ => id) fun _ _ _ h => .inl h
  exact .bind (.bind (.change fun _ _ => .inr rfl) fun _ => hstatus) fun _ => .pure _

/-- **Locking the vault in the midst of a request.** Whatever the schedule, a request that meets any number of calls of
`lock` answers what it would have answered alone, with the database it would have left, or raises `VaultLockedError` and
leaves the database as it was. -/
theorem lock_all_or_nothing (passphrase : PyStr) (w : World) {op : ServiceOp} (hop : op.isRequest) (n : ℕ)
    (sched : List ℕ) {r : Except Exc (Option ServiceAnswer)}
    (hr : ((lockings passphrase w op n).exec sched).result 0 = some r) :
    (r = ((op.exec passphrase).run w).1.map some ∧
        Withdraws withoutKey ((op.exec passphrase).run w).2 ((lockings passphrase w op n).exec sched).state) ∨
      (r = .error .vaultLockedError ∧ ((lockings passphrase w op n).exec sched).state.db = w.db) := by
  have hservice : LockProof (op.exec passphrase) := by
    cases op with
    | kv op => exact .then (op.exec_lockProof passphrase hop) fun _ => .pure _
    | transit op => exact .then (op.exec_lockProof passphrase hop) fun _ => .pure _
  have hlockProof : LockProof (op.exec passphrase >>= fun a => pure (some a)) := .then hservice fun _ => .pure _
  have hothers : ∀ j q, j ≠ 0 → (lockings passphrase w op n).procs[j]? = some q →
      q.Sat (fun _ => True) fun _ => Withdraws withoutKey := by
    intro j q hj hq
    obtain ⟨i, rfl⟩ : ∃ i, j = i + 1 := Nat.exists_eq_succ_of_ne_zero hj
    obtain rfl := List.eq_of_mem_replicate (List.mem_of_getElem? hq)
    exact lock_withdraws
  have hall := Config.exec_allOrNothing withoutKey_idem rfl hlockProof hothers hr
  rw [show (lockings passphrase w op n).state = w from rfl, run_answer] at hall
  rcases hrun : (op.exec passphrase).run w with ⟨e | a, w'⟩ <;> rw [hrun] at hall <;> exact hall

/-! ### What fails stores nothing -/

namespace TransitService

variable {owner name : PyStr} {w w' : World}

/-- A key in tables that are in order is described. -/
theorem run_metadata_ok {row : NamedKey} (hfit : KeysFit w.db) (hrow : w.db.keyAt owner name = some row) :
    ∃ m, (metadata row).run w = (.ok m, w) := by
  obtain ⟨hmem, -, -⟩ := Database.keyAt_mem hrow
  have hlatest : pyInt row.latestVersion = .ok ((w.db.keyVersionsAt owner name).length : ℤ) := by
    rw [(Database.keyAt_latest hfit.sound hrow).1, pyInt_int]
  have hnumbers : versionNumbers (w.db.keyVersionsAt owner name) =
      .ok ((List.range (w.db.keyVersionsAt owner name).length).map fun i : ℕ => (i : ℤ) + 1) := by
    refine versionNumbers_ok _ _ (List.ext_getElem (by simp) fun i hi _ => ?_)
    rw [List.length_map] at hi
    simp [Database.keyVersionsAt_number hfit.sound (List.getElem?_eq_getElem hi)]
  unfold metadata
  simp only [Prog.run_bind, Prog.run_done, hlatest, run_listVersions (hfit.ids row hmem) hfit.sound,
    Database.selectKeyVersions_eq hfit.sound hrow, hnumbers, Prog.run_pure]
  exact ⟨_, rfl⟩

omit [Platform] in
theorem connection_error {α : Type} {label : Label} {body : Act α} {e : Exc}
    (h : (connection label body).run w = (.error e, w')) : w'.db = w.db := by
  rw [run_connection] at h
  rcases hrun : body.run w with ⟨e' | a, w₁⟩ <;> rw [hrun] at h
  · rw [← (Prod.mk.inj h).2]
  · cases h

/-- **Making a key** fails before anything is stored. -/
theorem create_error {kind : KeyKind} {coins : KeyCoins} {e : Exc} (hfit : KeysFit w.db)
    (hrun : (NamedKeyRepository.create owner name kind.usage kind.algorithm (wrapFor kind owner name coins) >>=
      metadata).run w = (.error e, w')) : w'.db = w.db := by
  unfold NamedKeyRepository.create at hrun
  rw [Prog.bind_assoc, Prog.run_bind_ok (run_now w), Prog.bind_assoc] at hrun
  rcases hbody : (connection .transaction (NamedKeyRepository.createBody owner name kind.usage kind.algorithm
      (wrapFor kind owner name coins) (isoformat w.clock))).run w with ⟨e' | u, w₁⟩
  · have hfail := (run_mapExc (fun x => x = .integrityError) .keyAlreadyExistsError _ w).trans (by rw [hbody])
    rw [Prog.run_bind_error hfail] at hrun
    obtain ⟨-, rfl⟩ := Prod.mk.inj hrun
    exact connection_error hbody
  · -- the transaction has committed, and what follows it succeeds
    exfalso
    have hok := (run_mapExc (fun x => x = .integrityError) .keyAlreadyExistsError _ w).trans (by rw [hbody])
    rw [Prog.run_bind_ok hok, Prog.bind_assoc] at hrun
    obtain ⟨howner, hname, halgorithm, hnone, id, versionId, wrapped, w₀, w₂, hpublic, hid, hlt, -, -, rfl⟩ :=
      NamedKeyRepository.run_createBody_eq_ok (fun v => wrapFor_keeps (fun _ _ => rfl) v) (run_connection_eq_ok.mp hbody)
    have hfit' : KeysFit (w.db.createdKey
        (NamedKeyRepository.newKey id owner name kind.usage kind.algorithm (isoformat w.clock))
        (NamedKeyRepository.newVersion versionId id 1 wrapped (isoformat w.clock))) := 
      hfit.create halgorithm hpublic hnone hlt hid
    have hrow := (Database.createdKey_sound hfit.sound
      (NamedKeyRepository.newKey id owner name kind.usage kind.algorithm (isoformat w.clock))
      (NamedKeyRepository.newVersion versionId id 1 wrapped (isoformat w.clock)) hnone hlt rfl rfl rfl rfl rfl
      (NamedKeyRepository.fetchable_newKey halgorithm)
      (NamedKeyRepository.fetchable_newVersion hpublic)).2.2.1 owner name
    rw [if_pos ⟨rfl, rfl⟩] at hrow
    rw [Prog.run_bind_ok (run_getOwned howner hname hfit'.sound)] at hrun
    simp only [hrow] at hrun
    obtain ⟨m, hm⟩ := run_metadata_ok (w := { w₂ with db := _ }) hfit' hrow
    rw [Prog.run_bind_ok (Prog.run_pure _ _)] at hrun
    cases hm.symm.trans hrun

/-- So it does behind a look for the key in memory. -/
theorem unlocked_create_error {kind : KeyKind} {coins : KeyCoins} {e : Exc} (hfit : KeysFit w.db)
    (hrun : (getDek >>= fun _ => NamedKeyRepository.create owner name kind.usage kind.algorithm
      (wrapFor kind owner name coins) >>= metadata).run w = (.error e, w')) : w'.db = w.db := by
  rcases Prog.run_bind_eq_error.mp hrun with hdek | ⟨dek, w₁, hdek, hrun⟩
  · have hkeep := (Keeps.getDek (f := World.db)).run w
    rwa [hdek] at hkeep
  · obtain ⟨-, rfl⟩ := run_getDek_eq_ok.mp hdek
    exact create_error hfit hrun

omit [Platform] in
theorem validateKeyName_error {e : Exc} (h : (validateKeyName name).run w = (.error e, w')) : w' = w := by
  unfold validateKeyName at h
  split_ifs at h
  · cases h
  · exact (Prod.mk.inj h).2.symm

theorem createKey_error {coins : KeyCoins} {e : Exc} (hfit : KeysFit w.db)
    (hrun : (createKey owner name coins).run w = (.error e, w')) : w'.db = w.db := by
  rcases Prog.run_bind_eq_error.mp hrun with hname | ⟨u, w₁, hname, hrun⟩
  · rw [validateKeyName_error hname]
  · obtain ⟨-, rfl⟩ := run_validateKeyName_eq_ok.mp hname
    exact @unlocked_create_error _ _ _ _ _ .aes _ _ hfit hrun

theorem createSigningKey_error {algorithm : PyStr} {coins : KeyCoins} {e : Exc} (hfit : KeysFit w.db)
    (hrun : (createSigningKey owner name algorithm coins).run w = (.error e, w')) : w'.db = w.db := by
  rcases Prog.run_bind_eq_error.mp hrun with hname | ⟨u, w₁, hname, hrun⟩
  · rw [validateKeyName_error hname]
  · obtain ⟨-, rfl⟩ := run_validateKeyName_eq_ok.mp hname
    split_ifs at hrun
    · rw [← (Prod.mk.inj hrun).2]
    · exact @unlocked_create_error _ _ _ _ _ .ed25519 _ _ hfit hrun

/-- **Rotating a key** does, where it finds the key. -/
theorem rotateKey_error {coins : KeyCoins} {e : Exc} (hfit : KeysFit w.db)
    (hrun : (rotateKey owner name coins).run w = (.error e, w')) : w'.db.keyTables = w.db.keyTables := by
  unfold rotateKey at hrun
  rcases Prog.run_bind_eq_error.mp hrun with howned | ⟨keyRow, w₁, howned, hrun⟩
  · have hkeep := ((ownedKey_keeps owner name).aside (g := fun w => w.db.keyTables) fun _ => rfl).run w
    rwa [howned] at hkeep
  obtain ⟨hname, howner, -, hrow, rfl⟩ := run_ownedKey_eq_ok.mp howned
  rcases Prog.run_bind_eq_error.mp hrun with hdek | ⟨dek, w₁, hdek, hrun⟩
  · have hkeep := (Keeps.getDek (f := fun w => w.db.keyTables)).run w
    rwa [hdek] at hkeep
  obtain ⟨-, rfl⟩ := run_getDek_eq_ok.mp hdek
  obtain ⟨kind, hwrapper⟩ := wrapperOf_eq keyRow owner name coins
  rw [hwrapper] at hrun
  unfold NamedKeyRepository.rotate at hrun
  rw [Prog.bind_assoc, Prog.run_bind_ok (run_now w), Prog.bind_assoc] at hrun
  rcases Prog.run_bind_eq_error.mp hrun with hbody | ⟨b, w₁, hbody, hrun⟩
  · rw [connection_error hbody]
  · -- the transaction has committed, and what follows it succeeds
    exfalso
    obtain ⟨-, -, ⟨-, hnone, -⟩ | ⟨rfl, r, latest, versionId, wrapped, w₂, hpublic, hr, hlatest, -, hnumber, -, rfl⟩⟩ :=
      NamedKeyRepository.run_rotateBody_eq_ok (fun v => wrapFor_keeps (fun _ _ => rfl) v) (run_connection_eq_ok.mp hbody)
    · rw [hrow] at hnone
      cases hnone
    have hnow := hfit.latest hr hlatest
    have hfit' : KeysFit (w.db.rotatedKey r (latest + 1) (isoformat w.clock)
        (NamedKeyRepository.newVersion versionId r.id (latest + 1) wrapped (isoformat w.clock))) :=
      hfit.rotate hpublic hr hnow hnumber
    have hrow' := (Database.rotatedKey_sound hfit.sound
      (NamedKeyRepository.newVersion versionId r.id (latest + 1) wrapped (isoformat w.clock)) (isoformat w.clock) hr hnow
        rfl rfl (NamedKeyRepository.fetchable_newVersion hpublic)).2.2.1 owner name
    rw [if_pos ⟨rfl, rfl⟩] at hrow'
    rw [if_pos rfl, Prog.run_bind_ok (run_getOwned howner (bindable_keyName hname) hfit'.sound)] at hrun
    simp only [hrow'] at hrun
    obtain ⟨m, hm⟩ := run_metadata_ok (w := { w₂ with db := _ }) hfit' hrow'
    cases hm.symm.trans hrun

/-- **Revoking a key** does. -/
theorem deleteKey_error {e : Exc} (hfit : KeysFit w.db) (hrun : (deleteKey owner name).run w = (.error e, w')) :
    w'.db.keyTables = w.db.keyTables := by
  unfold deleteKey at hrun
  rcases Prog.run_bind_eq_error.mp hrun with howned | ⟨keyRow, w₁, howned, hrun⟩
  · have hkeep := ((ownedKey_keeps owner name).aside (g := fun w => w.db.keyTables) fun _ => rfl).run w
    rwa [howned] at hkeep
  obtain ⟨-, -, -, hrow, rfl⟩ := run_ownedKey_eq_ok.mp howned
  rcases Prog.run_bind_eq_error.mp hrun with hdek | ⟨dek, w₁, hdek, hrun⟩
  · have hkeep := (Keeps.getDek (f := fun w => w.db.keyTables)).run w
    rwa [hdek] at hkeep
  obtain ⟨-, rfl⟩ := run_getDek_eq_ok.mp hdek
  rcases Prog.run_bind_eq_error.mp hrun with hbody | ⟨b, w₁, hbody, hrun⟩
  · rw [connection_error hbody]
  · -- there was a key to revoke
    exfalso
    obtain ⟨count, w₂, hexecute, hanswer⟩ := Prog.run_bind_eq_ok.mp (run_connection_eq_ok.mp hbody)
    obtain ⟨-, db, hdb, -⟩ := run_execute_eq_ok.mp hexecute
    have hcount : (w.db.deleteKey owner name).1 = count := congrArg Prod.fst (Except.ok.inj hdb)
    have hpos : 0 < (w.db.deleteKey owner name).1 :=
      (Database.deleteKey_spec hfit.sound owner name).2.2.1.mpr (by simp [hrow])
    obtain ⟨hdeleted, -⟩ := Prod.mk.inj hanswer
    obtain rfl := Except.ok.inj hdeleted
    rw [if_pos (decide_eq_true (hcount ▸ hpos))] at hrun
    cases hrun

end TransitService

/-- The tables of both services. -/
def Database.stores (db : Database) : (Table KvRecord × Table KvVersion) × Table NamedKey × Table NamedKeyVersion :=
  (db.recordPart, db.keyTables)

/-- An operation of the key-value store that fails leaves its tables. -/
theorem KvOp.exec_error (passphrase : PyStr) {op : KvOp} (hop : op.isRequest) {w w' : World} {e : Exc}
    (hrun : (op.exec passphrase).run w = (.error e, w')) : w'.db.recordPart = w.db.recordPart := by
  cases op with
  | write owner path data nonce =>
    rcases Prog.run_bind_eq_error.mp hrun with hfail | ⟨a, w₁, -, hpure⟩
    · exact Database.recordPart_of_kvPart (KvService.write_failKeeps owner path data nonce w e w' hfail)
    · cases hpure
  | delete owner path =>
    rcases Prog.run_bind_eq_error.mp hrun with hfail | ⟨a, w₁, -, hpure⟩
    · exact Database.recordPart_of_kvPart (KvService.delete_failKeeps owner path w e w' hfail)
    · cases hpure
  | read owner path version =>
    have hkeep := (Keeps.bind ((KvService.read_keeps owner path version).aside (g := fun w => w.db.recordPart) fun _ => rfl)
      fun r => .pure (KvAnswer.record r)).run w
    exact (congrArg (fun r => r.2.db.recordPart) hrun).symm.trans hkeep
  | versions owner path =>
    have hkeep := (Keeps.bind ((KvService.versions_keeps owner path).aside (g := fun w => w.db.recordPart) fun _ => rfl)
      fun r => .pure (KvAnswer.listing r)).run w
    exact (congrArg (fun r => r.2.db.recordPart) hrun).symm.trans hkeep
  | lock | unlock | restart | tick => cases hop

/-- An operation on named keys that fails leaves their tables. -/
theorem TransitOp.exec_error (passphrase : PyStr) {op : TransitOp} (hop : op.isRequest) {w w' : World} {e : Exc}
    (hfit : KeysFit w.db) (hrun : (op.exec passphrase).run w = (.error e, w')) :
    w'.db.keyTables = w.db.keyTables := by
  have hsame : ∀ {p : Act TransitAnswer}, Keeps (fun w => w.db.keyTables) p → p.run w = (.error e, w') →
      w'.db.keyTables = w.db.keyTables :=
    fun hp h => (congrArg (fun r => r.2.db.keyTables) h).symm.trans (hp.run w)
  cases op with
  | createKey owner name coins =>
    rcases Prog.run_bind_eq_error.mp hrun with hfail | ⟨a, w₁, -, hpure⟩
    · rw [TransitService.createKey_error hfit hfail]
    · cases hpure
  | createSigningKey owner name algorithm coins =>
    rcases Prog.run_bind_eq_error.mp hrun with hfail | ⟨a, w₁, -, hpure⟩
    · rw [TransitService.createSigningKey_error hfit hfail]
    · cases hpure
  | rotateKey owner name coins =>
    rcases Prog.run_bind_eq_error.mp hrun with hfail | ⟨a, w₁, -, hpure⟩
    · exact TransitService.rotateKey_error hfit hfail
    · cases hpure
  | deleteKey owner name =>
    rcases Prog.run_bind_eq_error.mp hrun with hfail | ⟨a, w₁, -, hpure⟩
    · exact TransitService.deleteKey_error hfit hfail
    · cases hpure
  | listKeys owner => exact hsame (.bind (TransitService.listKeys_keeps owner) fun _ => .pure _) hrun
  | encrypt owner name plaintext nonce =>
    exact hsame (.bind (TransitService.encrypt_keeps owner name plaintext nonce (fun _ => rfl) fun _ _ => rfl)
      fun _ => .pure _) hrun
  | decrypt owner ciphertext =>
    exact hsame (.bind ((TransitService.decrypt_keeps owner ciphertext).aside fun _ => rfl) fun _ => .pure _) hrun
  | sign owner name message type algorithm =>
    exact hsame (.bind (TransitService.sign_keeps owner name message type algorithm (fun _ => rfl) fun _ _ => rfl)
      fun _ => .pure _) hrun
  | verify owner name message type signature algorithm version =>
    exact hsame (.bind ((TransitService.verify_keeps owner name message type signature algorithm version).aside
      fun _ => rfl) fun _ => .pure _) hrun
  | lock | unlock | restart | tick => cases hop

/-- **A request that fails has stored nothing**, and has logged the denial it failed for, where it was one. -/
theorem ServiceOp.exec_error (passphrase : PyStr) {op : ServiceOp} (hop : op.isRequest) {w w' : World} {e : Exc}
    (h : InOrder w.db) (hrun : (op.exec passphrase).run w = (.error e, w')) :
    w'.db.stores = w.db.stores ∧ w'.db.auditLogs.rows.map AuditLog.shown = w.db.auditLogs.rows.map AuditLog.shown ++
      (if e = op.refusal then op.denial w.db else none).toList.map Denial.shown := by
  have hlog := ((op.exec_denies passphrase).step op.isRefusal_refusal h.log).1.2
  simp only [hrun, endedWith, decide_eq_true_eq] at hlog
  refine ⟨?_, hlog⟩
  cases op with
  | kv op =>
    rcases Prog.run_bind_eq_error.mp hrun with hfail | ⟨a, w₁, -, hpure⟩
    · have hkeys := (op.exec_keepsKeys passphrase).run w
      rw [hfail] at hkeys
      exact Prod.ext (op.exec_error passphrase hop hfail) hkeys
    · cases hpure
  | transit op =>
    rcases Prog.run_bind_eq_error.mp hrun with hfail | ⟨a, w₁, -, hpure⟩
    · have hrecords := (op.exec_keepsRecords passphrase).run w
      rw [hfail] at hrecords
      exact Prod.ext hrecords (op.exec_error passphrase hop h.keys hfail)
    · cases hpure

/-- **A request that fails leaves the stores as they were**, whatever it fails for and whenever the vault is locked.
Among any number of calls of `lock`, a request does what it does alone, or raises `VaultLockedError` and leaves the
database. Where it fails, the records, the keys and their versions are those from before, and the log has grown by the
entry of the denial where the request was refused for one, and not at all otherwise. -/
theorem failure_leaves_stores (passphrase : PyStr) {w : World} (h : InOrder w.db) {op : ServiceOp} (hop : op.isRequest)
    (n : ℕ) (sched : List ℕ) {r : Except Exc (Option ServiceAnswer)}
    (hr : ((lockings passphrase w op n).exec sched).result 0 = some r) :
    let w' := ((lockings passphrase w op n).exec sched).state
    ((r = ((op.exec passphrase).run w).1.map some ∧ w'.db = ((op.exec passphrase).run w).2.db) ∨
        (r = .error .vaultLockedError ∧ w'.db = w.db)) ∧
      ∀ e, r = .error e → w'.db.stores = w.db.stores ∧ w'.db.auditLogs.rows.map AuditLog.shown =
        w.db.auditLogs.rows.map AuditLog.shown ++
          (if e = op.refusal then op.denial w.db else none).toList.map Denial.shown := by
  intro w'
  have hcases : (r = ((op.exec passphrase).run w).1.map some ∧ w'.db = ((op.exec passphrase).run w).2.db) ∨
      (r = .error .vaultLockedError ∧ w'.db = w.db) :=
    (lock_all_or_nothing passphrase w hop n sched hr).imp_left fun ⟨hall, hstate⟩ =>
      ⟨hall, Withdraws.frame (δ := withoutKey) (fun _ => rfl) hstate⟩
  refine ⟨hcases, fun e he => ?_⟩
  rcases hcases with ⟨hall, hdb⟩ | ⟨hlocked, hdb⟩
  · rcases hrun : (op.exec passphrase).run w with ⟨e' | a, w''⟩ <;> rw [hrun] at hall hdb
    · obtain rfl := Except.error.inj (he.symm.trans hall)
      rw [hdb]
      exact op.exec_error passphrase hop h hrun
    · cases he.symm.trans hall
  · obtain rfl := Except.error.inj (he.symm.trans hlocked)
    have hne : .vaultLockedError ≠ op.refusal := by cases op <;> exact fun h => by cases h
    rw [hdb, if_neg hne]
    exact ⟨rfl, by simp⟩

end Failures

/-! ### A sample -/

section Sample

attribute [local instance] limitedPlatform

/-- A rotation of a key. -/
def sampleRotation : ServiceOp := .transit (.rotateKey sampleOwner sampleKeyName (sampleKeyCoins 33))

/-- The vault is locked between the look for the key and the transaction. -/
def sampleLocking : List ℕ := [0, 0, 1, 0, 0]

attribute [local irreducible] Config.exec Prog.session

/-- The rotation fails and leaves what is stored. -/
theorem failure_leaves_stores_sample :
    ((lockings samplePassphrase sampleSystem sampleRotation 1).exec sampleLocking).state.db.stores =
      sampleSystem.db.stores := by
  have hlocked : (((lockings samplePassphrase sampleSystem sampleRotation 1).exec sampleLocking).result 0).any
      (endedWith .vaultLockedError) = true := by decide +kernel
  have horder : InOrder sampleSystem.db := inOrder_session .fresh _
  obtain ⟨r, hr, hended⟩ := (Option.any_eq_true _ _).mp hlocked
  have hop : sampleRotation.isRequest := rfl
  have hfailed := failure_leaves_stores samplePassphrase horder hop 1 sampleLocking hr
  cases r with
  | ok a => cases hended
  | error e => exact (hfailed.2 e rfl).1

end Sample

end MiniVault
