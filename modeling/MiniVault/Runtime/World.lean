import MiniVault.Foundations.Programs
import MiniVault.Runtime.Platform
import MiniVault.Storage.Database

/-!
# The world and the operations on it

An operation of the services is a program in atomic steps (`Act`) on the world:
the key the vault holds in memory, its configuration file, the database, the
clock. What it draws at random — nonces, salts, keys — is among its arguments.

## The model

* `connection` is one step: a database connection with the statements run on it,
  committed together or, when any of them or the code between them raises, rolled
  back together.
* `execute` and `query` are single statements, with their parameters bound first. A
  query fetches the cells it names, where text that is not UTF-8 raises.
* `sealed` and `signed` keep what was encrypted and signed in the course of a run.
  No operation looks at them. They are there to say what an ideal cipher and an
  ideal signature are; a roll-back does not touch them, since what was encrypted
  was encrypted.
-/

namespace MiniVault

open Foundations

/-- A 32-byte key. -/
abbrev Key := { k : Bytes // k.length = 32 }

/-- A 12-byte nonce, `secrets.token_bytes(GCM_NONCE_LENGTH)`. -/
abbrev Nonce := { n : Bytes // n.length = 12 }

/-- A 16-byte salt, `secrets.token_bytes(16)`. -/
abbrev Salt := { s : Bytes // s.length = 16 }

/-- `EncryptedBlob`. -/
structure EncryptedBlob where
  /-- The nonce. -/
  nonce : Bytes
  /-- The ciphertext without its tag. -/
  ciphertext : Bytes
  /-- The tag. -/
  tag : Bytes
  deriving DecidableEq

/-- An encryption that took place. -/
structure Sealing where
  /-- The key. -/
  key : Bytes
  /-- The associated data. -/
  aad : Bytes
  /-- The plaintext. -/
  plaintext : Bytes
  /-- What came out. -/
  blob : EncryptedBlob
  deriving DecidableEq

/-- A signature that was made. -/
structure Signing where
  /-- The private key. -/
  privateKey : Bytes
  /-- What was signed. -/
  digest : Bytes
  /-- The signature. -/
  signature : Bytes
  deriving DecidableEq

/-- What a reader of the configuration file finds. -/
inductive ConfigFile where
  /-- Bytes that are not UTF-8. -/
  | undecodable
  /-- Text that is not JSON. -/
  | notJson
  /-- JSON with an integer of more digits than `int` converts. -/
  | longInteger
  /-- JSON nested deeper than the recursion limit. -/
  | tooDeep
  /-- A JSON value. -/
  | json (value : Json)
  deriving DecidableEq

/-- Everything the operations share. -/
structure World where
  /-- The key in memory, `VaultState._dek`. -/
  dek : Option Key
  /-- The hash of the placeholder, `_dummy_password_hash`, once it was made. -/
  dummyHash : Option PyStr
  /-- The path that the configuration is kept under, `JsonConfigStore.path`. -/
  configPath : PyStr
  /-- The configuration file, where there is one. -/
  config : Option ConfigFile
  /-- The file `save_atomic` writes before it replaces the configuration. -/
  temporary : Option ConfigFile
  /-- The environment variables. -/
  environ : PyStr → Option PyStr
  /-- The database. -/
  db : Database
  /-- The time, in microseconds since 1970. -/
  clock : ℕ
  /-- What was encrypted. -/
  sealed : List Sealing
  /-- What was signed. -/
  signed : List Signing

/-- The key in memory and the configuration. -/
def World.vaultPart (w : World) : Option Key × Option ConfigFile := (w.dek, w.config)

/-- `_path`: an environment variable as a path, or the default. -/
def pathSetting (environ : PyStr → Option PyStr) (name default : String) : PyStr :=
  (environ (py "MINIVAULT_" ++ py name)).getD (py default)

/-- `config_path`. -/
def configPath (environ : PyStr → Option PyStr) : PyStr := pathSetting environ "CONFIG_PATH" "data/vault_config.json"

/-- The world in which nothing has happened yet. -/
def World.fresh (environ : PyStr → Option PyStr) : World where
  dek := none
  dummyHash := none
  configPath := MiniVault.configPath environ
  config := none
  temporary := none
  environ := environ
  db := .fresh
  clock := 0
  sealed := []
  signed := []

/-- What a step is: the interleavings are described by it. -/
inductive Label where
  /-- A look at the key in memory, or a change of it. -/
  | state
  /-- A look at the clock. -/
  | clock
  /-- A step on the configuration file or the temporary file. -/
  | file
  /-- `os.replace` of the configuration file by the temporary file. -/
  | replace
  /-- A statement. -/
  | statement
  /-- A transaction. -/
  | transaction
  /-- The transaction of `NamedKeyRepository.rotate`, called with a wrapper for keys
  of the usage. -/
  | rotate (owner name usage : PyStr)
  /-- A record of an encryption or a signature. -/
  | record
  /-- The check of a passphrase against a stored hash. -/
  | verify
  /-- The transaction of `update_after_failed_login`, called for a row read before, with the time
  that the lockout was counted from, where there is one. -/
  | failedLogin (seen : User) (time : Option ℕ)
  /-- The transaction of `reset_login_failures`, called for a row read before: because its
  lockout has expired, or because the passphrase was right. -/
  | resetLogin (seen : User) (expired : Bool)
  deriving DecidableEq

/-- An operation. -/
abbrev Act := Prog World Label Exc

/-! ### Steps -/

/-- A statement that changes the database or fails. -/
def execute {α : Type} (params : List Value) (f : Database → Except Exc (α × Database)) : Act α :=
  Prog.attempt .statement fun w => do
    bindAll params
    let (a, db) ← f w.db
    return (a, { w with db := db })

/-- A statement that only reads, and the cells that are fetched of what it finds. -/
def query {α : Type} (params : List Value) (cells : α → List Value) (f : Database → α) : Act α :=
  Prog.look .statement fun w => do
    bindAll params
    if Fetchable (cells (f w.db)) then return f w.db else throw .operationalError

/-- `with database.connection()` and `with database.exclusive_connection()`: where
the body raises, the database is as it was before. -/
def connection {α : Type} (label : Label) (body : Act α) : Act α :=
  Prog.atomic label (fun w w' => { w' with db := w.db }) body

/-- `datetime.now(timezone.utc).isoformat()`. -/
def now : Act PyStr := Prog.look .clock fun w => .ok (isoformat w.clock)

/-- `VaultState.get_dek`. -/
def getDek : Act Key := Prog.look .state fun w =>
  match w.dek with
  | some k => .ok k
  | none => .error .vaultLockedError

/-- `VaultState.lock`. -/
def lockState : Act Unit := Prog.change .state fun w => { w with dek := none }

/-- `except` clauses that turn the exceptions `caught` describes into `e`. -/
def mapExc {α : Type} (caught : Exc → Bool) (e : Exc) (p : Act α) : Act α :=
  tryCatch p fun x => if caught x then throw e else throw x

/-! ### What a step does -/

section Runs

variable {α : Type} {w w' : World}

theorem run_execute (params : List Value) (f : Database → Except Exc (α × Database)) (w : World) :
    (execute params f).run w =
      match bindAll params with
      | .error e => (.error e, w)
      | .ok _ => match f w.db with
        | .error e => (.error e, w)
        | .ok (a, db) => (.ok a, { w with db := db }) := by
  rw [execute, Prog.run_attempt]
  cases bindAll params with
  | error e => rfl
  | ok u =>
    simp only [bind, Except.bind]
    cases f w.db <;> rfl

theorem run_execute_eq_ok {params : List Value} {f : Database → Except Exc (α × Database)} {a : α} :
    (execute params f).run w = (.ok a, w') ↔
      bindAll params = .ok () ∧ ∃ db, f w.db = .ok (a, db) ∧ w' = { w with db := db } := by
  rw [run_execute]
  rcases bindAll params with e | u
  · simp
  · rcases f w.db with e | ⟨b, db⟩
    · simp
    · simp only [Prod.mk.injEq, Except.ok.injEq, true_and]
      constructor
      · rintro ⟨rfl, rfl⟩
        exact ⟨db, ⟨rfl, rfl⟩, rfl⟩
      · rintro ⟨db', ⟨rfl, rfl⟩, rfl⟩
        exact ⟨rfl, rfl⟩

theorem run_query_eq_ok {params : List Value} {cells : α → List Value} {f : Database → α} {a : α} :
    (query params cells f).run w = (.ok a, w') ↔ bindAll params = .ok () ∧ Fetchable (cells (f w.db)) ∧ f w.db = a ∧ w = w' := by
  rw [query, Prog.run_look]
  rcases bindAll params with e | u
  · simp
  · by_cases h : Fetchable (cells (f w.db)) <;> simp [h]

theorem run_query_error {params : List Value} {cells : α → List Value} {f : Database → α} {e : Exc}
    (h : bindAll params = .error e) : (query params cells f).run w = (.error e, w) := by
  rw [query, Prog.run_look, h]
  rfl

/-- A query of what can be fetched. -/
theorem run_query {params : List Value} {cells : α → List Value} {f : Database → α} (h : Fetchable (cells (f w.db))) :
    (query params cells f).run w = ((bindAll params).map fun _ => f w.db, w) := by
  rw [query, Prog.run_look]
  rcases bindAll params with e | u
  · rfl
  · simp [h, Except.map]

theorem run_connection (label : Label) (body : Act α) (w : World) :
    (connection label body).run w =
      match body.run w with
      | (.ok a, w') => (.ok a, w')
      | (.error e, w') => (.error e, { w' with db := w.db }) := by
  rw [connection, Prog.run_atomic]
  rcases body.run w with ⟨_ | _, _⟩ <;> rfl

theorem run_connection_eq_ok {label : Label} {body : Act α} {a : α} :
    (connection label body).run w = (.ok a, w') ↔ body.run w = (.ok a, w') :=
  Prog.run_atomic_eq_ok

@[simp] theorem run_now (w : World) : now.run w = (.ok (isoformat w.clock), w) := rfl

theorem run_getDek (w : World) :
    getDek.run w =
      match w.dek with
      | some k => (.ok k, w)
      | none => (.error .vaultLockedError, w) := by
  rw [getDek, Prog.run_look]
  cases w.dek <;> rfl

theorem run_getDek_eq_ok {k : Key} : getDek.run w = (.ok k, w') ↔ w.dek = some k ∧ w = w' := by
  rw [run_getDek]
  rcases w.dek with - | k' <;> simp

@[simp] theorem run_lockState (w : World) : lockState.run w = (.ok (), { w with dek := none }) := rfl

theorem run_mapExc (caught : Exc → Bool) (e : Exc) (p : Act α) (w : World) :
    (mapExc caught e p).run w =
      match p.run w with
      | (.ok a, w') => (.ok a, w')
      | (.error x, w') => (.error (if caught x then e else x), w') := by
  rw [mapExc, Prog.run_handle]
  rcases p.run w with ⟨x | a, w'⟩
  · by_cases h : caught x <;> simp [h]
  · rfl

theorem run_mapExc_eq_ok {caught : Exc → Bool} {e : Exc} {p : Act α} {a : α} :
    (mapExc caught e p).run w = (.ok a, w') ↔ p.run w = (.ok a, w') := by
  rw [run_mapExc]
  rcases p.run w with ⟨x | b, w''⟩ <;> simp

/-- An answer is given exactly when the operation behind it succeeds. -/
theorem run_answer {β : Type} (p : Act α) (f : α → β) (w : World) :
    (p >>= fun a => pure (f a)).run w =
      match p.run w with
      | (.ok a, w') => (.ok (f a), w')
      | (.error e, w') => (.error e, w') := by
  rw [Prog.run_bind]
  rcases p.run w with ⟨_ | _, _⟩ <;> rfl

end Runs

/-! ### What an operation leaves alone -/

/-- No step of the operation changes the part `f` of the world. -/
def Keeps {γ α : Type} (f : World → γ) (p : Act α) : Prop :=
  p.Sat (fun _ => True) fun _ w w' => f w' = f w

section Keeps

variable {γ α β : Type} {f : World → γ}

/-- The part is as it was after the operation, whether it succeeds or fails. -/
theorem Keeps.run {p : Act α} (h : Keeps f p) (w : World) : f (p.run w).2 = f w := Prog.run_frame f h w

/-- What an operation keeps, it keeps every part of. -/
theorem Keeps.weaken {p : Act α} {g : World → β} (h : Keeps f p) (hg : ∀ {w w' : World}, f w' = f w → g w' = g w) :
    Keeps g p := by
  induction h with
  | done r => exact .done r
  | atom hact _ ih => exact .atom (fun w hw => hg (hact w hw)) ih

theorem Keeps.bind {p : Act α} {k : α → Act β} (hp : Keeps f p) (hk : ∀ a, Keeps f (k a)) : Keeps f (p >>= k) :=
  Prog.Sat.bind hp hk

theorem Keeps.done (r : Except Exc α) : Keeps f (Prog.done r) := Prog.Sat.done _

theorem Keeps.pure (a : α) : Keeps f (pure a : Act α) := Prog.Sat.done _

theorem Keeps.throw (e : Exc) : Keeps f (throw e : Act α) := Prog.Sat.done _

theorem Keeps.look (l : Label) (g : World → Except Exc α) : Keeps f (Prog.look l g) := Prog.Sat.look fun _ _ => rfl

theorem Keeps.change {l : Label} {g : World → World} (h : ∀ w, f (g w) = f w) : Keeps f (Prog.change l g) :=
  Prog.Sat.change fun w _ => h w

theorem Keeps.query (params : List Value) {cells : α → List Value} (g : Database → α) : Keeps f (query params cells g) :=
  Keeps.look _ _

theorem Keeps.getDek : Keeps f getDek := Keeps.look _ _

theorem Keeps.now : Keeps f now := Keeps.look _ _

theorem Keeps.execute {params : List Value} {g : Database → Except Exc (α × Database)}
    (h : ∀ w a db, g w.db = .ok (a, db) → f { w with db := db } = f w) : Keeps f (execute params g) := by
  refine Prog.Sat.attempt (fun w a w' _ hw => ?_) fun _ _ => rfl
  rcases hb : bindAll params with e | u
  · simp [hb] at hw
  · rcases hg : g w.db with e | ⟨b, db⟩
    · simp [hb, hg] at hw
    · simp only [hb, hg, ok_bind] at hw
      obtain ⟨-, rfl⟩ := Prod.mk.inj (Except.ok.inj hw)
      exact h w b db hg

theorem Keeps.mapExc {caught : Exc → Bool} {e : Exc} {p : Act α} (hp : Keeps f p) : Keeps f (mapExc caught e p) :=
  Prog.Sat.handle hp fun _ => by split <;> exact Prog.Sat.done _

/-- A connection keeps what its statements keep, where rolling back keeps it too. -/
theorem Keeps.connection {label : Label} {body : Act α} (hb : Keeps f body)
    (h : ∀ w w', f w' = f w → f { w' with db := w.db } = f w) : Keeps f (connection label body) := by
  refine Prog.Sat.atomic fun w _ => ?_
  have hrun := hb.run w
  rw [Prog.run_atomic]
  rcases hr : body.run w with ⟨e | a, w'⟩
  · rw [hr] at hrun
    exact h w w' hrun
  · rw [hr] at hrun
    exact hrun

/-- Where the operation fails, the part `f` of the world is as it was. -/
def FailKeeps {γ α : Type} (f : World → γ) (p : Act α) : Prop :=
  ∀ w e w', p.run w = (.error e, w') → f w' = f w

theorem Keeps.fail {p : Act α} (h : Keeps f p) : FailKeeps f p := by
  intro w e w' hr
  have := h.run w
  rwa [hr] at this

theorem FailKeeps.bind {p : Act α} {k : α → Act β} (hp : Keeps f p) (hk : ∀ a, FailKeeps f (k a)) :
    FailKeeps f (p >>= k) := by
  intro w e w' hr
  rcases Prog.run_bind_eq_error.mp hr with hr | ⟨a, w₁, hp', hr⟩
  · exact hp.fail w e w' hr
  · have := hp.run w
    rw [hp'] at this
    exact (hk a w₁ e w' hr).trans this

theorem FailKeeps.ite {c : Prop} [Decidable c] {p q : Act α} (hp : FailKeeps f p) (hq : FailKeeps f q) :
    FailKeeps f (if c then p else q) := by
  split
  · exact hp
  · exact hq

/-- A connection that fails leaves the database, so it keeps what depends on the
database and on what its statements keep. -/
theorem FailKeeps.connection {δ : Type} {g : World → δ} {label : Label} {body : Act α} (hb : Keeps g body)
    (h : ∀ w w', g w' = g w → f { w' with db := w.db } = f w) : FailKeeps f (connection label body) := by
  intro w e w' hr
  have hbody := hb.run w
  rw [run_connection] at hr
  rcases hrun : body.run w with ⟨x | a, w₁⟩
  · rw [hrun] at hr hbody
    rw [← (Prod.mk.inj hr).2]
    exact h w w₁ hbody
  · rw [hrun] at hr
    cases hr

end Keeps

/-! ### What an operation encrypts -/

/-- Between the two worlds, what was encrypted satisfies `P`. -/
def Sealed (P : Sealing → Prop) (w w' : World) : Prop := ∃ more, w'.sealed = w.sealed ++ more ∧ ∀ s ∈ more, P s

/-- Whatever the operation encrypts, whether it succeeds or fails, satisfies `P`. -/
def Seals {α : Type} (P : Sealing → Prop) (p : Act α) : Prop := p.Sat (fun _ => True) fun _ w w' => Sealed P w w'

section Seals

variable {α β : Type} {P Q : Sealing → Prop}

theorem Sealed.of_eq {w w' : World} (h : w'.sealed = w.sealed) : Sealed P w w' := ⟨[], by simp [h], by simp⟩

theorem Sealed.trans {w₁ w₂ w₃ : World} (h₁ : Sealed P w₁ w₂) (h₂ : Sealed P w₂ w₃) : Sealed P w₁ w₃ := by
  obtain ⟨m₁, e₁, hm₁⟩ := h₁
  obtain ⟨m₂, e₂, hm₂⟩ := h₂
  refine ⟨m₁ ++ m₂, by rw [e₂, e₁, List.append_assoc], fun s hs => ?_⟩
  rcases List.mem_append.mp hs with hs | hs
  · exact hm₁ s hs
  · exact hm₂ s hs

theorem Seals.run {p : Act α} (h : Seals P p) (w : World) : Sealed P w (p.run w).2 :=
  (Prog.run_sat (fun _ => .of_eq rfl) (fun _ _ _ => .trans) h (fun _ _ _ _ _ => trivial) (fun _ _ _ _ hG => hG)
    trivial).1

/-- What an operation encrypted is what was encrypted before it, or satisfies `P`. -/
theorem Seals.mem {p : Act α} (h : Seals P p) {w : World} {s : Sealing} (hs : s ∈ (p.run w).2.sealed) :
    s ∈ w.sealed ∨ P s := by
  obtain ⟨more, heq, hmore⟩ := h.run w
  rw [heq] at hs
  exact (List.mem_append.mp hs).imp id (hmore s)

theorem Keeps.seals {p : Act α} (h : Keeps World.sealed p) : Seals P p := by
  induction h with
  | done r => exact .done r
  | atom hact _ ih => exact .atom (fun w hw => .of_eq (hact w hw)) ih

theorem Seals.bind {p : Act α} {k : α → Act β} (hp : Seals P p) (hk : ∀ a, Seals P (k a)) : Seals P (p >>= k) :=
  Prog.Sat.bind hp hk

/-- What an operation encrypts satisfies whatever follows. -/
theorem Seals.mono {p : Act α} (h : Seals P p) (hPQ : ∀ s, P s → Q s) : Seals Q p := by
  induction h with
  | done r => exact .done r
  | atom hact _ ih =>
    refine .atom (fun w hw => ?_) ih
    obtain ⟨more, heq, hmore⟩ := hact w hw
    exact ⟨more, heq, fun s hs => hPQ s (hmore s hs)⟩

theorem Seals.connection {label : Label} {body : Act α} (hb : Seals P body) : Seals P (connection label body) := by
  refine Prog.Sat.atomic fun w _ => ?_
  have hrun := hb.run w
  rw [Prog.run_atomic]
  rcases hr : body.run w with ⟨e | a, w'⟩ <;> rw [hr] at hrun
  · exact hrun
  · exact hrun

end Seals

end MiniVault
