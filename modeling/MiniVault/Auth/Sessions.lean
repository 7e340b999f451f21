import MiniVault.Auth.Lockout
import MiniVault.Foundations.Rows

/-!
# Sessions

Runs of `register`, `login` and `logout`, and the tokens that `get_current_user` takes for a user.

## The model

* `sessionsOf` says without tables which sessions a run has opened, and which of them were closed.
* `StoredSessions` connects it with the rows: the rows of `sessions` are the sessions that were opened, in order.

## What is proved

* `StoredSessions.step`, `storedSessions` — each operation preserves the connection, so every run does.
* `current_user_iff` — a token is taken for a user exactly while a session is live that a login of the user
  returned it for.
* `run_logout_eq` — closing a session leaves every other as it was.
-/

namespace MiniVault

open Foundations

section Runs

variable [Platform]

/-! ### Runs -/

/-- A step of a run. -/
inductive AuthOp where
  /-- `AuthService.register`. -/
  | register (email passphrase confirmPassphrase : PyStr) (salt : Bytes)
  /-- `AuthService.login`. -/
  | login (email passphrase : PyStr) (coins : AuthService.LoginCoins)
  /-- `AuthService.logout`. -/
  | logout (token : PyStr)
  /-- Time passes. -/
  | advance (time : ℕ)

/-- What a step answers. -/
inductive AuthReply where
  /-- An account. -/
  | registered (account : AuthService.Registered)
  /-- A token. -/
  | login (result : AuthService.LoginResult)
  /-- Nothing. -/
  | nothing
  deriving DecidableEq

/-- The program of a step. -/
def AuthOp.exec : AuthOp → Act AuthReply
  | .register email passphrase confirmPassphrase salt => do
    return .registered (← AuthService.register email passphrase confirmPassphrase salt)
  | .login email passphrase coins => do return .login (← AuthService.login email passphrase coins)
  | .logout token => do
    AuthService.logout token
    return .nothing
  | .advance time => do
    Prog.change .clock fun w => { w with clock := w.clock + time }
    return .nothing

/-- The token a step is about. -/
def AuthOp.token : AuthOp → Option PyStr
  | .login _ _ coins => some coins.token
  | .logout token => some token
  | _ => none

/-- A token that is drawn is not the empty text. -/
def AuthOp.Drawn : AuthOp → Prop
  | .login _ _ coins => coins.token ≠ []
  | _ => True

instance : DecidablePred AuthOp.Drawn := fun op =>
  match op with
  | .login _ _ coins => inferInstanceAs (Decidable (coins.token ≠ []))
  | .register .. => .isTrue trivial
  | .logout _ => .isTrue trivial
  | .advance _ => .isTrue trivial

/-- A run. -/
def authSession : World → List AuthOp → List (AuthOp × Except Exc AuthReply) × World := Prog.session AuthOp.exec

/-! ### The sessions of a run -/

/-- A session that was opened. -/
structure Opened where
  /-- The token it was opened with. -/
  token : PyStr
  /-- The user it is of. -/
  email : PyStr
  /-- Its end, as it was returned. -/
  expiresAt : PyStr
  /-- It was closed. -/
  closed : Bool

/-- What a step makes of the sessions. -/
def sessionsAfter (sessions : List Opened) : AuthOp × Except Exc AuthReply → List Opened
  | (.login email _ _, .ok (.login result)) =>
    sessions ++ [⟨result.token, UserRepository.normalizeEmail email, result.expiresAt, false⟩]
  | (.logout token, _) => sessions.map fun s => if s.token = token then { s with closed := true } else s
  | _ => sessions

/-- The sessions that a run has opened. -/
def sessionsOf (past : List (AuthOp × Except Exc AuthReply)) : List Opened := past.foldl sessionsAfter []

/-- A login of the user returned the token for a session that ends later, and no logout has presented it since. -/
def Live (past : List (AuthOp × Except Exc AuthReply)) (token email : PyStr) (time : ℕ) : Prop :=
  ∃ before after spelling passphrase coins result expiresAt,
    past = before ++ (.login spelling passphrase coins, .ok (.login result)) :: after ∧
      UserRepository.normalizeEmail spelling = email ∧ result.token = token ∧
      fromisoformat (.str result.expiresAt) = .ok expiresAt ∧ time < expiresAt ∧ ∀ r ∈ after, r.1 ≠ .logout token

theorem sessionsOf_append (past : List (AuthOp × Except Exc AuthReply)) (r : AuthOp × Except Exc AuthReply) :
    sessionsOf (past ++ [r]) = sessionsAfter (sessionsOf past) r := by
  simp [sessionsOf]

/-- A session that is not closed was not closed before, or has just been opened. -/
theorem mem_sessionsAfter {sessions : List Opened} {r : AuthOp × Except Exc AuthReply} {s : Opened} (hopen : s.closed = false) :
    s ∈ sessionsAfter sessions r ↔ (s ∈ sessions ∧ r.1 ≠ .logout s.token) ∨
      ∃ spelling passphrase coins result, r = (.login spelling passphrase coins, .ok (.login result)) ∧
        s = ⟨result.token, UserRepository.normalizeEmail spelling, result.expiresAt, false⟩ := by
  rcases r with ⟨op, answer⟩
  rcases op with ⟨email, passphrase, confirm, salt⟩ | ⟨email, passphrase, coins⟩ | token | time
  · simp [sessionsAfter]
  · rcases answer with e | account | result | -
    · simp [sessionsAfter]
    · simp [sessionsAfter]
    · simp [sessionsAfter]
    · simp [sessionsAfter]
  · simp only [sessionsAfter, List.mem_map, ne_eq, AuthOp.logout.injEq, Prod.mk.injEq, reduceCtorEq, false_and,
      exists_false, or_false]
    constructor
    · rintro ⟨s', hs', rfl⟩
      by_cases htoken : s'.token = token
      · simp only [htoken, ↓reduceIte] at hopen
        cases hopen
      · simp only [htoken, ↓reduceIte]
        exact ⟨hs', fun h => htoken h.symm⟩
    · rintro ⟨hs, htoken⟩
      exact ⟨s, hs, if_neg fun h => htoken h.symm⟩
  · simp [sessionsAfter]

/-- The sessions of a run that are not closed are those a login opened and no logout has closed since. -/
theorem mem_sessionsOf {past : List (AuthOp × Except Exc AuthReply)} {s : Opened} (hopen : s.closed = false) :
    s ∈ sessionsOf past ↔ ∃ before after spelling passphrase coins result,
      past = before ++ (.login spelling passphrase coins, .ok (.login result)) :: after ∧
        s = ⟨result.token, UserRepository.normalizeEmail spelling, result.expiresAt, false⟩ ∧
        ∀ r ∈ after, r.1 ≠ .logout s.token := by
  induction past using List.reverseRecOn with
  | nil => simp [sessionsOf]
  | append_singleton past r ih =>
    rw [sessionsOf_append, mem_sessionsAfter hopen, ih]
    constructor
    · rintro (⟨⟨before, after, spelling, passphrase, coins, result, rfl, hs, hafter⟩, hr⟩ |
        ⟨spelling, passphrase, coins, result, rfl, hs⟩)
      · refine ⟨before, after ++ [r], spelling, passphrase, coins, result, by simp, hs, fun r' hr' => ?_⟩
        rcases List.mem_append.mp hr' with hr' | hr'
        · exact hafter r' hr'
        · rw [List.mem_singleton.mp hr']
          exact hr
      · exact ⟨past, [], spelling, passphrase, coins, result, rfl, hs, fun r' hr' => by cases hr'⟩
    · rintro ⟨before, after, spelling, passphrase, coins, result, hpast, hs, hafter⟩
      rcases List.eq_nil_or_concat after with rfl | ⟨after, last, rfl⟩
      · obtain ⟨rfl, hr⟩ := List.append_inj' hpast rfl
        exact .inr ⟨spelling, passphrase, coins, result, List.singleton_injective hr, hs⟩
      · rw [List.concat_eq_append] at hpast hafter
        rw [← List.cons_append, ← List.append_assoc] at hpast
        obtain ⟨rfl, hr⟩ := List.append_inj' hpast rfl
        obtain rfl := List.singleton_injective hr
        exact .inl ⟨⟨before, after, spelling, passphrase, coins, result, rfl, hs,
          fun r' hr' => hafter r' (List.mem_append_left _ hr')⟩, hafter _ (by simp)⟩

/-- A token is live where a session of the run with it is. -/
theorem live_iff {past : List (AuthOp × Except Exc AuthReply)} {token email : PyStr} {time : ℕ} :
    Live past token email time ↔ ∃ s ∈ sessionsOf past, s.closed = false ∧ s.token = token ∧ s.email = email ∧
      ∃ expiresAt, fromisoformat (.str s.expiresAt) = .ok expiresAt ∧ time < expiresAt := by
  constructor
  · rintro ⟨before, after, spelling, passphrase, coins, result, expiresAt, hpast, hemail, htoken, hexpires, htime, hafter⟩
    exact ⟨⟨result.token, UserRepository.normalizeEmail spelling, result.expiresAt, false⟩,
      (mem_sessionsOf rfl).mpr ⟨before, after, spelling, passphrase, coins, result, hpast, rfl, by rwa [htoken]⟩,
      rfl, htoken, hemail, expiresAt, hexpires, htime⟩
  · rintro ⟨s, hs, hopen, rfl, rfl, expiresAt, hexpires, htime⟩
    obtain ⟨before, after, spelling, passphrase, coins, result, hpast, rfl, hafter⟩ := (mem_sessionsOf hopen).mp hs
    exact ⟨before, after, spelling, passphrase, coins, result, expiresAt, hpast, rfl, rfl, hexpires, htime, hafter⟩

/-! ### What an operation does to the accounts -/

omit [Platform] in
/-- A session that is stored has a hash no other has, and a user. -/
theorem Database.insertSession_eq_ok {db db' : Database} {userId : ℤ} {tokenHash expiresAt now : PyStr}
    (h : db.insertSession userId tokenHash expiresAt now = .ok db') :
    (∀ row ∈ db.sessions.rows, row.tokenHash ≠ .str tokenHash) ∧ ∃ id, db' = { db with
      sessions := ⟨db.sessions.rows ++ [⟨id, .int userId, .str tokenHash, .str expiresAt, .none, .str now⟩], id⟩ } := by
  unfold insertSession at h
  split_ifs at h with huser hused hused
  · cases h
  · cases h
  · cases h
  · cases hid : db.sessions.nextId Session.id with
    | error e =>
      simp only [hid, error_bind] at h
      cases h
    | ok n =>
      simp only [hid, ok_bind] at h
      exact ⟨by simpa using hused, n, (Except.ok.inj h).symm⟩

/-- The sessions are as they were, and the users are still there. -/
structure Grows (w w' : World) : Prop where
  /-- The sessions. -/
  sessions : w'.db.sessions = w.db.sessions
  /-- A user keeps identifier and email. -/
  users : ∀ u ∈ w.db.users.rows, ∃ u' ∈ w'.db.users.rows, u'.id = u.id ∧ u'.email = u.email
  /-- No two users have one identifier. -/
  ids : (w.db.users.rows.map User.id).Nodup → (w'.db.users.rows.map User.id).Nodup

namespace Grows

omit [Platform] in
theorem of_users {w w' : World} (hsessions : w'.db.sessions = w.db.sessions) (husers : w'.db.users = w.db.users) : Grows w w' :=
  ⟨hsessions, fun u hu => ⟨u, by rwa [husers], rfl, rfl⟩, by rw [husers]; exact id⟩

omit [Platform] in
theorem refl (w : World) : Grows w w := .of_users rfl rfl

omit [Platform] in
theorem trans {w₁ w₂ w₃ : World} (h₁ : Grows w₁ w₂) (h₂ : Grows w₂ w₃) : Grows w₁ w₃ := by
  refine ⟨h₂.sessions.trans h₁.sessions, fun u hu => ?_, fun h => h₂.ids (h₁.ids h)⟩
  obtain ⟨u', hu', hid, hemail⟩ := h₁.users u hu
  obtain ⟨u'', hu'', hid', hemail'⟩ := h₂.users u' hu'
  exact ⟨u'', hu'', hid'.trans hid, hemail'.trans hemail⟩

omit [Platform] in
theorem updateLogin (w : World) (failedAttempts : ℤ) (lockedUntil : Value) (now : PyStr) (id : ℤ) :
    Grows w { w with db := w.db.updateLogin failedAttempts lockedUntil now id } := by
  have hid : ∀ u : User, (if u.id = id then
      { u with failedAttempts := .int failedAttempts, lockedUntil := lockedUntil, updatedAt := .str now } else u).id =
        u.id := by
    intro u
    split_ifs <;> rfl
  refine ⟨rfl, fun u hu => ⟨_, List.mem_map_of_mem hu, hid u, ?_⟩, ?_⟩
  · split_ifs <;> rfl
  · intro h
    unfold Database.updateLogin
    rw [List.map_map]
    have hsame := List.map_congr_left (g := User.id) (l := w.db.users.rows) fun u _ => hid u
    exact hsame ▸ h

omit [Platform] in
theorem insertUser {w : World} {email passwordHash now : PyStr} {db : Database}
    (h : w.db.insertUser email passwordHash now = .ok db) : Grows w { w with db := db } := by
  unfold Database.insertUser at h
  split_ifs at h with hexists
  · cases h
  obtain ⟨n, hn, h⟩ := bind_eq_ok.mp h
  obtain rfl := Except.ok.inj h
  refine ⟨rfl, fun u hu => ⟨u, List.mem_append_left _ hu, rfl, rfl⟩, fun hids => ?_⟩
  dsimp only
  rw [List.map_append, List.nodup_append]
  refine ⟨hids, by simp, fun a ha b hb => ?_⟩
  obtain ⟨u, hu, rfl⟩ := List.mem_map.mp ha
  rw [List.map_singleton, List.mem_singleton] at hb
  rw [hb]
  exact (Table.lt_nextId hn u hu).ne

end Grows

/-- Every step of the operation leaves the sessions and the users. -/
def LetsGrow {α : Type} (p : Act α) : Prop := p.Sat (fun _ => True) fun _ w w' => Grows w w'

namespace LetsGrow

variable {α β : Type}

omit [Platform] in
theorem run {p : Act α} (h : LetsGrow p) (w : World) : Grows w (p.run w).2 :=
  (Prog.run_sat Grows.refl (fun _ _ _ => .trans) h (fun _ _ _ _ _ => trivial) (fun _ _ _ _ hG => hG) trivial).1

omit [Platform] in
theorem look (l : Label) (f : World → Except Exc α) : LetsGrow (Prog.look l f) := Prog.Sat.look fun w _ => .refl w

omit [Platform] in
/-- A statement in a transaction of its own. -/
theorem statement {params : List Value} {f : Database → Except Exc (α × Database)} (label : Label)
    (h : ∀ w a db, f w.db = .ok (a, db) → Grows w { w with db := db }) : LetsGrow (connection label (execute params f)) := by
  refine Prog.Sat.atomic fun w _ => ?_
  show Grows w ((connection label (execute params f)).run w).2
  rw [run_connection, run_execute]
  rcases bindAll params with e | u
  · exact .refl w
  · rcases hf : f w.db with e | ⟨a, db⟩
    · exact .refl w
    · exact h w a db hf

omit [Platform] in
theorem query (params : List Value) {cells : α → List Value} (f : Database → α) (label : Label) :
    LetsGrow (connection label (MiniVault.query params cells f)) := by
  refine Prog.Sat.atomic fun w _ => ?_
  show Grows w ((connection label (MiniVault.query params cells f)).run w).2
  have hkept : Keeps (fun w => w) (connection label (MiniVault.query params cells f)) :=
    .connection (.query _ _) fun w w' (h : w' = w) => by rw [h]
  rw [hkept.run w]
  exact .refl w

end LetsGrow

theorem UserRepository.getByEmail_letsGrow (email : PyStr) : LetsGrow (getByEmail email) := .query _ _ _

omit [Platform] in
theorem UserRepository.resetLoginFailures_letsGrow (label : Label) (id : ℤ) : LetsGrow (resetLoginFailures label id) := by
  refine Prog.Sat.bind (LetsGrow.look _ _) fun now => LetsGrow.statement _ fun w a db hdb => ?_
  obtain ⟨-, rfl⟩ := Prod.mk.inj (Except.ok.inj hdb)
  exact .updateLogin _ _ _ _ _

omit [Platform] in
theorem UserRepository.updateAfterFailedLogin_letsGrow (label : Label) (id count : ℤ) (lockedUntil : Value) :
    LetsGrow (updateAfterFailedLogin label id count lockedUntil) := by
  refine Prog.Sat.bind (LetsGrow.look _ _) fun now => LetsGrow.statement _ fun w a db hdb => ?_
  obtain ⟨-, rfl⟩ := Prod.mk.inj (Except.ok.inj hdb)
  exact .updateLogin _ _ _ _ _

theorem UserRepository.create_letsGrow (email passwordHash : PyStr) : LetsGrow (create email passwordHash) := by
  refine Prog.Sat.bind (LetsGrow.look _ _) fun now => Prog.Sat.bind (Prog.Sat.handle ?_ fun e => ?_) fun _ =>
    Prog.Sat.bind (getByEmail_letsGrow _) fun row => ?_
  · apply LetsGrow.statement _
    intro w a db hdb
    rcases hinsert : w.db.insertUser (normalizeEmail email) passwordHash now with e | db'
    · rw [hinsert] at hdb
      cases hdb
    · rw [hinsert] at hdb
      obtain ⟨-, rfl⟩ := Prod.mk.inj (Except.ok.inj hdb)
      exact .insertUser hinsert
  · split <;> exact .done _
  · cases row <;> exact .done _

theorem hashPassword_letsGrow (password : PyStr) (salt : Bytes) : LetsGrow (hashPassword password salt) :=
  Prog.Sat.ite (fun _ => .done _) fun _ => Prog.Sat.bind (LetsGrow.look _ _) fun _ => .done _

theorem AuthService.register_letsGrow (email passphrase confirmPassphrase : PyStr) (salt : Bytes) :
    LetsGrow (register email passphrase confirmPassphrase salt) := by
  unfold register
  split_ifs
  · exact .done _
  · split
    · exact .done _
    · exact Prog.Sat.bind (hashPassword_letsGrow _ _) fun passwordHash =>
        Prog.Sat.bind (UserRepository.create_letsGrow _ _) fun _ => .done _

namespace AuthService

theorem dummyHash_letsGrow (salt : Bytes) : LetsGrow (dummyHash salt) := by
  refine Prog.Sat.bind (LetsGrow.look _ _) fun kept => ?_
  cases kept with
  | some hash => exact .done _
  | none =>
    exact Prog.Sat.bind (hashPassword_letsGrow _ _) fun hash =>
      Prog.Sat.bind (Prog.Sat.change fun w _ => .of_users rfl rfl) fun _ => .done _

theorem passLockout_letsGrow (email : PyStr) (user : User) : LetsGrow (passLockout email user) := by
  unfold passLockout
  split_ifs
  · exact .done _
  · refine Prog.Sat.bind (.done _) fun lockedUntil => Prog.Sat.bind (LetsGrow.look _ _) fun time => ?_
    split_ifs
    · exact .done _
    · refine Prog.Sat.bind (UserRepository.resetLoginFailures_letsGrow _ _) fun _ =>
        Prog.Sat.bind (UserRepository.getByEmail_letsGrow _) fun row => ?_
      cases row <;> exact .done _

theorem registerFailedAttempt_letsGrow (user : User) : LetsGrow (registerFailedAttempt user) := by
  refine Prog.Sat.bind (.done _) fun count => Prog.Sat.bind (LetsGrow.look _ _) fun threshold => ?_
  split_ifs
  · refine Prog.Sat.bind ?_ fun _ => UserRepository.updateAfterFailedLogin_letsGrow _ _ _ _
    exact Prog.Sat.bind (LetsGrow.look _ _) fun _ => Prog.Sat.bind (LetsGrow.look _ _) fun _ =>
      Prog.Sat.bind (.done _) fun _ => .done _
  · exact UserRepository.updateAfterFailedLogin_letsGrow _ _ _ _

end AuthService

/-! ### What a login opens -/

/-- There is a user with the identifier and the email. -/
def Knows (w : World) (id : ℤ) (email : PyStr) : Prop := ∃ u ∈ w.db.users.rows, u.id = id ∧ u.email = .str email

omit [Platform] in
theorem Knows.grows {w w' : World} {id : ℤ} {email : PyStr} (h : Knows w id email) (hgrows : Grows w w') :
    Knows w' id email := by
  obtain ⟨u, hu, hid, hemail⟩ := h
  obtain ⟨u', hu', hid', hemail'⟩ := hgrows.users u hu
  exact ⟨u', hu', hid'.trans hid, hemail'.trans hemail⟩

omit [Platform] in
theorem knows_of_selectUser {w : World} {email : PyStr} {u : User} (h : w.db.selectUser email = some u) : Knows w u.id email := by
  have hemail := List.find?_some h
  rw [Value.sqlEq_str] at hemail
  exact ⟨u, mem_of_selectUser h, rfl, of_decide_eq_true hemail⟩

theorem UserRepository.run_getByEmail_eq_ok {spelling : PyStr} {u : Option User} {w w' : World}
    (h : (getByEmail spelling).run w = (.ok u, w')) : w' = w ∧ u = w.db.selectUser (normalizeEmail spelling) := by
  obtain ⟨-, -, hu, hw⟩ := run_query_eq_ok.mp (run_connection_eq_ok.mp h)
  exact ⟨hw.symm, hu.symm⟩

/-- The session that a login has opened: for a user it knows, and with a time of the calendar for its end. -/
def OpensSession (w : World) (email token : PyStr) (result : AuthService.LoginResult) (w' : World) : Prop :=
  ∃ w₁ id tokenHash expiresAt now db, Grows w w₁ ∧ Knows w₁ id email ∧ result = ⟨token, isoformat expiresAt⟩ ∧
    expiresAt ≤ maxTime ∧ hashToken token = .ok tokenHash ∧
    w₁.db.insertSession id tokenHash (isoformat expiresAt) now = .ok db ∧ w' = { w₁ with db := db }

theorem OpensSession.of_grows {w w₀ w' : World} {email token : PyStr} {result : AuthService.LoginResult} (hgrows : Grows w w₀)
    (h : OpensSession w₀ email token result w') : OpensSession w email token result w' := by
  obtain ⟨w₁, id, tokenHash, expiresAt, now, db, hgrows', hrest⟩ := h
  exact ⟨w₁, id, tokenHash, expiresAt, now, db, hgrows.trans hgrows', hrest⟩

namespace SessionRepository

omit [Platform] in
theorem create_eq_ok {userId : ℤ} {tokenHash expiresAt : PyStr} {w w' : World} {u : Unit}
    (h : (create userId tokenHash expiresAt).run w = (.ok u, w')) :
    ∃ now db, w.db.insertSession userId tokenHash expiresAt now = .ok db ∧ w' = { w with db := db } := by
  obtain ⟨now, w₁, hnow, hrun⟩ := Prog.run_bind_eq_ok.mp h
  obtain ⟨-, rfl⟩ := Prod.mk.inj ((run_now w).symm.trans hnow)
  obtain ⟨-, db, hinsert, rfl⟩ := run_execute_eq_ok.mp (run_connection_eq_ok.mp hrun)
  rcases hdb : w.db.insertSession userId tokenHash expiresAt now with e | db'
  · rw [hdb] at hinsert
    cases hinsert
  · rw [hdb] at hinsert
    obtain ⟨-, rfl⟩ := Prod.mk.inj (Except.ok.inj hinsert)
    exact ⟨now, db', hdb, rfl⟩

omit [Platform] in
theorem create_error {userId : ℤ} {tokenHash expiresAt : PyStr} {w w' : World} {e : Exc}
    (h : (create userId tokenHash expiresAt).run w = (.error e, w')) : Grows w w' := by
  have hdb : FailKeeps World.db (create userId tokenHash expiresAt) :=
    FailKeeps.bind Keeps.now fun _ => FailKeeps.connection (g := fun _ => ()) (.execute fun _ _ _ _ => rfl) fun _ _ _ => rfl
  have hsame := hdb w e w' h
  exact .of_users (by rw [hsame]) (by rw [hsame])

end SessionRepository

namespace AuthService

/-- The part of `login` that opens a session leaves the sessions as they were, or opens one. -/
theorem openSession_cases {w : World} {user : User} {email : PyStr} (h : Knows w user.id email) (token : PyStr) :
    (∃ e, ((openSession user token).run w).1 = .error e ∧ Grows w ((openSession user token).run w).2) ∨
      ∃ result, ((openSession user token).run w).1 = .ok result ∧
        OpensSession w email token result ((openSession user token).run w).2 := by
  have hreset := (UserRepository.resetLoginFailures_letsGrow (.resetLogin user false) user.id).run w
  unfold openSession
  rcases hr : (UserRepository.resetLoginFailures (.resetLogin user false) user.id).run w with ⟨e | u, w₁⟩
  · rw [hr] at hreset
    rw [Prog.run_bind_error hr]
    exact .inl ⟨e, rfl, hreset⟩
  rw [hr] at hreset
  rw [Prog.run_bind_ok hr]
  rcases hadd : addMinutes w₁.clock (sessionTtlMinutes w₁.environ) with e | expiresAt
  · rw [Prog.run_bind_error ((run_computeExpiry w₁).trans (by rw [hadd]))]
    exact .inl ⟨e, rfl, hreset⟩
  rw [Prog.run_bind_ok ((run_computeExpiry w₁).trans (by rw [hadd]))]
  rcases hhash : hashToken token with e | tokenHash
  · rw [Prog.run_bind_error (Prog.run_done _ _)]
    exact .inl ⟨e, rfl, hreset⟩
  rw [Prog.run_bind_ok (Prog.run_done _ _)]
  rcases hcreate : (SessionRepository.create user.id tokenHash (isoformat expiresAt)).run w₁ with ⟨e | u, w₂⟩
  · rw [Prog.run_bind_error hcreate]
    exact .inl ⟨e, rfl, hreset.trans (SessionRepository.create_error hcreate)⟩
  · rw [Prog.run_bind_ok hcreate]
    obtain ⟨now, db, hinsert, rfl⟩ := SessionRepository.create_eq_ok hcreate
    exact .inr ⟨⟨token, isoformat expiresAt⟩, rfl, w₁, user.id, tokenHash, expiresAt, now, db, hreset, h.grows hreset, rfl,
      (addMinutes_eq_ok.mp hadd).2, hhash, hinsert, rfl⟩

/-- Where no lockout stops it, `login` goes on with a user it knows. -/
theorem passLockout_knows {w w' : World} {spelling : PyStr} {user user' : User}
    (h : Knows w user.id (UserRepository.normalizeEmail spelling))
    (hrun : (passLockout spelling user).run w = (.ok user', w')) : Knows w' user'.id (UserRepository.normalizeEmail spelling) := by
  have hgrows := (passLockout_letsGrow spelling user).run w
  rw [hrun] at hgrows
  unfold passLockout at hrun
  split_ifs at hrun
  · obtain ⟨heq, rfl⟩ := Prod.mk.inj hrun
    rw [← Except.ok.inj heq]
    exact h
  obtain ⟨lockedUntil, w₁, -, hrun⟩ := Prog.run_bind_eq_ok.mp hrun
  obtain ⟨time, w₂, -, hrun⟩ := Prog.run_bind_eq_ok.mp hrun
  split_ifs at hrun
  · cases hrun
  obtain ⟨u, w₃, -, hrun⟩ := Prog.run_bind_eq_ok.mp hrun
  -- the user is read again
  obtain ⟨row, w₄, hfound, hrun⟩ := Prog.run_bind_eq_ok.mp hrun
  obtain ⟨rfl, rfl⟩ := UserRepository.run_getByEmail_eq_ok hfound
  split at hrun
  · cases hrun
  · next row hrow =>
    obtain ⟨heq, rfl⟩ := Prod.mk.inj hrun
    rw [← Except.ok.inj heq]
    exact knows_of_selectUser hrow

/-- **A login** leaves the sessions as they were, or opens one. -/
theorem login_cases (spelling passphrase : PyStr) (coins : LoginCoins) (w : World) :
    (∃ e, ((login spelling passphrase coins).run w).1 = .error e ∧ Grows w ((login spelling passphrase coins).run w).2) ∨
      ∃ result, ((login spelling passphrase coins).run w).1 = .ok result ∧
        OpensSession w (UserRepository.normalizeEmail spelling) coins.token result
          ((login spelling passphrase coins).run w).2 := by
  unfold login
  have hget := (UserRepository.getByEmail_letsGrow spelling).run w
  rcases hfound : (UserRepository.getByEmail spelling).run w with ⟨e | user, w₀⟩
  · rw [hfound] at hget
    rw [Prog.run_bind_error hfound]
    exact .inl ⟨e, rfl, hget⟩
  obtain ⟨rfl, rfl⟩ := UserRepository.run_getByEmail_eq_ok hfound
  rw [Prog.run_bind_ok hfound]
  rcases huser : w₀.db.selectUser (UserRepository.normalizeEmail spelling) with - | user
  · dsimp only
    have hgrows := (dummyHash_letsGrow coins.dummySalt).run w₀
    rcases hhash : (dummyHash coins.dummySalt).run w₀ with ⟨e | hash, w₁⟩ <;> rw [hhash] at hgrows
    · rw [Prog.run_bind_error hhash]
      exact .inl ⟨e, rfl, hgrows⟩
    rw [Prog.run_bind_ok hhash]
    rcases hverify : (verifyPassword passphrase (.str hash)).run w₁ with ⟨e | b, w₂⟩
    · obtain ⟨-, rfl⟩ := Prod.mk.inj ((run_verifyPassword _ _ _).symm.trans hverify)
      rw [Prog.run_bind_error hverify]
      exact .inl ⟨e, rfl, hgrows⟩
    · obtain ⟨-, rfl⟩ := Prod.mk.inj ((run_verifyPassword _ _ _).symm.trans hverify)
      rw [Prog.run_bind_ok hverify]
      exact .inl ⟨_, rfl, hgrows⟩
  dsimp only
  have hpass := (passLockout_letsGrow spelling user).run w₀
  rcases hrun : (passLockout spelling user).run w₀ with ⟨e | user', w₁⟩
  · rw [hrun] at hpass
    rw [Prog.run_bind_error hrun]
    exact .inl ⟨e, rfl, hpass⟩
  rw [hrun] at hpass
  rw [Prog.run_bind_ok hrun]
  have hknows := passLockout_knows (knows_of_selectUser huser) hrun
  rcases hverify : (verifyPassword passphrase user'.passwordHash).run w₁ with ⟨e | b, w₂⟩
  · obtain ⟨-, rfl⟩ := Prod.mk.inj ((run_verifyPassword _ _ _).symm.trans hverify)
    rw [Prog.run_bind_error hverify]
    exact .inl ⟨e, rfl, hpass⟩
  obtain ⟨-, rfl⟩ := Prod.mk.inj ((run_verifyPassword _ _ _).symm.trans hverify)
  rw [Prog.run_bind_ok hverify]
  cases b with
  | false =>
    have hfail := (registerFailedAttempt_letsGrow user').run w₁
    simp only [Bool.not_false, ↓reduceIte]
    rcases hcount : (registerFailedAttempt user').run w₁ with ⟨e | u, w₃⟩
    · rw [hcount] at hfail
      rw [Prog.run_bind_error hcount]
      exact .inl ⟨e, rfl, hpass.trans hfail⟩
    · rw [hcount] at hfail
      rw [Prog.run_bind_ok hcount]
      exact .inl ⟨_, rfl, hpass.trans hfail⟩
  | true =>
    rcases openSession_cases hknows coins.token with ⟨e, he, hgrows⟩ | ⟨result, hresult, hopens⟩
    · exact .inl ⟨e, he, hpass.trans hgrows⟩
    · exact .inr ⟨result, hresult, hopens.of_grows hpass⟩

end AuthService

/-! ### What a logout closes -/

/-- The world after the sessions with a hash were revoked. -/
def World.afterLogout (w : World) (tokenHash : PyStr) : World :=
  { w with db := (w.db.revokeSession (isoformat w.clock) tokenHash).2 }

omit [Platform] in
theorem SessionRepository.run_revoke (tokenHash : PyStr) (w : World) :
    (revoke tokenHash).run w =
      (.ok ((w.db.revokeSession (isoformat w.clock) tokenHash).1 > 0), w.afterLogout tokenHash) := by
  have hbind : ∀ now : PyStr, Bindable now → bindAll [.str now] = .ok () := fun now hnow =>
    bindAll_ok (by simp [bindValue_str hnow])
  refine Prog.run_bind_eq_ok.mpr ⟨_, _, run_now w, ?_⟩
  exact run_connection_eq_ok.mpr (Prog.run_bind_eq_ok.mpr
    ⟨_, _, run_execute_eq_ok.mpr ⟨hbind _ (bindable_isoformat _), _, rfl, rfl⟩, rfl⟩)

theorem AuthService.run_logout_ok {token tokenHash : PyStr} (h : hashToken token = .ok tokenHash) (w : World) :
    (logout token).run w = (.ok (), w.afterLogout tokenHash) := by
  unfold logout
  rw [h, Prog.run_bind_ok (Prog.run_done _ _),
    Prog.run_bind_ok (SessionRepository.run_revoke tokenHash w)]
  rfl

theorem AuthService.run_logout_error {token : PyStr} {e : Exc} (h : hashToken token = .error e) (w : World) :
    (logout token).run w = (.error e, w) := by
  unfold logout
  rw [h]
  rfl

/-! ### The rows of the sessions -/

/-- SHA-256 tells the tokens apart. -/
def HashInjective (tokens : Set PyStr) : Prop :=
  ∀ s ∈ tokens, ∀ t ∈ tokens, ∀ a b, utf8Encode s = some a → utf8Encode t = some b →
    Platform.sha256 a = Platform.sha256 b → a = b

theorem hashToken_inj {tokens : Set PyStr} (hinj : HashInjective tokens) {s t : PyStr} (hs : s ∈ tokens) (ht : t ∈ tokens)
    {tokenHash : PyStr} (hhash : hashToken s = .ok tokenHash) (hhash' : hashToken t = .ok tokenHash) : s = t := by
  unfold hashToken at hhash hhash'
  rcases ha : utf8Encode s with - | a
  · rw [ha] at hhash
    cases hhash
  rcases hb : utf8Encode t with - | b
  · rw [hb] at hhash'
    cases hhash'
  rw [ha] at hhash
  rw [hb] at hhash'
  have hsame := (Except.ok.inj hhash).trans (Except.ok.inj hhash').symm
  obtain rfl := hinj s hs t ht a b ha hb (flatMap_hexByte_inj (ofChars_inj hsame))
  exact utf8Encode_inj ha hb

/-- The row stores the session. -/
structure StoredAs (w : World) (s : Opened) (row : Session) : Prop where
  /-- The token, by its hash. -/
  token : ∃ tokenHash, hashToken s.token = .ok tokenHash ∧ row.tokenHash = .str tokenHash
  /-- The user, by the identifier. -/
  user : ∃ id, Knows w id s.email ∧ row.userId = .int id
  /-- The end. -/
  expiresAt : row.expiresAt = .str s.expiresAt
  /-- It can be read. -/
  calendar : ∃ time, fromisoformat (.str s.expiresAt) = .ok time
  /-- A session that was closed is revoked. -/
  closed : row.revokedAt = .none ↔ s.closed = false
  /-- The row can be fetched. -/
  cells : Fetchable row.cells

/-- The rows store the sessions of a run, in order. -/
structure StoredSessions (tokens : Set PyStr) (past : List (AuthOp × Except Exc AuthReply)) (w : World) : Prop where
  /-- Row by row. -/
  rows : Corresponds (StoredAs w) (sessionsOf past) w.db.sessions.rows
  /-- The tokens are those of the run. -/
  mem : ∀ s ∈ sessionsOf past, s.token ∈ tokens
  /-- They were drawn. -/
  drawn : ∀ s ∈ sessionsOf past, s.token ≠ []
  /-- No two sessions have one hash. -/
  hashes : (w.db.sessions.rows.map Session.tokenHash).Nodup
  /-- No two users have one identifier. -/
  ids : (w.db.users.rows.map User.id).Nodup

theorem StoredAs.grows {w w' : World} {s : Opened} {row : Session} (h : StoredAs w s row) (hgrows : Grows w w') :
    StoredAs w' s row := by
  obtain ⟨id, hknows, hid⟩ := h.user
  exact ⟨h.token, ⟨id, hknows.grows hgrows, hid⟩, h.expiresAt, h.calendar, h.closed, h.cells⟩

namespace StoredSessions

variable {tokens : Set PyStr} {past : List (AuthOp × Except Exc AuthReply)} {w w' : World}

theorem start (environ : PyStr → Option PyStr) : StoredSessions tokens [] (.fresh environ) where
  rows := .nil
  mem s hs := by cases hs
  drawn s hs := by cases hs
  hashes := by simp [World.fresh, Database.fresh, Table.empty]
  ids := by simp [World.fresh, Database.fresh, Table.empty]

/-- What opens and closes no session leaves the rows. -/
theorem grows (h : StoredSessions tokens past w) (hgrows : Grows w w') {r : AuthOp × Except Exc AuthReply}
    (hsame : sessionsAfter (sessionsOf past) r = sessionsOf past) : StoredSessions tokens (past ++ [r]) w' := by
  refine ⟨?_, ?_, ?_, by rw [hgrows.sessions]; exact h.hashes, hgrows.ids h.ids⟩
  · rw [sessionsOf_append, hsame, hgrows.sessions]
    exact List.Forall₂.imp (fun _ _ hs => hs.grows hgrows) h.rows
  · rw [sessionsOf_append, hsame]
    exact h.mem
  · rw [sessionsOf_append, hsame]
    exact h.drawn

/-- A login that succeeds adds a row. -/
theorem opens (h : StoredSessions tokens past w) {spelling passphrase : PyStr} {coins : AuthService.LoginCoins}
    {result : AuthService.LoginResult} (htoken : coins.token ∈ tokens) (hdrawn : coins.token ≠ [])
    (hopens : OpensSession w (UserRepository.normalizeEmail spelling) coins.token result w') :
    StoredSessions tokens (past ++ [(.login spelling passphrase coins, .ok (.login result))]) w' := by
  obtain ⟨w₁, id, tokenHash, expiresAt, now, db, hgrows, hknows, rfl, hcalendar, hhash, hinsert, rfl⟩ := hopens
  obtain ⟨hused, n, rfl⟩ := Database.insertSession_eq_ok hinsert
  have hold : Corresponds (StoredAs w₁) (sessionsOf past) w₁.db.sessions.rows := by
    rw [hgrows.sessions]
    exact List.Forall₂.imp (fun _ _ hs => hs.grows hgrows) h.rows
  refine ⟨?_, ?_, ?_, ?_, hgrows.ids h.ids⟩
  · rw [sessionsOf_append]
    refine Corresponds.append_singleton (List.Forall₂.imp (fun _ _ hs => ?_) hold) ?_
    · exact ⟨hs.token, hs.user, hs.expiresAt, hs.calendar, hs.closed, hs.cells⟩
    · exact ⟨⟨tokenHash, hhash, rfl⟩, ⟨id, hknows, rfl⟩, rfl, ⟨expiresAt, fromisoformat_isoformat hcalendar⟩, by simp,
        by simp [Session.cells]⟩
  · rw [sessionsOf_append]
    intro s hs
    rcases List.mem_append.mp hs with hs | hs
    · exact h.mem s hs
    · rw [List.mem_singleton.mp hs]
      exact htoken
  · rw [sessionsOf_append]
    intro s hs
    rcases List.mem_append.mp hs with hs | hs
    · exact h.drawn s hs
    · rw [List.mem_singleton.mp hs]
      exact hdrawn
  · dsimp only
    rw [List.map_append, List.nodup_append]
    refine ⟨by rw [hgrows.sessions]; exact h.hashes, by simp, fun a ha b hb => ?_⟩
    obtain ⟨row, hrow, rfl⟩ := List.mem_map.mp ha
    rw [List.map_singleton, List.mem_singleton] at hb
    rw [hb]
    intro heq
    exact hused row hrow heq

/-- A logout revokes the rows of its token. -/
theorem closes (h : StoredSessions tokens past w) (hinj : HashInjective tokens) {token : PyStr} (htoken : token ∈ tokens)
    {tokenHash : PyStr} (hhash : hashToken token = .ok tokenHash) (answer : Except Exc AuthReply) :
    StoredSessions tokens (past ++ [(.logout token, answer)]) (w.afterLogout tokenHash) := by
  have hgrows : Corresponds (StoredAs (w.afterLogout tokenHash)) (sessionsOf past) w.db.sessions.rows :=
    List.Forall₂.imp (fun _ _ hs => ⟨hs.token, hs.user, hs.expiresAt, hs.calendar, hs.closed, hs.cells⟩) h.rows
  refine ⟨?_, ?_, ?_, ?_, h.ids⟩
  · rw [sessionsOf_append]
    apply hgrows.map
    intro s hs row hrow hstored
    obtain ⟨tokenHash', hhash', hrowHash⟩ := hstored.token
    have hsame : s.token = token ↔ row.tokenHash = .str tokenHash := by
      rw [hrowHash, Value.str.injEq]
      constructor
      · rintro rfl
        exact Except.ok.inj (hhash'.symm.trans hhash)
      · rintro rfl
        exact hashToken_inj hinj (h.mem s hs) htoken hhash' hhash
    by_cases hthis : s.token = token
    · -- the session is closed, and its row has a time in `revoked_at`
      have hrow' := hsame.mp hthis
      rw [if_pos hthis]
      split_ifs with hrevoked
      · refine ⟨hstored.token, hstored.user, hstored.expiresAt, hstored.calendar, by simp, ?_⟩
        have hcells := hstored.cells
        simp only [Session.cells, fetchable_cons, fetchable_nil, and_true] at hcells ⊢
        exact ⟨hcells.1, hcells.2.1, hcells.2.2.1, rfl, hcells.2.2.2.2⟩
      · refine ⟨hstored.token, hstored.user, hstored.expiresAt, hstored.calendar, ?_, hstored.cells⟩
        simp only [hrow', Value.sqlEq_str, decide_true, Bool.true_and, decide_eq_true_eq] at hrevoked
        simp [hrevoked]
    · rw [if_neg hthis, if_neg (by simp [mt hsame.mpr hthis])]
      exact hstored
  · rw [sessionsOf_append]
    intro s hs
    obtain ⟨s', hs', rfl⟩ := List.mem_map.mp hs
    split_ifs
    · exact h.mem s' hs'
    · exact h.mem s' hs'
  · rw [sessionsOf_append]
    intro s hs
    obtain ⟨s', hs', rfl⟩ := List.mem_map.mp hs
    split_ifs
    · exact h.drawn s' hs'
    · exact h.drawn s' hs'
  · unfold World.afterLogout Database.revokeSession
    dsimp only
    rw [List.map_map]
    have hkept := List.map_congr_left (l := w.db.sessions.rows) (f := Session.tokenHash ∘ fun s =>
      if (s.tokenHash.sqlEq (.str tokenHash) && s.revokedAt = .none) = true then
        { s with revokedAt := .str (isoformat w.clock) } else s) (g := Session.tokenHash) fun s _ => by
          simp only [Function.comp_apply]
          split_ifs <;> rfl
    exact hkept ▸ h.hashes

/-- **Every operation keeps the rows to the sessions.** -/
theorem step (h : StoredSessions tokens past w) (hinj : HashInjective tokens) (op : AuthOp)
    (htokens : ∀ token ∈ op.token, token ∈ tokens) (hdrawn : op.Drawn) :
    StoredSessions tokens (past ++ [(op, (op.exec.run w).1)]) (op.exec.run w).2 := by
  cases op with
  | register email passphrase confirmPassphrase salt =>
    have hgrows := (AuthService.register_letsGrow email passphrase confirmPassphrase salt).run w
    simp only [AuthOp.exec, run_answer]
    rcases hrun : (AuthService.register email passphrase confirmPassphrase salt).run w with ⟨e | a, w'⟩
    · rw [hrun] at hgrows
      exact h.grows hgrows rfl
    · rw [hrun] at hgrows
      exact h.grows hgrows rfl
  | login email passphrase coins =>
    have hcases := AuthService.login_cases email passphrase coins w
    simp only [AuthOp.exec, run_answer]
    rcases hrun : (AuthService.login email passphrase coins).run w with ⟨answer, w'⟩
    rw [hrun] at hcases
    rcases hcases with ⟨e, rfl, hgrows⟩ | ⟨result, rfl, hopens⟩
    · exact h.grows hgrows rfl
    · exact h.opens (htokens coins.token rfl) hdrawn hopens
  | logout token =>
    simp only [AuthOp.exec]
    rcases hhash : hashToken token with e | tokenHash
    · rw [Prog.run_bind_error (AuthService.run_logout_error hhash w)]
      apply h.grows (.refl w)
      -- no session has a token without a hash
      refine (List.map_congr_left fun s hs => if_neg ?_).trans (List.map_id _)
      rintro rfl
      obtain ⟨row, -, hstored⟩ := h.rows.exists_left hs
      obtain ⟨tokenHash, hhash', -⟩ := hstored.token
      rw [hhash] at hhash'
      cases hhash'
    · rw [Prog.run_bind_ok (AuthService.run_logout_ok hhash w)]
      exact h.closes hinj (htokens token rfl) hhash _
  | advance time =>
    have hgrows : Grows w ((AuthOp.advance time).exec.run w).2 := .of_users rfl rfl
    exact h.grows hgrows rfl

/-- **Every run does.** -/
theorem session (environ : PyStr → Option PyStr) (hinj : HashInjective tokens) {ops : List AuthOp}
    (htokens : ∀ op ∈ ops, ∀ token ∈ op.token, token ∈ tokens) (hdrawn : ∀ op ∈ ops, op.Drawn) :
    StoredSessions tokens (authSession (.fresh environ) ops).1 (authSession (.fresh environ) ops).2 := by
  refine Prog.session_invariant_of (I := StoredSessions tokens) (C := fun _ _ op => op ∈ ops)
    (start environ) (fun past w op h hop => h.step hinj op (htokens op hop) (hdrawn op hop)) ?_
  rintro before op after rfl
  simp

end StoredSessions

/-! ### Who a token is taken for -/

omit [Platform] in
theorem Database.selectActiveSession_eq_some {db : Database} (hhashes : (db.sessions.rows.map Session.tokenHash).Nodup)
    (hids : (db.users.rows.map User.id).Nodup) {row : Session} (hrow : row ∈ db.sessions.rows) {tokenHash : PyStr}
    (hhash : row.tokenHash = .str tokenHash) (hrevoked : row.revokedAt = .none) {u : User} (hu : u ∈ db.users.rows)
    (huser : row.userId = .int u.id) : db.selectActiveSession tokenHash = some (row, u) := by
  have hsession : (db.sessions.rows.filter fun s => s.tokenHash.sqlEq (.str tokenHash) && s.revokedAt = .none) = [row] :=
    filter_eq_singleton hhashes hrow (by simp [hhash, hrevoked]) fun s _ hs => by
      simp only [Value.sqlEq_str, Bool.and_eq_true, decide_eq_true_eq] at hs
      exact hs.1.trans hhash.symm
  have husers : (db.users.rows.filter fun r => row.userId.sqlEq (.int r.id)) = [u] :=
    filter_eq_singleton hids hu (by simp [huser]) fun r _ hr => by
      simp only [huser, Value.sqlEq_int, Value.int.injEq, decide_eq_true_eq] at hr
      exact hr.symm
  unfold selectActiveSession
  rw [hsession, List.flatMap_singleton, husers]
  rfl

omit [Platform] in
theorem Database.selectActiveSession_eq_none {db : Database} {tokenHash : PyStr}
    (h : ∀ row ∈ db.sessions.rows, row.tokenHash = .str tokenHash → row.revokedAt ≠ .none) :
    db.selectActiveSession tokenHash = none := by
  have hsession : (db.sessions.rows.filter fun s => s.tokenHash.sqlEq (.str tokenHash) && s.revokedAt = .none) = [] := by
    apply List.filter_eq_nil_iff.mpr
    intro s hs hboth
    simp only [Value.sqlEq_str, Bool.and_eq_true, decide_eq_true_eq] at hboth
    exact h s hs hboth.1 hboth.2
  unfold selectActiveSession
  rw [hsession]
  rfl

omit [Platform] in
theorem SessionRepository.run_findActiveByTokenHash {tokenHash : PyStr}
    {row : Option (Session × User)} {w : World} (hselected : w.db.selectActiveSession tokenHash = row)
    (hcells : ∀ r ∈ row, Fetchable (Session.joinedCells r)) :
    (findActiveByTokenHash tokenHash).run w = (.ok row, w) := by
  unfold findActiveByTokenHash
  rw [run_connection_eq_ok, run_query_eq_ok]
  exact ⟨bindAll_nil, by rwa [hselected, fetchable_fetchone], hselected, rfl⟩

section Lookup

variable {tokens : Set PyStr} {past : List (AuthOp × Except Exc AuthReply)} {w : World} {scheme x : PyStr}

/-- The row of a session with the email of its user can be fetched. -/
theorem StoredAs.fetchable {s : Opened} {row : Session} {u : User} (h : StoredAs w s row) (hemail : u.email = .str s.email) :
    Fetchable (Session.joinedCells (row, u)) := by
  refine List.forall_mem_append.mpr ⟨h.cells, List.forall_mem_singleton.mpr ?_⟩
  rw [hemail]
  rfl

/-- A token that is live is taken for its user. -/
theorem StoredSessions.current_user (h : StoredSessions tokens past w) (hscheme : Platform.lower scheme = py "bearer")
    {email : PyStr} (hlive : Live past (strip x) email w.clock) :
    ∃ userId, (getCurrentUser (some (scheme, x))).run w = (.ok ⟨.int userId, .str email, strip x⟩, w) := by
  obtain ⟨s, hs, hopen, htoken, hemail, expiresAt, hexpires, htime⟩ := live_iff.mp hlive
  obtain ⟨row, hrow, hstored⟩ := h.rows.exists_left hs
  obtain ⟨tokenHash, hhash, hrowHash⟩ := hstored.token
  obtain ⟨id, ⟨u, hu, rfl, huemail⟩, huser⟩ := hstored.user
  have hfound := Database.selectActiveSession_eq_some h.hashes h.ids hrow hrowHash (hstored.closed.mpr hopen) hu huser
  have hx : strip x ≠ [] := htoken ▸ h.drawn s hs
  rw [htoken] at hhash
  have hread : fromisoformat row.expiresAt = .ok expiresAt := hstored.expiresAt ▸ hexpires
  have hrun := SessionRepository.run_findActiveByTokenHash hfound
    (by rintro _ ⟨⟩; exact hstored.fetchable huemail)
  refine ⟨u.id, ?_⟩
  unfold getCurrentUser
  dsimp only
  rw [if_neg (not_not.mpr hscheme), if_neg hx, hhash, Prog.run_bind_ok (Prog.run_done _ _), Prog.run_bind_ok hrun]
  dsimp only
  rw [hread, Prog.run_bind_ok (Prog.run_done _ _), Prog.run_bind_ok (run_utcNow w), if_neg (by omega), huser, huemail, hemail]
  rfl

/-- A token that is not is refused. -/
theorem StoredSessions.unauthenticated (h : StoredSessions tokens past w) (hinj : HashInjective tokens)
    (hmem : strip x ∈ tokens) (hencodable : Encodable (strip x)) (hlive : ∀ email, ¬ Live past (strip x) email w.clock) :
    (getCurrentUser (some (scheme, x))).run w = (.error .unauthenticatedError, w) := by
  unfold getCurrentUser
  dsimp only
  by_cases hscheme : Platform.lower scheme = py "bearer"
  swap
  · rw [if_pos hscheme]
    rfl
  by_cases hx : strip x = []
  · rw [if_neg (not_not.mpr hscheme), if_pos hx]
    rfl
  obtain ⟨bytes, hbytes⟩ := Option.isSome_iff_exists.mp ((utf8Encode_isSome_iff _).mpr hencodable)
  have hhash : hashToken (strip x) = .ok (hexdigest bytes) := by
    unfold hashToken
    rw [hbytes]
  have hfind := @SessionRepository.run_findActiveByTokenHash (hexdigest bytes)
  rw [if_neg (not_not.mpr hscheme), if_neg hx, hhash, Prog.run_bind_ok (Prog.run_done _ _)]
  -- a row with the hash stores a session with the token
  by_cases hactive : ∃ row ∈ w.db.sessions.rows, row.tokenHash = .str (hexdigest bytes) ∧ row.revokedAt = .none
  · obtain ⟨row, hrow, hrowHash, hrevoked⟩ := hactive
    obtain ⟨s, hs, hstored⟩ := h.rows.exists_right hrow
    obtain ⟨tokenHash, hhash', hrowHash'⟩ := hstored.token
    obtain rfl := Value.str.inj (hrowHash.symm.trans hrowHash')
    obtain ⟨id, ⟨u, hu, rfl, huemail⟩, huser⟩ := hstored.user
    have htoken := hashToken_inj hinj (h.mem s hs) hmem hhash' hhash
    obtain ⟨expiresAt, hexpires⟩ := hstored.calendar
    have hover : ¬ w.clock < expiresAt := fun htime => hlive s.email
      (live_iff.mpr ⟨s, hs, hstored.closed.mp hrevoked, htoken, rfl, expiresAt, hexpires, htime⟩)
    have hread : fromisoformat row.expiresAt = .ok expiresAt := hstored.expiresAt ▸ hexpires
    have hfound := Database.selectActiveSession_eq_some h.hashes h.ids hrow hrowHash hrevoked hu huser
    rw [Prog.run_bind_ok (hfind hfound (by rintro _ ⟨⟩; exact hstored.fetchable huemail))]
    dsimp only
    rw [hread, Prog.run_bind_ok (Prog.run_done _ _), Prog.run_bind_ok (run_utcNow w), if_pos (by omega)]
    rfl
  · have hnone := Database.selectActiveSession_eq_none fun row hrow hrowHash hrevoked => hactive ⟨row, hrow, hrowHash, hrevoked⟩
    rw [Prog.run_bind_ok (hfind hnone (by simp))]
    rfl

/-- A logout leaves the rows of the sessions with other tokens. -/
theorem StoredSessions.other_sessions (h : StoredSessions tokens past w) (hinj : HashInjective tokens) {token : PyStr}
    (hmem : token ∈ tokens) {i : ℕ} {s : Opened} {row : Session} (hs : (sessionsOf past)[i]? = some s)
    (hrow : w.db.sessions.rows[i]? = some row) (hother : s.token ≠ token) :
    ((AuthService.logout token).run w).2.db.sessions.rows[i]? = some row := by
  rcases hhash : hashToken token with e | tokenHash
  · rw [AuthService.run_logout_error hhash w]
    exact hrow
  obtain ⟨tokenHash', hhash', hrowHash⟩ := (h.rows.getElem? hs hrow).token
  have hne : tokenHash' ≠ tokenHash := by
    rintro rfl
    exact hother (hashToken_inj hinj (h.mem s (List.mem_of_getElem? hs)) hmem hhash' hhash)
  rw [AuthService.run_logout_ok hhash w]
  unfold World.afterLogout Database.revokeSession
  dsimp only
  rw [List.getElem?_map, hrow, Option.map_some, if_neg (by simp [hrowHash, hne])]

end Lookup

/-- **A token is taken for its live session, and for nothing else**: after every run, a token that has UTF-8 bytes is
taken for a user exactly where a login of the user returned it, its session has not ended, and no logout has
presented it since; otherwise it is refused; and a logout leaves the sessions with other tokens as they were. -/
theorem current_user_iff {tokens : Set PyStr} (hinj : HashInjective tokens) (environ : PyStr → Option PyStr) {ops : List AuthOp}
    (htokens : ∀ op ∈ ops, ∀ token ∈ op.token, token ∈ tokens) (hdrawn : ∀ op ∈ ops, op.Drawn) {scheme : PyStr}
    (hscheme : Platform.lower scheme = py "bearer") {x : PyStr} (hmem : strip x ∈ tokens) (hencodable : Encodable (strip x)) :
    let past := (authSession (.fresh environ) ops).1
    let w := (authSession (.fresh environ) ops).2
    (∀ email, (∃ userId, ((getCurrentUser (some (scheme, x))).run w).1 = .ok ⟨.int userId, .str email, strip x⟩) ↔
        Live past (strip x) email w.clock) ∧
      ((∀ email, ¬ Live past (strip x) email w.clock) →
        ((getCurrentUser (some (scheme, x))).run w).1 = .error .unauthenticatedError) ∧
      ∀ token ∈ tokens, ∀ (i : ℕ) (s : Opened) (row : Session), (sessionsOf past)[i]? = some s →
        w.db.sessions.rows[i]? = some row → s.token ≠ token →
        ((AuthService.logout token).run w).2.db.sessions.rows[i]? = some row := by
  intro past w
  have h : StoredSessions tokens past w := .session environ hinj htokens hdrawn
  refine ⟨fun email => ⟨?_, fun hlive => ?_⟩, fun hnot => ?_, fun token htoken i s row hs hrow hother =>
    h.other_sessions hinj htoken hs hrow hother⟩
  · rintro ⟨userId, hanswer⟩
    by_cases hlive : ∃ email', Live past (strip x) email' w.clock
    · obtain ⟨email', hlive⟩ := hlive
      obtain ⟨userId', hrun⟩ := h.current_user hscheme hlive
      rw [hrun] at hanswer
      simp only [Except.ok.injEq, AuthenticatedUser.mk.injEq, Value.str.injEq] at hanswer
      rwa [← hanswer.2.1]
    · rw [h.unauthenticated hinj hmem hencodable (not_exists.mp hlive)] at hanswer
      cases hanswer
  · obtain ⟨userId, hrun⟩ := h.current_user hscheme hlive
    exact ⟨userId, by rw [hrun]⟩
  · rw [h.unauthenticated hinj hmem hencodable hnot]

end Runs

/-! ### A run on the sample platform -/

section Sample

attribute [local instance] samplePlatform

/-- Two sessions of one user, the first of which is closed. -/
def sampleAuthOps : List AuthOp :=
  [.register sampleEmail samplePassphrase samplePassphrase [], .login sampleEmail samplePassphrase ⟨py "first", []⟩,
    .login sampleEmail samplePassphrase ⟨py "second", []⟩, .logout (py "first"), .advance 60000000]

theorem samplePlatform_hashInjective (tokens : Set PyStr) : @HashInjective samplePlatform tokens :=
  fun _ _ _ _ _ _ _ _ h => h

/-- **A token without UTF-8 bytes is not refused as others are**: it cannot be hashed. -/
theorem current_user_surrogate_sample :
    ¬ ∀ x : PyStr, (∀ email, ¬ Live (authSession (.fresh fun _ => none) []).1 (strip x) email 0) →
      ((getCurrentUser (some (py "Bearer", x))).run (authSession (.fresh fun _ => none) []).2).1 =
        .error .unauthenticatedError := by
  intro h
  have hunicode : ((getCurrentUser (some (py "Bearer", [.surrogate 0]))).run (authSession (.fresh fun _ => none) []).2).1 =
      .error .unicodeEncodeError := by decide +kernel
  have hnever : ∀ email, ¬ Live [] (strip [.surrogate 0]) email 0 := by
    rintro email ⟨before, after, _, _, _, _, _, hpast, -⟩
    cases before <;> cases hpast
  rw [h _ hnever] at hunicode
  cases hunicode

attribute [local irreducible] authSession

/-- The second token is taken for the user, and the first is refused. -/
theorem current_user_sample :
    (∃ userId, ((getCurrentUser (some (py "Bearer", py " second "))).run
        (authSession (.fresh fun _ => none) sampleAuthOps).2).1 = .ok ⟨.int userId, .str sampleEmail, py "second"⟩) ∧
      Live (authSession (.fresh fun _ => none) sampleAuthOps).1 (py "second") sampleEmail
        (authSession (.fresh fun _ => none) sampleAuthOps).2.clock := by
  have hstrip : strip (py " second ") = py "second" := by decide +kernel
  have htaken : ((getCurrentUser (some (py "Bearer", py " second "))).run
      (authSession (.fresh fun _ => none) sampleAuthOps).2).1 = .ok ⟨.int 1, .str sampleEmail, strip (py " second ")⟩ := by
    decide +kernel
  have hdrawn : ∀ op ∈ sampleAuthOps, op.Drawn := by
    unfold sampleAuthOps
    decide +kernel
  have hscheme : Platform.lower (py "Bearer") = py "bearer" := by decide +kernel
  have hencodable : Encodable (strip (py " second ")) := by decide +kernel
  have hiff := (current_user_iff (samplePlatform_hashInjective Set.univ) (fun _ => none) (fun _ _ _ _ => trivial) hdrawn hscheme
    trivial hencodable).1 sampleEmail
  rw [hstrip] at hiff htaken
  exact ⟨⟨1, htaken⟩, hiff.mp ⟨1, htaken⟩⟩

end Sample

end MiniVault
