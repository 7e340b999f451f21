import MiniVault.Auth.Accounts

/-!
# The lockout

Logins of one account, one after another.

## The model

* `LockoutPolicy` is what the lockout is for, said without rows and counters: a window holds the times of the
  wrong attempts since the last success or the last expired lockout, and with the last of so many
  wrong attempts in it the account is locked for so long.
* `loginSession` is a sequence of logins, each at its time.

## What is proved

* `LockoutPolicy.attempt_account` — what is kept of an account follows the policy, step by step.
* `login_follows` — every login of a sequence is answered as the policy says, and one that meets a lockout
  changes nothing, as long as the times that are computed lie in the calendar.
* `AuthService.register_shows` — a registration leaves an account without failures, which such sequences begin with.
-/

namespace MiniVault

open Foundations

/-! ### The policy -/

/-- So many wrong attempts, and locked for so long. -/
structure LockoutPolicy where
  /-- The attempts. -/
  threshold : ℕ
  /-- There is at least one. -/
  pos : 0 < threshold
  /-- The time, in microseconds. -/
  lockout : ℕ

/-- How an attempt is answered. -/
inductive Verdict where
  /-- The account is locked. -/
  | locked
  /-- The passphrase is wrong. -/
  | wrong
  /-- The passphrase is right. -/
  | right
  deriving DecidableEq

namespace LockoutPolicy

variable (policy : LockoutPolicy)

/-- The end of the lockout that the last of so many wrong attempts began. -/
def lockedUntil (window : List ℕ) : Option ℕ := window[policy.threshold - 1]?.map fun time => time + policy.lockout

/-- The window an attempt belongs to that is not refused: an expired lockout starts a fresh one. -/
def current (window : List ℕ) : List ℕ := if (policy.lockedUntil window).isSome then [] else window

/-- An attempt: how it is answered, and the window after it. -/
def step (window : List ℕ) (time : ℕ) (right : Bool) : Verdict × List ℕ :=
  if (policy.lockedUntil window).any fun lockedUntil => time < lockedUntil then (.locked, window)
  else if right then (.right, [])
  else (.wrong, policy.current window ++ [time])

/-- The window after a sequence of attempts. -/
def window (attempts : List (ℕ × Bool)) : List ℕ :=
  attempts.foldl (fun window attempt => (policy.step window attempt.1 attempt.2).2) []

theorem window_append (attempts : List (ℕ × Bool)) (time : ℕ) (right : Bool) :
    policy.window (attempts ++ [(time, right)]) = (policy.step (policy.window attempts) time right).2 := by
  simp [window]

/-- An attempt is refused while a lockout is in force, and leaves the window as it is. -/
theorem step_eq_locked {window : List ℕ} {time : ℕ} {right : Bool} (h : (policy.step window time right).1 = .locked) :
    (policy.lockedUntil window).any (fun lockedUntil => time < lockedUntil) = true ∧
      (policy.step window time right).2 = window := by
  unfold step at h ⊢
  split_ifs at h ⊢ with hlocked
  exact ⟨hlocked, rfl⟩

theorem lockedUntil_nil : policy.lockedUntil [] = none := rfl

/-- A window that is not full has room. -/
theorem lockedUntil_eq_none {window : List ℕ} : policy.lockedUntil window = none ↔ window.length < policy.threshold := by
  have := policy.pos
  simp only [lockedUntil, Option.map_eq_none_iff, List.getElem?_eq_none_iff]
  omega

theorem lockedUntil_current (window : List ℕ) : policy.lockedUntil (policy.current window) = none := by
  unfold current
  split_ifs with h
  · exact policy.lockedUntil_nil
  · exact Option.not_isSome_iff_eq_none.mp h

/-- One more wrong attempt locks the account where it is the last of so many. -/
theorem lockedUntil_append {window : List ℕ} (h : policy.lockedUntil window = none) (time : ℕ) :
    policy.lockedUntil (window ++ [time]) =
      if policy.threshold ≤ window.length + 1 then some (time + policy.lockout) else none := by
  have hpos := policy.pos
  rw [lockedUntil_eq_none] at h
  split_ifs with hfull
  · have hlast : policy.threshold - 1 = window.length := by omega
    simp [lockedUntil, hlast]
  · rw [lockedUntil_eq_none, List.length_append, List.length_singleton]
    omega

/-! ### What is kept of an account -/

/-- What is kept of an account with a window. -/
def account (window : List ℕ) : Account := ⟨window.length, policy.lockedUntil window⟩

theorem current_account (window : List ℕ) : (policy.account window).current = policy.account (policy.current window) := by
  unfold Account.current account current
  split_ifs <;> rfl

/-- The error an attempt is answered with, if any. -/
def answer : Verdict → Except Exc Unit
  | .locked => .error .accountLockedError
  | .wrong => .error .invalidCredentialsError
  | .right => .ok ()

/-- What is kept of a wrong attempt. -/
theorem fail_account {minutes : ℤ} (hminutes : minutes * 60000000 = policy.lockout) {window : List ℕ}
    (hroom : policy.lockedUntil window = none) {time : ℕ} (hfits : (window.length : ℤ) + 1 < 2 ^ 63)
    (hcalendar : policy.threshold ≤ window.length + 1 → time + policy.lockout ≤ maxTime) :
    (policy.account window).fail policy.threshold minutes time = .ok (policy.account (window ++ [time])) := by
  have hstored : Fits ((window.length : ℤ) + 1) := ⟨by omega, hfits⟩
  unfold Account.fail account
  rw [if_neg (not_not.mpr hstored), policy.lockedUntil_append hroom, List.length_append, List.length_singleton]
  push_cast
  by_cases hfull : policy.threshold ≤ window.length + 1
  · have hadd : addMinutes time minutes = .ok (time + policy.lockout) := by
      rw [addMinutes_eq_ok, hminutes]
      exact ⟨by push_cast; rfl, hcalendar hfull⟩
    rw [if_pos (by exact_mod_cast hfull), if_pos hfull, hadd]
    rfl
  · rw [if_neg (by exact_mod_cast hfull), if_neg hfull]

/-- **What is kept of an account follows the policy.** -/
theorem attempt_account {minutes : ℤ} (hminutes : minutes * 60000000 = policy.lockout) (window : List ℕ) (time : ℕ)
    (right : Bool) (hwrong : (policy.step window time right).1 = .wrong →
      ((policy.current window).length : ℤ) + 1 < 2 ^ 63 ∧
      (policy.threshold ≤ (policy.current window).length + 1 → time + policy.lockout ≤ maxTime)) :
    (policy.account window).attempt policy.threshold minutes (.ok right) time =
      (answer (policy.step window time right).1, policy.account (policy.step window time right).2) := by
  unfold step at hwrong ⊢
  by_cases hlocked : (policy.lockedUntil window).any fun lockedUntil => time < lockedUntil
  · rw [if_pos hlocked]
    exact Account.attempt_locked (a := policy.account window) hlocked _
  · rw [if_neg hlocked] at hwrong ⊢
    cases right with
    | true => exact Account.attempt_right (a := policy.account window) hlocked
    | false =>
      obtain ⟨hfits, hcalendar⟩ := hwrong rfl
      apply Account.attempt_wrong (a := policy.account window) hlocked
      rw [policy.current_account]
      exact policy.fail_account hminutes (policy.lockedUntil_current window) hfits hcalendar

end LockoutPolicy

/-! ### Sequences of logins -/

section Logins

variable [Platform]

/-- The policy of the settings. -/
def lockoutPolicy (environ : PyStr → Option PyStr) : LockoutPolicy where
  threshold := (maxFailedAttempts environ).toNat
  pos := by
    have := le_intSetting environ "MAX_FAILED_ATTEMPTS" (show (1 : ℤ) ≤ 5 by decide)
    unfold maxFailedAttempts
    omega
  lockout := (lockoutMinutes environ).toNat * 60000000

/-- A login of a sequence. -/
structure Attempt where
  /-- Its time. -/
  time : ℕ
  /-- The email, as it is spelled. -/
  email : PyStr
  /-- The passphrase. -/
  passphrase : PyStr
  /-- What is drawn at random. -/
  coins : AuthService.LoginCoins

/-- The login, once its time has come. -/
def Attempt.exec (x : Attempt) : Act AuthService.LoginResult := do
  Prog.change .clock fun w => { w with clock := x.time }
  AuthService.login x.email x.passphrase x.coins

/-- A sequence of logins. -/
def loginSession : World → List Attempt → List (Attempt × Except Exc AuthService.LoginResult) × World :=
  Prog.session Attempt.exec

/-- The passphrase is the one of the hash. -/
def Attempt.right (hash : Value) (x : Attempt) : Bool := passwordCheck hash x.passphrase = .ok true

/-- What the policy sees of a sequence. -/
def attempted (hash : Value) (attempts : List Attempt) : List (ℕ × Bool) := attempts.map fun x => (x.time, x.right hash)

/-- A session for a login can be stored. -/
structure HasRoom (w : World) (x : Attempt) : Prop where
  /-- It ends within the calendar. -/
  calendar : x.time + (sessionTtlMinutes w.environ).toNat * 60000000 ≤ maxTime
  /-- The token has UTF-8 bytes. -/
  token : Encodable x.coins.token
  /-- It is a new one. -/
  unused : ∀ s ∈ w.db.sessions.rows, (hashToken x.coins.token).map Value.str ≠ .ok s.tokenHash
  /-- There is an identifier left. -/
  id : (w.db.sessions.nextId Session.id).isOk

instance (w : World) (x : Attempt) : Decidable (HasRoom w x) :=
  decidable_of_iff (_ ∧ _ ∧ _ ∧ _) ⟨fun ⟨h₁, h₂, h₃, h₄⟩ => ⟨h₁, h₂, h₃, h₄⟩, fun ⟨h₁, h₂, h₃, h₄⟩ => ⟨h₁, h₂, h₃, h₄⟩⟩

/-- A login, in the state it is attempted in and with the window there is, meets no bound of the
numbers and the calendar. -/
structure Workable (policy : LockoutPolicy) (hash : Value) (window : List ℕ) (w : World) (x : Attempt) : Prop where
  /-- The passphrase has UTF-8 bytes, if it is looked at. -/
  encodable : (policy.step window x.time (x.right hash)).1 ≠ .locked → Encodable x.passphrase
  /-- A wrong attempt can be counted. -/
  count : (policy.step window x.time (x.right hash)).1 = .wrong → ((policy.current window).length : ℤ) + 1 < 2 ^ 63
  /-- A lockout that begins ends within the calendar. -/
  lockout : (policy.step window x.time (x.right hash)).1 = .wrong →
    policy.threshold ≤ (policy.current window).length + 1 → x.time + policy.lockout ≤ maxTime
  /-- A session can be stored. -/
  session : (policy.step window x.time (x.right hash)).1 = .right → HasRoom w x

instance (policy : LockoutPolicy) (hash : Value) (window : List ℕ) (w : World) (x : Attempt) :
    Decidable (Workable policy hash window w x) :=
  decidable_of_iff (_ ∧ _ ∧ _ ∧ _) ⟨fun ⟨h₁, h₂, h₃, h₄⟩ => ⟨h₁, h₂, h₃, h₄⟩, fun ⟨h₁, h₂, h₃, h₄⟩ => ⟨h₁, h₂, h₃, h₄⟩⟩

/-- A login is answered as the policy says, and when it is refused the clock is all that changed. -/
def Follows (policy : LockoutPolicy) (hash : Value) (window : List ℕ) (w : World) (x : Attempt) : Prop :=
  match (policy.step window x.time (x.right hash)).1 with
  | .locked => x.exec.run w = (.error .accountLockedError, { w with clock := x.time })
  | .wrong => (x.exec.run w).1 = .error .invalidCredentialsError
  | .right => ∃ expiresAt, (x.exec.run w).1 = .ok ⟨x.coins.token, expiresAt⟩

theorem Follows.refused {policy : LockoutPolicy} {hash : Value} {window : List ℕ} {w : World} {x : Attempt}
    (h : Follows policy hash window w x) (hlocked : (policy.step window x.time (x.right hash)).1 = .locked) :
    (x.exec.run w).1 = .error .accountLockedError := by
  unfold Follows at h
  rw [hlocked] at h
  exact congrArg Prod.fst h

/-! ### One login -/

omit [Platform] in
theorem mem_of_selectUser {db : Database} {email : PyStr} {row : User} (h : db.selectUser email = some row) :
    row ∈ db.users.rows :=
  List.mem_of_find?_eq_some h

/-- There is a session under the hash of a token, until a time, that is not revoked. -/
def Database.HasSession (db : Database) (token expiresAt : PyStr) : Prop :=
  ∃ s ∈ db.sessions.rows, (hashToken token).map Value.str = .ok s.tokenHash ∧ s.expiresAt = .str expiresAt ∧
    s.revokedAt = .none

/-- A session that has room is stored, and nothing else changes. -/
theorem newSession_eq_ok {w : World} {x : Attempt} (hclock : w.clock = x.time) (h : HasRoom w x) {row : User}
    (hrow : row ∈ w.db.users.rows) : ∃ expiresAt db, AuthService.newSession w row.id x.coins.token =
      .ok (⟨x.coins.token, expiresAt⟩, db) ∧ db.users = w.db.users ∧ db.HasSession x.coins.token expiresAt := by
  obtain ⟨bytes, hbytes⟩ := Option.isSome_iff_exists.mp ((utf8Encode_isSome_iff _).mpr h.token)
  have hhash : hashToken x.coins.token = .ok (hexdigest bytes) := by
    unfold hashToken
    rw [hbytes]
  have hnew := h.unused
  rw [hhash] at hnew
  rcases hn : w.db.sessions.nextId Session.id with e | n
  · have hnext := h.id
    rw [hn] at hnext
    cases hnext
  have hminutes : (sessionTtlMinutes w.environ).toNat = sessionTtlMinutes w.environ := by
    have := le_intSetting w.environ "SESSION_TTL_MINUTES" (show (1 : ℤ) ≤ 30 by decide)
    unfold sessionTtlMinutes
    omega
  have hadd : addMinutes w.clock (sessionTtlMinutes w.environ) =
      .ok (x.time + (sessionTtlMinutes w.environ).toNat * 60000000) := by
    rw [addMinutes_eq_ok, hclock]
    refine ⟨?_, h.calendar⟩
    push_cast
    rw [hminutes]
  have hunused : ¬ (w.db.sessions.rows.any fun s => s.tokenHash.sqlEq (.str (hexdigest bytes))) = true := by
    simpa using fun s hs heq => hnew s hs (by rw [heq]; rfl)
  have hexists : (w.db.users.rows.any fun r => r.id = row.id) = true :=
    List.any_eq_true.mpr ⟨row, hrow, by simp⟩
  unfold AuthService.newSession Database.insertSession
  simp only [hadd, hhash, hunused, hexists, hn, ok_bind]
  refine ⟨_, _, rfl, rfl, _, List.mem_append_right _ (List.mem_singleton_self _), ?_, rfl, rfl⟩
  rw [hhash]
  rfl

/-- The policy of the settings has their numbers. -/
theorem lockoutPolicy_eq (environ : PyStr → Option PyStr) :
    ((lockoutPolicy environ).threshold : ℤ) = maxFailedAttempts environ ∧
      lockoutMinutes environ * 60000000 = (lockoutPolicy environ).lockout := by
  have hthreshold : 1 ≤ maxFailedAttempts environ := le_intSetting environ _ (by decide)
  have hminutes : 1 ≤ lockoutMinutes environ := le_intSetting environ _ (by decide)
  unfold lockoutPolicy
  constructor
  · dsimp only
    omega
  · push_cast
    omega

/-- The passphrases that have UTF-8 bytes can be checked against the hash. -/
def Checkable (hash : Value) : Prop :=
  ∀ passphrase : PyStr, Encodable passphrase → ∃ b, passwordCheck hash passphrase = .ok b

section Sequences

variable {email : PyStr} {hash : Value} {window : List ℕ} {w : World} {row : User} {x : Attempt}

/-- The login of a sequence is the login at its time. -/
theorem Attempt.run_exec (x : Attempt) (w : World) :
    x.exec.run w = (AuthService.login x.email x.passphrase x.coins).run { w with clock := x.time } :=
  Prog.run_bind_ok (Prog.run_change _ _ w) _

/-- **One login** follows the policy, and leaves what the policy makes of the account. -/
theorem Shows.follow (hcheck : Checkable hash) (h : Shows email hash ((lockoutPolicy w.environ).account window) w row)
    (hspelling : UserRepository.normalizeEmail x.email = email) (hwork : Workable (lockoutPolicy w.environ) hash window w x) :
    Follows (lockoutPolicy w.environ) hash window w x ∧ (x.exec.run w).2.environ = w.environ ∧
      ∃ row', Shows email hash ((lockoutPolicy w.environ).account ((lockoutPolicy w.environ).step window x.time (x.right hash)).2)
        (x.exec.run w).2 row' := by
  obtain ⟨hthreshold, hminutes⟩ := lockoutPolicy_eq w.environ
  have hnow : Shows email hash ((lockoutPolicy w.environ).account window) { w with clock := x.time } row := h.of_users rfl
  unfold Follows
  rcases hverdict : ((lockoutPolicy w.environ).step window x.time (x.right hash)).1 with - | - | -
  · obtain ⟨hlocked, hwindow⟩ := (lockoutPolicy w.environ).step_eq_locked hverdict
    have hrun := AuthService.run_login_locked hnow hlocked hspelling x.passphrase x.coins
    rw [← x.run_exec w] at hrun
    rw [hrun, hwindow]
    exact ⟨rfl, rfl, row, hnow⟩
  all_goals
    obtain ⟨right, hright⟩ := hcheck x.passphrase (hwork.encodable (by rw [hverdict]; decide))
    have hsame : x.right hash = right := by
      unfold Attempt.right
      rw [hright]
      cases right <;> rfl
    have hattempt := (lockoutPolicy w.environ).attempt_account hminutes window x.time right
      (hsame ▸ fun hw => ⟨hwork.count hw, hwork.lockout hw⟩)
    rw [← hright, hthreshold, ← hsame, hverdict] at hattempt
    obtain ⟨w', row', honly, hshows, hid, hrun⟩ := AuthService.run_login hnow hspelling x.passphrase x.coins hattempt
    rw [← x.run_exec w] at hrun
    rw [hrun]
  · exact ⟨rfl, honly.environ, row', hshows⟩
  · obtain ⟨hcalendar, htoken, hunused, hnext⟩ := hwork.session hverdict
    have hroom : HasRoom w' x :=
      ⟨by rw [honly.environ]; exact hcalendar, htoken, by rw [honly.sessions]; exact hunused,
        by rw [honly.sessions]; exact hnext⟩
    obtain ⟨expiresAt, db, hsession, husers, -⟩ := newSession_eq_ok honly.clock hroom (mem_of_selectUser hshows.selected)
    rw [← hid, LockoutPolicy.answer, ok_bind, hsession]
    exact ⟨⟨expiresAt, rfl⟩, honly.environ, row', hshows.of_users husers⟩

/-- **The lockout follows its policy**: of an account at its beginning, each login of a sequence is answered as the
policy says, after what was attempted before it. -/
theorem login_follows (hcheck : Checkable hash) (h : Shows email hash .fresh w row) {attempts : List Attempt}
    (hspelling : ∀ x ∈ attempts, UserRepository.normalizeEmail x.email = email)
    (hwork : Explained (fun before x => Workable (lockoutPolicy w.environ) hash
      ((lockoutPolicy w.environ).window (attempted hash before)) (loginSession w before).2 x) attempts) :
    Explained (fun before x => Follows (lockoutPolicy w.environ) hash
      ((lockoutPolicy w.environ).window (attempted hash before)) (loginSession w before).2 x) attempts := by
  -- what is kept of the account after the logins of the sequence so far
  have hkept : ∀ before after, attempts = before ++ after → (loginSession w before).2.environ = w.environ ∧
      ∃ row', Shows email hash ((lockoutPolicy w.environ).account ((lockoutPolicy w.environ).window (attempted hash before)))
        (loginSession w before).2 row' := by
    intro before
    induction before using List.reverseRecOn with
    | nil => exact fun after _ => ⟨rfl, row, h⟩
    | append_singleton before x ih =>
      intro after hattempts
      obtain ⟨henviron, row', hshows⟩ := ih ([x] ++ after) (by rw [hattempts, List.append_assoc])
      have hx : UserRepository.normalizeEmail x.email = email := hspelling x (by simp [hattempts])
      have hworks := hwork before x after (by rw [hattempts, List.append_assoc]; rfl)
      rw [← henviron] at hshows hworks
      obtain ⟨-, henviron', row'', hshows'⟩ := hshows.follow hcheck hx hworks
      unfold loginSession attempted at *
      rw [Prog.session_append, List.map_append, List.map_singleton, LockoutPolicy.window_append]
      rw [henviron] at hshows' henviron'
      exact ⟨henviron', row'', hshows'⟩
  intro before x after hattempts
  obtain ⟨henviron, row', hshows⟩ := hkept before (x :: after) hattempts
  have hworks := hwork before x after hattempts
  rw [← henviron] at hshows hworks ⊢
  exact (hshows.follow hcheck (hspelling x (by simp [hattempts])) hworks).1

/-- An account that was just inserted is found under its email. -/
theorem insertUser_shows {email passwordHash now : PyStr} {db : Database} (hseq : 0 ≤ w.db.users.seq) (hemail : Bindable email)
    (h : w.db.insertUser email passwordHash now = .ok db) :
    ∃ row, Shows email (.str passwordHash) .fresh { w with db := db } row := by
  unfold Database.insertUser at h
  split_ifs at h with hexists
  · cases h
  obtain ⟨n, hn, h⟩ := bind_eq_ok.mp h
  obtain rfl := Except.ok.inj h
  have hnone : w.db.users.rows.find? (fun r => r.email.sqlEq (.str email)) = none := Option.not_isSome_iff_eq_none.mp hexists
  refine ⟨⟨n, .str email, .str passwordHash, .int 0, .none, .str now, .str now⟩, ?_, rfl, rfl, rfl,
    by simp [User.cells], hemail, ?_⟩
  · unfold Database.selectUser
    rw [List.find?_append, hnone]
    simp
  · unfold Table.nextId at hn
    dsimp only at hn
    split_ifs at hn with hlt
    obtain rfl := Except.ok.inj hn
    have := (Table.le_foldl_max (w.db.users.rows.map User.id) w.db.users.seq).1
    have hlow : (-2 : ℤ) ^ 63 ≤ (w.db.users.rows.map User.id).foldl max w.db.users.seq + 1 := by omega
    exact ⟨hlow, hlt⟩

/-- A registration leaves an account at its beginning. -/
theorem AuthService.register_shows {email passphrase confirmPassphrase : PyStr} {salt : Bytes} {account : Registered}
    {w' : World} (hseq : 0 ≤ w.db.users.seq)
    (h : (register email passphrase confirmPassphrase salt).run w = (.ok account, w')) :
    ∃ passwordHash row, Shows (UserRepository.normalizeEmail email) (.str passwordHash) .fresh w' row := by
  unfold register at h
  split_ifs at h
  · cases h
  split at h
  · cases h
  obtain ⟨passwordHash, w₁, hhash, h⟩ := Prog.run_bind_eq_ok.mp h
  obtain ⟨user, w₂, hcreate, h⟩ := Prog.run_bind_eq_ok.mp h
  obtain ⟨-, rfl⟩ := Prod.mk.inj h
  have hsame : w₁ = w := by
    unfold hashPassword at hhash
    split_ifs at hhash
    · cases hhash
    obtain ⟨costs, w₃, hlook, hdone⟩ := Prog.run_bind_eq_ok.mp hhash
    exact (Prod.mk.inj hdone).2.symm.trans (Prod.mk.inj hlook).2.symm
  subst hsame
  unfold UserRepository.create at hcreate
  obtain ⟨now, w₃, hnow, hcreate⟩ := Prog.run_bind_eq_ok.mp hcreate
  obtain ⟨-, rfl⟩ := Prod.mk.inj ((run_now _).symm.trans hnow)
  obtain ⟨u, w₄, hinsert, hcreate⟩ := Prog.run_bind_eq_ok.mp hcreate
  obtain ⟨hbind, db, hstored, rfl⟩ := run_execute_eq_ok.mp (run_connection_eq_ok.mp (run_mapExc_eq_ok.mp hinsert))
  rcases hdb : w₁.db.insertUser (UserRepository.normalizeEmail email) passwordHash now with e | db'
  · rw [hdb] at hstored
    cases hstored
  rw [hdb] at hstored
  obtain ⟨-, rfl⟩ := Prod.mk.inj (Except.ok.inj hstored)
  obtain ⟨row, w₅, hread, hcreate⟩ := Prog.run_bind_eq_ok.mp hcreate
  obtain ⟨-, -, -, rfl⟩ := run_query_eq_ok.mp (run_connection_eq_ok.mp hread)
  have hemail : Bindable (UserRepository.normalizeEmail email) :=
    (bindValue_str_iff _).mp (bindAll_eq_ok hbind _ (by simp))
  obtain ⟨row', hrow'⟩ := insertUser_shows hseq hemail hdb
  split at hcreate
  · cases hcreate
  · obtain ⟨-, rfl⟩ := Prod.mk.inj hcreate
    exact ⟨passwordHash, row', hrow'⟩

end Sequences

end Logins

/-! ### Sequences on the sample platform -/

section Sample

attribute [local instance] samplePlatform

/-- The sample hash of a passphrase is the passphrase. -/
theorem samplePlatform_passwordCheck (hash : Value) (passphrase : PyStr) :
    @passwordCheck samplePlatform hash passphrase = .ok (decide (hash = .str passphrase)) := by
  unfold passwordCheck
  by_cases h : hash = .str passphrase
  · have hverify : samplePlatform.passwordVerify hash passphrase = .ok () := if_pos h
    rw [hverify, decide_eq_true h]
  · have hverify : samplePlatform.passwordVerify hash passphrase = .error .verifyMismatchError := if_neg h
    rw [hverify, decide_eq_false h]

/-- An email. -/
def sampleEmail : PyStr := py "alice@example.com"

/-- The world after a registration. -/
def sampleRegistration : World :=
  ((AuthService.register sampleEmail samplePassphrase samplePassphrase []).run (.fresh fun _ => none)).2

/-- It under settings. -/
def sampleRegistered (environ : PyStr → Option PyStr) : World := { sampleRegistration with environ := environ }

/-- Settings, each with a value of its own. -/
def sampleSettings (threshold lockout : String) : PyStr → Option PyStr := fun name =>
  if name = py "MINIVAULT_MAX_FAILED_ATTEMPTS" then some (py threshold)
  else if name = py "MINIVAULT_LOCKOUT_MINUTES" then some (py lockout)
  else none

/-- A login at a time, of another spelling. -/
def sampleAttempt (time : ℕ) (passphrase : PyStr) : Attempt :=
  ⟨time, py " Alice@Example.com", passphrase, ⟨decimal time, []⟩⟩

/-- Two wrong attempts, a right one while the account is locked, and one at the end of the lockout. -/
def sampleAttempts : List Attempt :=
  [sampleAttempt 1 [], sampleAttempt 2 [], sampleAttempt 60000001 samplePassphrase, sampleAttempt 60000002 samplePassphrase]

/-- The row of the account. -/
def sampleUser : User :=
  ⟨1, .str sampleEmail, .str samplePassphrase, .int 0, .none, .str (isoformat 0), .str (isoformat 0)⟩

theorem sampleRegistration_selected : sampleRegistration.db.selectUser sampleEmail = some sampleUser := by decide +kernel

attribute [local irreducible] sampleRegistration

theorem sampleRegistered_shows (environ : PyStr → Option PyStr) :
    @Shows samplePlatform sampleEmail (.str samplePassphrase) .fresh (sampleRegistered environ) sampleUser where
  selected := sampleRegistration_selected
  passwordHash := rfl
  failed := rfl
  locked := rfl
  cells := by decide +kernel
  bindable := by decide +kernel
  fits := by decide

theorem login_follows_sample : Explained (fun before x => Follows (lockoutPolicy (sampleSettings "2" "1")) (.str samplePassphrase)
    ((lockoutPolicy (sampleSettings "2" "1")).window (attempted (.str samplePassphrase) before))
      (loginSession (sampleRegistered (sampleSettings "2" "1")) before).2 x) sampleAttempts := by
  refine login_follows (fun passphrase _ => ⟨_, samplePlatform_passwordCheck _ passphrase⟩) (sampleRegistered_shows _) ?_ ?_
  · decide +kernel
  · unfold sampleAttempts
    simp only [explained_cons]
    refine ⟨?_, ?_, ?_, ?_, .nil⟩ <;> decide +kernel

/-- Settings whose lockouts end after the last time there is. -/
def sampleEndless : PyStr → Option PyStr := sampleSettings "1" "1000000000000"

/-- **A lockout that would end after the calendar never begins**: after the one wrong attempt that the settings allow,
the next one, which the policy refuses, succeeds. -/
theorem login_unlocked_sample :
    ((lockoutPolicy sampleEndless).step ((lockoutPolicy sampleEndless).window
      (attempted (.str samplePassphrase) [sampleAttempt 1 []])) 2 true).1 = .locked ∧
      ((sampleAttempt 2 samplePassphrase).exec.run
        (loginSession (sampleRegistered sampleEndless) [sampleAttempt 1 []]).2).1.isOk ∧
      ¬ Explained (fun before x => Follows (lockoutPolicy sampleEndless) (.str samplePassphrase)
        ((lockoutPolicy sampleEndless).window (attempted (.str samplePassphrase) before))
          (loginSession (sampleRegistered sampleEndless) before).2 x) [sampleAttempt 1 [], sampleAttempt 2 samplePassphrase] := by
  have hlocked : ((lockoutPolicy sampleEndless).step ((lockoutPolicy sampleEndless).window
      (attempted (.str samplePassphrase) [sampleAttempt 1 []])) (sampleAttempt 2 samplePassphrase).time
        ((sampleAttempt 2 samplePassphrase).right (.str samplePassphrase))).1 = .locked := by decide +kernel
  have hopened : ((sampleAttempt 2 samplePassphrase).exec.run
      (loginSession (sampleRegistered sampleEndless) [sampleAttempt 1 []]).2).1.isOk := by decide +kernel
  refine ⟨by decide +kernel, hopened, fun hfollows => ?_⟩
  rw [(hfollows [sampleAttempt 1 []] (sampleAttempt 2 samplePassphrase) [] rfl).refused hlocked] at hopened
  cases hopened

end Sample

end MiniVault
