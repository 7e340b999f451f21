import MiniVault.Auth.Service

/-!
# What a login does to an account

The runs of the parts of `login` on the row of an account, each as one equation, and `login` as
a whole.

## The model

`Account` is what the row says of an account: how many attempts have failed, and the end of the
lockout, where there is one. `Account.attempt` is what an attempt makes of it, and how it is answered.

## What is proved

* `AuthService.run_login` — an attempt is answered as the account says, and leaves a row that shows what the
  attempt makes of the account.
* `AuthService.run_login_unregistered` — the same where there is no account.
-/

namespace MiniVault

open Foundations

variable [Platform]

/-! ### Accounts -/

/-- What a row says of an account. -/
structure Account where
  /-- The attempts that failed since the count began. -/
  failed : ℤ
  /-- The end of the lockout. -/
  lockedUntil : Option ℕ
  deriving DecidableEq

namespace Account

/-- The account at its beginning, and whenever the failures are reset. -/
def fresh : Account := ⟨0, none⟩

/-- A lockout is in force. -/
def lockedAt (a : Account) (time : ℕ) : Bool := a.lockedUntil.any fun lockedUntil => time < lockedUntil

/-- An expired lockout starts a fresh failure window. -/
def current (a : Account) : Account := if a.lockedUntil.isSome then .fresh else a

/-- One more attempt has failed. -/
def fail (threshold minutes : ℤ) (a : Account) (time : ℕ) : Except Exc Account :=
  if ¬ Fits (a.failed + 1) then .error .overflowError
  else if threshold ≤ a.failed + 1 then (addMinutes time minutes).map fun lockedUntil => ⟨a.failed + 1, some lockedUntil⟩
  else .ok ⟨a.failed + 1, none⟩

/-- What an attempt makes of an account, and the error it is answered with, if any, when the check of the
passphrase comes to `check`. -/
def attempt (threshold minutes : ℤ) (a : Account) (check : Except Exc Bool) (time : ℕ) : Except Exc Unit × Account :=
  if a.lockedAt time then (.error .accountLockedError, a)
  else match check with
    | .error e => (.error e, a.current)
    | .ok true => (.ok (), .fresh)
    | .ok false => match a.current.fail threshold minutes time with
      | .error e => (.error e, a.current)
      | .ok a' => (.error .invalidCredentialsError, a')

variable {threshold minutes : ℤ} {a a' : Account} {time : ℕ}

omit [Platform] in
theorem attempt_locked (h : a.lockedAt time) (check : Except Exc Bool) :
    a.attempt threshold minutes check time = (.error .accountLockedError, a) := if_pos h

omit [Platform] in
theorem attempt_right (h : ¬ a.lockedAt time) : a.attempt threshold minutes (.ok true) time = (.ok (), .fresh) := if_neg h

omit [Platform] in
theorem attempt_wrong (h : ¬ a.lockedAt time) (hfail : a.current.fail threshold minutes time = .ok a') :
    a.attempt threshold minutes (.ok false) time = (.error .invalidCredentialsError, a') := by
  unfold attempt
  rw [if_neg h, hfail]

/-- What is written to `locked_until`. -/
def lockCell (a : Account) : Value :=
  match a.lockedUntil with
  | none => .none
  | some time => .str (isoformat time)

omit [Platform] in
@[simp] theorem failed_fresh : fresh.failed = 0 := rfl

omit [Platform] in
@[simp] theorem lockCell_fresh : fresh.lockCell = .none := rfl

omit [Platform] in
theorem bindValue_lockCell (a : Account) : bindValue a.lockCell = .ok () := by
  unfold lockCell
  cases a.lockedUntil with
  | none => rfl
  | some time => exact bindValue_str (bindable_isoformat time)

/-- The ends of lockouts are times of the calendar. -/
def Calendar (a : Account) : Prop := ∀ time ∈ a.lockedUntil, time ≤ maxTime

omit [Platform] in
theorem fail_calendar {threshold minutes : ℤ} {a a' : Account} {time : ℕ} (h : a.fail threshold minutes time = .ok a') :
    a'.Calendar := by
  unfold fail at h
  split_ifs at h with hfits hthreshold
  · rcases hadd : addMinutes time minutes with e | T
    · rw [hadd] at h
      cases h
    · rw [hadd] at h
      obtain rfl := Except.ok.inj h
      rintro _ ⟨⟩
      exact (addMinutes_eq_ok.mp hadd).2
  · obtain rfl := Except.ok.inj h
    rintro _ ⟨⟩

end Account

/-! ### Rows of accounts -/

/-- The cell of a lockout says its end. -/
def SaysLock (lockedUntil : Option ℕ) (cell : Value) : Prop :=
  match lockedUntil with
  | none => cell = .none
  | some time => cell ≠ .none ∧ fromisoformat cell = .ok time

/-- The row is the one of an email, with a hash, and shows the account. -/
structure Shows (email : PyStr) (hash : Value) (a : Account) (w : World) (row : User) : Prop where
  /-- It is found under the email. -/
  selected : w.db.selectUser email = some row
  /-- It has the hash. -/
  passwordHash : row.passwordHash = hash
  /-- It has the failures. -/
  failed : pyInt row.failedAttempts = .ok a.failed
  /-- It has the end of the lockout. -/
  locked : SaysLock a.lockedUntil row.lockedUntil
  /-- It can be fetched. -/
  cells : Fetchable row.cells
  /-- An email that was stored can be bound. -/
  bindable : Bindable email
  /-- An identifier that was stored has 64 bits. -/
  fits : Fits row.id

omit [Platform] in
/-- What is written says the end of the lockout. -/
theorem Account.saysLock_lockCell {a : Account} (h : a.Calendar) : SaysLock a.lockedUntil a.lockCell := by
  unfold Calendar at h
  unfold lockCell SaysLock
  rcases hlocked : a.lockedUntil with - | time
  · rfl
  · exact ⟨Value.noConfusion, fromisoformat_isoformat (h time hlocked)⟩

omit [Platform] in
theorem Account.decodes_lockCell (a : Account) : a.lockCell.decodes = true := by
  unfold lockCell
  cases a.lockedUntil <;> rfl

omit [Platform] in
/-- A row that is changed is still found. -/
theorem Database.selectUser_updateLogin {db : Database} {email : PyStr} {row : User} (h : db.selectUser email = some row)
    (failedAttempts : ℤ) (lockedUntil : Value) (now : PyStr) :
    (db.updateLogin failedAttempts lockedUntil now row.id).selectUser email =
      some { row with failedAttempts := .int failedAttempts, lockedUntil := lockedUntil, updatedAt := .str now } := by
  unfold selectUser at h ⊢
  unfold updateLogin
  rw [List.find?_map]
  have hsame : ∀ r : User, ((fun r : User => r.email.sqlEq (.str email)) ∘ fun r => if r.id = row.id then
      { r with failedAttempts := .int failedAttempts, lockedUntil := lockedUntil, updatedAt := .str now } else r) r =
        r.email.sqlEq (.str email) := by
    intro r
    simp only [Function.comp_apply]
    split_ifs <;> rfl
  rw [funext hsame, h]
  simp

/-- The world after the row of an account was changed. -/
def World.afterLogin (w : World) (a : Account) (id : ℤ) : World :=
  { w with db := w.db.updateLogin a.failed a.lockCell (isoformat w.clock) id }

/-- A row that was changed shows the account it was changed to. -/
theorem Shows.afterLogin {email : PyStr} {hash : Value} {a : Account} {w : World} {row : User}
    (h : Shows email hash a w row) (a' : Account) (hcalendar : a'.Calendar) :
    ∃ row', Shows email hash a' (w.afterLogin a' row.id) row' ∧ row'.id = row.id := by
  have hcells := h.cells
  simp only [User.cells, fetchable_cons, fetchable_nil, and_true] at hcells
  refine ⟨_, ⟨Database.selectUser_updateLogin h.selected _ _ _, h.passwordHash, rfl, a'.saysLock_lockCell hcalendar, ?_,
    h.bindable, h.fits⟩, rfl⟩
  simp only [User.cells, fetchable_cons, fetchable_nil, and_true]
  exact ⟨hcells.1, hcells.2.1, rfl, a'.decodes_lockCell, hcells.2.2.2.2.1, rfl⟩

/-- The row is the same where the accounts are. -/
theorem Shows.of_users {email : PyStr} {hash : Value} {a : Account} {w w' : World} {row : User}
    (h : Shows email hash a w row) (hsame : w'.db.users = w.db.users) : Shows email hash a w' row := by
  refine ⟨?_, h.passwordHash, h.failed, h.locked, h.cells, h.bindable, h.fits⟩
  have := h.selected
  unfold Database.selectUser at this ⊢
  rwa [hsame]

/-! ### What a login leaves alone -/

/-- Nothing but what the rows of accounts say of logins is different. -/
structure OnlyLogins (w w' : World) : Prop where
  /-- The accounts are all that may differ. -/
  world : w' = { w with db := { w.db with users := w'.db.users } }
  /-- They are of the same users. -/
  users : w'.db.users.rows.map (fun r => (r.id, r.email, r.passwordHash)) =
    w.db.users.rows.map fun r => (r.id, r.email, r.passwordHash)
  /-- The next identifier is the same. -/
  seq : w'.db.users.seq = w.db.users.seq

namespace OnlyLogins

omit [Platform] in
theorem refl (w : World) : OnlyLogins w w := ⟨rfl, rfl, rfl⟩

omit [Platform] in
theorem trans {w₁ w₂ w₃ : World} (h₁ : OnlyLogins w₁ w₂) (h₂ : OnlyLogins w₂ w₃) : OnlyLogins w₁ w₃ := by
  refine ⟨?_, h₂.users.trans h₁.users, h₂.seq.trans h₁.seq⟩
  rw [h₂.world, h₁.world]

omit [Platform] in
theorem clock {w w' : World} (h : OnlyLogins w w') : w'.clock = w.clock := by rw [h.world]

omit [Platform] in
theorem environ {w w' : World} (h : OnlyLogins w w') : w'.environ = w.environ := by rw [h.world]

omit [Platform] in
theorem sessions {w w' : World} (h : OnlyLogins w w') : w'.db.sessions = w.db.sessions := by rw [h.world]

omit [Platform] in
theorem afterLogin (w : World) (a : Account) (id : ℤ) : OnlyLogins w (w.afterLogin a id) := by
  refine ⟨rfl, ?_, rfl⟩
  unfold World.afterLogin Database.updateLogin
  rw [List.map_map]
  apply List.map_congr_left
  intro r _
  simp only [Function.comp_apply]
  split_ifs <;> rfl

end OnlyLogins

/-! ### The parts of a login -/

omit [Platform] in
theorem run_utcNow (w : World) : utcNow.run w = (.ok w.clock, w) := rfl

omit [Platform] in
/-- A statement that cannot fail, in a transaction of its own. -/
theorem run_statement {params : List Value} (h : bindAll params = .ok ()) (label : Label) (f : Database → Database)
    (w : World) : (connection label (execute params fun db => .ok ((), f db))).run w = (.ok (), { w with db := f w.db }) := by
  rw [run_connection, run_execute, h]

namespace UserRepository

theorem run_getByEmail {email : PyStr} (h : Bindable (normalizeEmail email)) {u : Option User} {w : World}
    (hselected : w.db.selectUser (normalizeEmail email) = u) (hcells : ∀ r ∈ u, Fetchable r.cells) :
    (getByEmail email).run w = (.ok u, w) := by
  unfold getByEmail
  rw [run_connection_eq_ok, run_query_eq_ok]
  exact ⟨bindAll_ok (by simp [bindValue_str h]), by rw [hselected, fetchable_fetchone]; exact hcells, hselected, rfl⟩

/-- The row of an account is found under its email. -/
theorem run_getByEmail_shows {email spelling : PyStr} {hash : Value} {a : Account} {w : World} {row : User}
    (h : Shows email hash a w row) (hspelling : normalizeEmail spelling = email) :
    (getByEmail spelling).run w = (.ok (some row), w) :=
  run_getByEmail (hspelling ▸ h.bindable) (by rw [hspelling, h.selected]) (by rintro _ ⟨⟩; exact h.cells)

omit [Platform] in
theorem run_resetLoginFailures {id : ℤ} (h : Fits id) (label : Label) (w : World) :
    (resetLoginFailures label id).run w = (.ok (), w.afterLogin .fresh id) := by
  have hbind : ∀ now : PyStr, Bindable now → bindAll [.str now, .int id] = .ok () := fun now hnow =>
    bindAll_ok (by simp [bindValue_str hnow, bindValue_int h])
  unfold World.afterLogin
  rw [Account.failed_fresh, Account.lockCell_fresh]
  refine Prog.run_bind_eq_ok.mpr ⟨_, _, run_now w, ?_⟩
  exact run_statement (hbind _ (bindable_isoformat _)) _ (fun db => db.updateLogin 0 .none (isoformat w.clock) id) _

omit [Platform] in
theorem run_updateAfterFailedLogin {id : ℤ} (h : Fits id) {a : Account} (hfailed : Fits a.failed) (label : Label) (w : World) :
    (updateAfterFailedLogin label id a.failed a.lockCell).run w = (.ok (), w.afterLogin a id) := by
  have hbind : ∀ now : PyStr, Bindable now → bindAll [.int a.failed, a.lockCell, .str now, .int id] = .ok () :=
    fun now hnow => bindAll_ok (by
      simp [bindValue_str hnow, bindValue_int h, bindValue_int hfailed, a.bindValue_lockCell])
  unfold World.afterLogin
  refine Prog.run_bind_eq_ok.mpr ⟨_, _, run_now w, ?_⟩
  exact run_statement (hbind _ (bindable_isoformat _)) _
    (fun db => db.updateLogin a.failed a.lockCell (isoformat w.clock) id) _

omit [Platform] in
/-- A count beyond 64 bits is not stored. -/
theorem run_updateAfterFailedLogin_overflow {id count : ℤ} (hcount : ¬ Fits count) (lockedUntil : Value) (label : Label)
    (w : World) : (updateAfterFailedLogin label id count lockedUntil).run w = (.error .overflowError, w) := by
  unfold updateAfterFailedLogin
  rw [Prog.run_bind, run_now]
  dsimp only
  rw [run_connection, run_execute]
  simp [bindAll, bindValue, hcount]

end UserRepository

omit [Platform] in
/-- A setting that is looked up. -/
private theorem run_setting (f : World → ℤ) (w : World) :
    (Prog.look .state fun w => .ok (f w) : Act ℤ).run w = (.ok (f w), w) := rfl

theorem run_computeLockoutUntil (w : World) :
    computeLockoutUntil.run w = ((addMinutes w.clock (lockoutMinutes w.environ)).map fun T => (w.clock, T), w) := by
  unfold computeLockoutUntil
  rw [Prog.run_bind_ok (run_utcNow w), Prog.run_bind_ok (run_setting (fun w => lockoutMinutes w.environ) w)]
  rcases hadd : addMinutes w.clock (lockoutMinutes w.environ) with e | T
  · rw [Prog.run_bind_error (Prog.run_done _ _)]
    rfl
  · rw [Prog.run_bind_ok (Prog.run_done _ _)]
    rfl

theorem run_computeExpiry (w : World) :
    computeExpiry.run w = (addMinutes w.clock (sessionTtlMinutes w.environ), w) := by
  unfold computeExpiry
  rw [Prog.run_bind_ok (run_utcNow w), Prog.run_bind_ok (run_setting (fun w => sessionTtlMinutes w.environ) w)]
  rfl

theorem run_verifyPassword (password : PyStr) (passwordHash : Value) (w : World) :
    (verifyPassword password passwordHash).run w = (passwordCheck passwordHash password, w) := rfl

/-- The world after a transaction. -/
def World.commit {α : Type} (w : World) (r : Except Exc (α × Database)) : Except Exc α × World :=
  match r with
  | .ok (a, db) => (.ok a, { w with db := db })
  | .error e => (.error e, w)

omit [Platform] in
/-- A statement in a transaction of its own. -/
theorem run_transaction {α : Type} {params : List Value} (h : bindAll params = .ok ()) (label : Label)
    (f : Database → Except Exc (α × Database)) (w : World) :
    (connection label (execute params f)).run w = w.commit (f w.db) := by
  rw [run_connection, run_execute, h]
  rcases f w.db with e | ⟨a, db⟩ <;> rfl

omit [Platform] in
theorem SessionRepository.run_create {userId : ℤ} {expiresAt : PyStr} (hid : Fits userId)
    (hexpires : Bindable expiresAt) (tokenHash : PyStr) (w : World) :
    (create userId tokenHash expiresAt).run w =
      w.commit ((w.db.insertSession userId tokenHash expiresAt (isoformat w.clock)).map fun db => ((), db)) := by
  have hbind : ∀ now : PyStr, Bindable now →
      bindAll [.int userId, .str expiresAt, .str now] = .ok () := fun now hnow =>
    bindAll_ok (by simp [bindValue_str hnow, bindValue_str hexpires, bindValue_int hid])
  unfold create
  rw [Prog.run_bind_ok (run_now w)]
  exact run_transaction (hbind _ (bindable_isoformat _)) _
    (fun db => (db.insertSession userId tokenHash expiresAt (isoformat w.clock)).map fun db => ((), db)) w

namespace AuthService

/-- The session that `login` opens for a user, where it can be stored. -/
def newSession (w : World) (userId : ℤ) (token : PyStr) : Except Exc (LoginResult × Database) := do
  let expiresAt ← addMinutes w.clock (sessionTtlMinutes w.environ)
  let tokenHash ← hashToken token
  let db ← w.db.insertSession userId tokenHash (isoformat expiresAt) (isoformat w.clock)
  return (⟨token, isoformat expiresAt⟩, db)

variable {email : PyStr} {hash : Value} {a : Account} {w : World} {row : User}

/-- While a lockout is in force the attempt ends. -/
theorem run_passLockout_locked (h : Shows email hash a w row) (hlocked : a.lockedAt w.clock) (spelling : PyStr) :
    (passLockout spelling row).run w = (.error .accountLockedError, w) := by
  have hcell := h.locked
  unfold SaysLock at hcell
  unfold Account.lockedAt at hlocked
  rcases ha : a.lockedUntil with - | T
  · rw [ha] at hlocked
    cases hlocked
  rw [ha] at hcell hlocked
  obtain ⟨hsome, hread⟩ := hcell
  have htime : w.clock < T := of_decide_eq_true hlocked
  unfold passLockout
  rw [if_neg hsome, hread, Prog.run_bind_ok (Prog.run_done _ _), Prog.run_bind_ok (run_utcNow w), if_pos htime]
  rfl

/-- Otherwise it goes on with a row that shows the account without a lockout. -/
theorem run_passLockout (h : Shows email hash a w row) (hlocked : ¬ a.lockedAt w.clock) {spelling : PyStr}
    (hspelling : UserRepository.normalizeEmail spelling = email) :
    ∃ row' w', (passLockout spelling row).run w = (.ok row', w') ∧ Shows email hash a.current w' row' ∧ row'.id = row.id ∧
      (w' = w ∨ w' = w.afterLogin .fresh row.id) := by
  have hcell := h.locked
  unfold SaysLock at hcell
  unfold Account.lockedAt at hlocked
  unfold Account.current passLockout
  rcases ha : a.lockedUntil with - | T
  · rw [ha] at hcell
    rw [if_pos hcell]
    exact ⟨row, w, rfl, h, rfl, .inl rfl⟩
  rw [ha] at hcell hlocked
  obtain ⟨hsome, hread⟩ := hcell
  have htime : ¬ w.clock < T := fun hlt => hlocked (decide_eq_true hlt)
  obtain ⟨row', hrow', hid⟩ := h.afterLogin .fresh (by rintro _ ⟨⟩)
  refine ⟨row', w.afterLogin .fresh row.id, ?_, hrow', hid, .inr rfl⟩
  -- the row is read again after it was reset
  have hselected := UserRepository.run_getByEmail_shows hrow' hspelling
  rw [if_neg hsome, hread, Prog.run_bind_ok (Prog.run_done _ _), Prog.run_bind_ok (run_utcNow w), if_neg htime,
    Prog.run_bind_ok (UserRepository.run_resetLoginFailures h.fits _ w), Prog.run_bind_ok hselected]
  rfl

/-- One more attempt has failed. -/
theorem run_registerFailedAttempt (h : Shows email hash a w row) :
    (registerFailedAttempt row).run w =
      match a.fail (maxFailedAttempts w.environ) (lockoutMinutes w.environ) w.clock with
      | .ok a' => (.ok (), w.afterLogin a' row.id)
      | .error e => (.error e, w) := by
  unfold registerFailedAttempt Account.fail
  rw [h.failed, Prog.run_bind_ok (Prog.run_done _ _),
    Prog.run_bind_ok (run_setting (fun w => maxFailedAttempts w.environ) w)]
  by_cases hreached : maxFailedAttempts w.environ ≤ a.failed + 1
  · rw [if_pos hreached, if_pos hreached]
    have hrun := run_computeLockoutUntil w
    rcases hadd : addMinutes w.clock (lockoutMinutes w.environ) with e | T
    · rw [hadd] at hrun
      rw [Prog.run_bind_error hrun]
      have he : e = .overflowError := by
        unfold addMinutes at hadd
        dsimp only at hadd
        split_ifs at hadd
        exact (Except.error.inj hadd).symm
      rw [he]
      split_ifs <;> rfl
    · rw [hadd] at hrun
      rw [Prog.run_bind_ok hrun]
      by_cases hfits : Fits (a.failed + 1)
      · rw [if_neg (not_not.mpr hfits)]
        exact UserRepository.run_updateAfterFailedLogin h.fits (a := ⟨a.failed + 1, some T⟩) hfits _ w
      · rw [if_pos hfits]
        exact UserRepository.run_updateAfterFailedLogin_overflow hfits _ _ w
  · rw [if_neg hreached, if_neg hreached]
    by_cases hfits : Fits (a.failed + 1)
    · rw [if_neg (not_not.mpr hfits)]
      exact UserRepository.run_updateAfterFailedLogin h.fits (a := ⟨a.failed + 1, none⟩) hfits _ w
    · rw [if_pos hfits]
      exact UserRepository.run_updateAfterFailedLogin_overflow hfits _ _ w

/-- After the passphrase was found right the failures are reset, and there is a session, unless it cannot be
stored. -/
theorem run_openSession (h : Shows email hash a w row) (token : PyStr) :
    (openSession row token).run w =
      (w.afterLogin .fresh row.id).commit (newSession (w.afterLogin .fresh row.id) row.id token) := by
  unfold openSession newSession
  rw [Prog.run_bind_ok (UserRepository.run_resetLoginFailures h.fits _ w)]
  generalize w.afterLogin .fresh row.id = w'
  rcases hadd : addMinutes w'.clock (sessionTtlMinutes w'.environ) with e | expiresAt
  · rw [Prog.run_bind_error ((run_computeExpiry w').trans (by rw [hadd]))]
    rfl
  rw [Prog.run_bind_ok ((run_computeExpiry w').trans (by rw [hadd]))]
  rcases hhash : hashToken token with e | tokenHash
  · rw [Prog.run_bind_error (Prog.run_done _ _)]
    rfl
  rw [Prog.run_bind_ok (Prog.run_done _ _)]
  have hcreate := SessionRepository.run_create h.fits (bindable_isoformat expiresAt) tokenHash w'
  rcases hinsert : w'.db.insertSession row.id tokenHash (isoformat expiresAt) (isoformat w'.clock) with e | db
  · rw [hinsert] at hcreate
    rw [Prog.run_bind_error hcreate]
    simp only [ok_bind, hinsert]
    rfl
  · rw [hinsert] at hcreate
    rw [Prog.run_bind_ok hcreate]
    simp only [ok_bind, hinsert]
    rfl

/-- While a lockout is in force a login is refused, and changes nothing. -/
theorem run_login_locked (h : Shows email hash a w row) (hlocked : a.lockedAt w.clock) {spelling : PyStr}
    (hspelling : UserRepository.normalizeEmail spelling = email) (passphrase : PyStr) (coins : LoginCoins) :
    (login spelling passphrase coins).run w = (.error .accountLockedError, w) := by
  have hfound := UserRepository.run_getByEmail_shows h hspelling
  unfold login
  rw [Prog.run_bind_ok hfound]
  exact Prog.run_bind_error (run_passLockout_locked h hlocked spelling) _

/-- **A login of an account** is answered as the account says, and leaves a row that shows what the
attempt makes of it. -/
theorem run_login (h : Shows email hash a w row) {spelling : PyStr}
    (hspelling : UserRepository.normalizeEmail spelling = email) (passphrase : PyStr) (coins : LoginCoins)
    {answer : Except Exc Unit} {a' : Account}
    (hattempt : a.attempt (maxFailedAttempts w.environ) (lockoutMinutes w.environ)
      (passwordCheck hash passphrase) w.clock = (answer, a')) :
    ∃ w' row', OnlyLogins w w' ∧ Shows email hash a' w' row' ∧ row'.id = row.id ∧
      (login spelling passphrase coins).run w = w'.commit (answer >>= fun _ => newSession w' row.id coins.token) := by
  unfold Account.attempt at hattempt
  by_cases hlocked : a.lockedAt w.clock
  · rw [if_pos hlocked] at hattempt
    obtain ⟨rfl, rfl⟩ := Prod.mk.inj hattempt
    exact ⟨w, row, .refl w, h, rfl, run_login_locked h hlocked hspelling passphrase coins⟩
  rw [if_neg hlocked] at hattempt
  obtain ⟨row₁, w₁, hpass, hshows, hid, hw₁⟩ := run_passLockout h hlocked hspelling
  have honly : OnlyLogins w w₁ := by
    rcases hw₁ with rfl | rfl
    · exact .refl _
    · exact .afterLogin _ _ _
  have hfound := UserRepository.run_getByEmail_shows h hspelling
  have hverify := run_verifyPassword passphrase row₁.passwordHash w₁
  rw [hshows.passwordHash] at hverify
  unfold login
  rw [Prog.run_bind_ok hfound]
  dsimp only
  rw [Prog.run_bind_ok hpass, hshows.passwordHash]
  rcases hcheck : passwordCheck hash passphrase with e | - | -
  · rw [hcheck] at hverify hattempt
    obtain ⟨rfl, rfl⟩ := Prod.mk.inj hattempt
    exact ⟨w₁, row₁, honly, hshows, hid, Prog.run_bind_error hverify _⟩
  · rw [hcheck] at hverify hattempt
    rw [Prog.run_bind_ok hverify]
    have hfail := run_registerFailedAttempt hshows
    rw [honly.clock, honly.environ] at hfail
    simp only [Bool.not_false, ↓reduceIte]
    rcases hcount : a.current.fail (maxFailedAttempts w.environ) (lockoutMinutes w.environ) w.clock with e | a₂
    · simp only [hcount] at hfail hattempt
      obtain ⟨rfl, rfl⟩ := Prod.mk.inj hattempt
      exact ⟨w₁, row₁, honly, hshows, hid, Prog.run_bind_error hfail _⟩
    · simp only [hcount] at hfail hattempt
      obtain ⟨rfl, rfl⟩ := Prod.mk.inj hattempt
      obtain ⟨row', hrow', hid'⟩ := hshows.afterLogin _ (Account.fail_calendar hcount)
      exact ⟨_, row', honly.trans (.afterLogin _ _ _), hrow', hid'.trans hid, Prog.run_bind_ok hfail _⟩
  · rw [hcheck] at hverify hattempt
    obtain ⟨rfl, rfl⟩ := Prod.mk.inj hattempt
    rw [Prog.run_bind_ok hverify]
    obtain ⟨row', hrow', hid'⟩ := hshows.afterLogin .fresh (by rintro _ ⟨⟩)
    refine ⟨_, row', honly.trans (.afterLogin _ _ _), hrow', hid'.trans hid, ?_⟩
    rw [← hid]
    exact run_openSession hshows coins.token

/-- The hash of the placeholder that a login without an account checks: the one there is, or a new one. -/
def placeholderHash (w : World) (salt : Bytes) : Except Exc PyStr :=
  match w.dummyHash with
  | some hash => .ok hash
  | none =>
    let (timeCost, memoryCost, parallelism) := passwordCosts w.environ
    Platform.passwordHash placeholder salt timeCost memoryCost parallelism

theorem run_dummyHash (salt : Bytes) (w : World) :
    (dummyHash salt).run w =
      match placeholderHash w salt with
      | .ok hash => (.ok hash, { w with dummyHash := some hash })
      | .error e => (.error e, w) := by
  have hlook : (Prog.look .state fun w => .ok w.dummyHash : Act (Option PyStr)).run w = (.ok w.dummyHash, w) := rfl
  unfold dummyHash placeholderHash
  rw [Prog.run_bind_ok hlook]
  cases hcached : w.dummyHash with
  | some hash =>
    have hsame : { w with dummyHash := some hash } = w := by rw [← hcached]
    simp only [Prog.run_pure, hsame]
  | none =>
    have hhash : (hashPassword placeholder salt).run w = (Platform.passwordHash placeholder salt (passwordCosts w.environ).1
        (passwordCosts w.environ).2.1 (passwordCosts w.environ).2.2, w) := rfl
    dsimp only
    rcases hmade : Platform.passwordHash placeholder salt (passwordCosts w.environ).1 (passwordCosts w.environ).2.1
        (passwordCosts w.environ).2.2 with e | hash
    · rw [hmade] at hhash
      exact Prog.run_bind_error hhash _
    · rw [hmade] at hhash
      rw [Prog.run_bind_ok hhash]
      rfl

/-- What the login of an email without an account is answered with. -/
def refusal (w : World) (passphrase : PyStr) (salt : Bytes) : Exc :=
  match placeholderHash w salt with
  | .error e => e
  | .ok hash =>
    match passwordCheck (.str hash) passphrase with
    | .error e => e
    | .ok _ => .invalidCredentialsError

/-- Where there is no account every login is refused, and the hash of the placeholder is all that may change. -/
theorem run_login_unregistered {spelling : PyStr} (hbindable : Bindable (UserRepository.normalizeEmail spelling))
    (hnone : w.db.selectUser (UserRepository.normalizeEmail spelling) = none) (passphrase : PyStr) (coins : LoginCoins) :
    (login spelling passphrase coins).run w = (.error (refusal w passphrase coins.dummySalt),
      { w with dummyHash := (placeholderHash w coins.dummySalt).toOption.or w.dummyHash }) := by
  have hfound := UserRepository.run_getByEmail hbindable hnone (by simp)
  have hhash := run_dummyHash coins.dummySalt w
  unfold login refusal
  rw [Prog.run_bind_ok hfound]
  dsimp only
  rcases hmade : placeholderHash w coins.dummySalt with e | hash
  · rw [hmade] at hhash
    exact Prog.run_bind_error hhash _
  · rw [hmade] at hhash
    rw [Prog.run_bind_ok hhash]
    dsimp only
    have hverify := run_verifyPassword passphrase (.str hash) { w with dummyHash := some hash }
    rcases hcheck : passwordCheck (.str hash) passphrase with e | b
    · rw [hcheck] at hverify
      exact Prog.run_bind_error hverify _
    · rw [hcheck] at hverify
      rw [Prog.run_bind_ok hverify]
      rfl

end AuthService

end MiniVault
