import MiniVault.Core.Vault
import MiniVault.Runtime.Timestamps

/-!
# Accounts and sessions

`auth/service.py` with what it rests on: `auth/repository.py`, `auth/session_repository.py`,
`auth/session.py`, `auth/security.py`, and `auth/dependencies.py`, which turns a token into
a user.

## The model

`login` is several transactions, with looks at the clock and the check of the passphrase
between them. What it draws at random are among its arguments: the token, and the salt of the
placeholder's hash, which is made when there is no account and none was made before. The
transactions that change the row of an account are labelled with the row that the request
has read.
-/

namespace MiniVault

open Foundations

variable [Platform]

/-! ### Settings -/

/-- `max_failed_attempts`. -/
def maxFailedAttempts (environ : PyStr → Option PyStr) : ℤ := intSetting environ "MAX_FAILED_ATTEMPTS" 5 1

/-- `lockout_minutes`. -/
def lockoutMinutes (environ : PyStr → Option PyStr) : ℤ := intSetting environ "LOCKOUT_MINUTES" 5 1

/-- `session_ttl_minutes`. -/
def sessionTtlMinutes (environ : PyStr → Option PyStr) : ℤ := intSetting environ "SESSION_TTL_MINUTES" 30 1

/-- `password_time_cost`, `password_memory_cost` and `password_parallelism`: those of the key
derivation unless set apart. -/
def passwordCosts (environ : PyStr → Option PyStr) : ℤ × ℤ × ℤ :=
  (intSetting environ "PASSWORD_TIME_COST" (currentParameters environ).timeCost 1,
    intSetting environ "PASSWORD_MEMORY_COST" (currentParameters environ).memoryCost 8,
    intSetting environ "PASSWORD_PARALLELISM" (currentParameters environ).parallelism 1)

/-! ### `auth/security.py` -/

/-- `hash_password`. -/
def hashPassword (password : PyStr) (salt : Bytes) : Act PyStr := do
  if password = [] then throw (.valueError "Password must be a non-empty string")
  let (timeCost, memoryCost, parallelism) ← Prog.look .state fun w => .ok (passwordCosts w.environ)
  Prog.done (Platform.passwordHash password salt timeCost memoryCost parallelism)

/-- The body of `verify_password`: whether the hash is one of the password. -/
def passwordCheck (passwordHash : Value) (password : PyStr) : Except Exc Bool :=
  match Platform.passwordVerify passwordHash password with
  | .ok _ => .ok true
  | .error .verifyMismatchError => .ok false
  | .error .verificationError => .ok false
  | .error .invalidHash => .ok false
  | .error e => .error e

/-- `verify_password`. -/
def verifyPassword (password : PyStr) (passwordHash : Value) : Act Bool :=
  Prog.look .verify fun _ => passwordCheck passwordHash password

/-! ### `auth/session.py` -/

/-- `datetime.now(timezone.utc)`. -/
def utcNow : Act ℕ := Prog.look .clock fun w => .ok w.clock

/-- `hash_token`. -/
def hashToken (token : PyStr) : Except Exc PyStr :=
  match utf8Encode token with
  | some b => .ok (hexdigest b)
  | none => .error .unicodeEncodeError

/-- `compute_expiry`. -/
def computeExpiry : Act ℕ := do
  let time ← utcNow
  let minutes ← Prog.look .state fun w => .ok (sessionTtlMinutes w.environ)
  Prog.done (addMinutes time minutes)

/-- `compute_lockout_until`, with the time it is counted from. -/
def computeLockoutUntil : Act (ℕ × ℕ) := do
  let time ← utcNow
  let minutes ← Prog.look .state fun w => .ok (lockoutMinutes w.environ)
  let lockedUntil ← Prog.done (addMinutes time minutes)
  return (time, lockedUntil)

/-! ### The repositories -/

namespace UserRepository

/-- `UserRepository.normalize_email`. -/
def normalizeEmail (email : PyStr) : PyStr := Platform.lower (strip email)

/-- `UserRepository.get_by_email`. -/
def getByEmail (email : PyStr) : Act (Option User) :=
  connection .transaction <| query [.str (normalizeEmail email)] (fetchone User.cells) fun db =>
    db.selectUser (normalizeEmail email)

/-- `UserRepository.create`. -/
def create (email passwordHash : PyStr) : Act User := do
  let now ← now
  mapExc (· = .integrityError) .duplicateEmailError <| connection .transaction <|
    execute [.str (normalizeEmail email), .str passwordHash, .str now, .str now]
      fun db => (db.insertUser (normalizeEmail email) passwordHash now).map fun db => ((), db)
  match ← getByEmail (normalizeEmail email) with
  | none => throw (.runtimeError "Created user could not be read")
  | some row => return row

/-- `UserRepository.update_after_failed_login`. -/
def updateAfterFailedLogin (label : Label) (userId failedAttempts : ℤ) (lockedUntil : Value) : Act Unit := do
  let now ← now
  connection label <| execute [.int failedAttempts, lockedUntil, .str now, .int userId]
    fun db => .ok ((), db.updateLogin failedAttempts lockedUntil now userId)

/-- `UserRepository.reset_login_failures`. -/
def resetLoginFailures (label : Label) (userId : ℤ) : Act Unit := do
  let now ← now
  connection label <| execute [.str now, .int userId] fun db => .ok ((), db.updateLogin 0 .none now userId)

end UserRepository

namespace SessionRepository

/-- `SessionRepository.create`. -/
def create (userId : ℤ) (tokenHash expiresAt : PyStr) : Act Unit := do
  let now ← now
  -- a digest has 64 digits: binding it does not raise
  connection .transaction <| execute [.int userId, .str expiresAt, .str now]
    fun db => (db.insertSession userId tokenHash expiresAt now).map fun db => ((), db)

/-- `SessionRepository.find_active_by_token_hash`. -/
def findActiveByTokenHash (tokenHash : PyStr) : Act (Option (Session × User)) :=
  connection .transaction <| query [] (fetchone Session.joinedCells) fun db => db.selectActiveSession tokenHash

/-- `SessionRepository.revoke`: whether there was anything to revoke. -/
def revoke (tokenHash : PyStr) : Act Bool := do
  let now ← now
  connection .transaction do
    let rowcount ← execute [.str now] fun db => .ok (db.revokeSession now tokenHash)
    return rowcount > 0

end SessionRepository

/-! ### The service -/

namespace AuthService

/-- What `register` returns. -/
structure Registered where
  /-- `email`. -/
  email : Value
  /-- `created_at`. -/
  createdAt : Value
  deriving DecidableEq

/-- What `login` returns. -/
structure LoginResult where
  /-- `token`. -/
  token : PyStr
  /-- `expires_at`. -/
  expiresAt : PyStr
  deriving DecidableEq

/-- What `login` draws at random. -/
structure LoginCoins where
  /-- `generate_session_token`. -/
  token : PyStr
  /-- The salt of the placeholder's hash. -/
  dummySalt : Bytes

/-- `AuthService.register`, with the salt of the hash. -/
def register (email passphrase confirmPassphrase : PyStr) (salt : Bytes) : Act Registered := do
  if passphrase ≠ confirmPassphrase then throw .passphraseMismatchError
  match evaluate passphrase with
  | some issue => throw (.weakPassphraseError issue.code)
  | none =>
    let user ← UserRepository.create email (← hashPassword passphrase salt)
    return ⟨user.email, user.createdAt⟩

/-- The part of `login` that looks at the lockout: the row to go on with. -/
def passLockout (email : PyStr) (user : User) : Act User := do
  if user.lockedUntil = .none then return user
  let lockedUntil ← Prog.done (fromisoformat user.lockedUntil)
  let time ← utcNow
  if time < lockedUntil then throw .accountLockedError
  UserRepository.resetLoginFailures (.resetLogin user true) user.id
  match ← UserRepository.getByEmail email with
  | none => throw .invalidCredentialsError
  | some user => return user

/-- `AuthService._register_failed_attempt`. -/
def registerFailedAttempt (user : User) : Act Unit := do
  let newCount := (← Prog.done (pyInt user.failedAttempts)) + 1
  if newCount ≥ (← Prog.look .state fun w => .ok (maxFailedAttempts w.environ)) then
    let (time, lockedUntil) ← computeLockoutUntil
    UserRepository.updateAfterFailedLogin (.failedLogin user (some time)) user.id newCount (.str (isoformat lockedUntil))
  else UserRepository.updateAfterFailedLogin (.failedLogin user none) user.id newCount .none

/-- The part of `login` after the passphrase was found right. -/
def openSession (user : User) (token : PyStr) : Act LoginResult := do
  UserRepository.resetLoginFailures (.resetLogin user false) user.id
  let expiresAt ← computeExpiry
  SessionRepository.create user.id (← Prog.done (hashToken token)) (isoformat expiresAt)
  return ⟨token, isoformat expiresAt⟩

/-- The password that `_dummy_hash` hashes. -/
def placeholder : PyStr := py "timing-attack-mitigation-placeholder"

/-- `_dummy_hash`, with the salt of the hash: it is made once. -/
def dummyHash (salt : Bytes) : Act PyStr := do
  match ← Prog.look .state fun w => .ok w.dummyHash with
  | some hash => return hash
  | none =>
    let hash ← hashPassword placeholder salt
    Prog.change .state fun w => { w with dummyHash := some hash }
    return hash

/-- `AuthService.login`. -/
def login (email passphrase : PyStr) (coins : LoginCoins) : Act LoginResult := do
  match ← UserRepository.getByEmail email with
  | none =>
    let _ ← verifyPassword passphrase (.str (← dummyHash coins.dummySalt))
    throw .invalidCredentialsError
  | some user =>
    let user ← passLockout email user
    if !(← verifyPassword passphrase user.passwordHash) then
      registerFailedAttempt user
      throw .invalidCredentialsError
    openSession user coins.token

/-- `AuthService.logout`. -/
def logout (token : PyStr) : Act Unit := do
  let _ ← SessionRepository.revoke (← Prog.done (hashToken token))

end AuthService

/-! ### `auth/dependencies.py` -/

/-- `AuthenticatedUser`. -/
structure AuthenticatedUser where
  /-- `user_id`. -/
  userId : Value
  /-- `email`. -/
  email : Value
  /-- `token`. -/
  token : PyStr
  deriving DecidableEq

/-- `get_current_user`, of the scheme and the credentials of the header, where there is one. -/
def getCurrentUser (credentials : Option (PyStr × PyStr)) : Act AuthenticatedUser :=
  match credentials with
  | none => throw .unauthenticatedError
  | some (scheme, credentials) => do
    if Platform.lower scheme ≠ py "bearer" then throw .unauthenticatedError
    let token := strip credentials
    if token = [] then throw .unauthenticatedError
    match ← SessionRepository.findActiveByTokenHash (← Prog.done (hashToken token)) with
    | none => throw .unauthenticatedError
    | some (session, user) =>
      let expiresAt ← Prog.done (fromisoformat session.expiresAt)
      if (← utcNow) ≥ expiresAt then throw .unauthenticatedError
      return ⟨session.userId, user.email, token⟩

end MiniVault
