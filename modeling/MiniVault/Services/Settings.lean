import MiniVault.Auth.Lockout
import MiniVault.Core.Unlocking

/-!
# The settings and what uses them

`core/settings.py` bounds each number from below only. Their consumers have bounds of their own: the cipher
takes keys of one length, times end with the calendar, and a count is stored in 64 bits.

## The model

For each consumer there is a proposition that says that it did its work: `VaultService.Works` for an initialization
and every unlocking after it, `LogsIn` for a login with the right passphrase, `BeginsLockout` for the wrong
logins of an account up to the last that the settings allow.

## What is proved

* `VaultService.works_iff`, `logsIn_iff`, `beginsLockout_iff` — each consumer works exactly where the numbers
  it is given respect its own bound.
* `settings_usable` — the three together, for all settings.
-/

namespace MiniVault

open Foundations

section Settings

variable [Platform]

/-! ### What is assumed -/

/-- Argon2 returns as many bytes as it was asked for. -/
def ArgonLength : Prop :=
  ∀ secret salt time memory parallelism length k,
    Platform.hashSecretRaw secret salt time memory parallelism length = .ok k → k.length = length.toNat

/-- `AESGCM.encrypt` encrypts every text that is not too long. -/
def GcmEncrypts : Prop :=
  ∀ (key : Key) (nonce : Nonce) (plaintext aad : Bytes), plaintext.length < 2 ^ 31 → aad.length < 2 ^ 31 →
    ∃ encrypted, Platform.aesGcmEncrypt key nonce plaintext aad = .ok encrypted

/-! ### The initialization -/

namespace VaultService

variable {environ : PyStr → Option PyStr} {passphrase : PyStr} {coins : InitCoins} {w : World}

/-- `initialize` completes, and in every state after it the passphrase brings the key back. -/
def Works (passphrase : PyStr) (coins : InitCoins) (w : World) : Prop :=
  ∃ s w', (initializeVault passphrase coins).run w = (.ok s, w') ∧
    ∀ ops, (unlock passphrase).run (vaultSession w' ops).2 =
      (.ok ⟨true, py "unlocked"⟩, { (vaultSession w' ops).2 with dek := some coins.dek })

/-- A step of a run leaves the configuration that there is. -/
theorem exec_config {file : ConfigFile} (h : w.config = some file) (op : VaultOp) : (op.exec.run w).2.config = some file := by
  cases op with
  | initializeVault Q coins =>
    have hrun : (initializeVault Q coins).run w = (.error .vaultAlreadyInitializedError, w) := by
      unfold initializeVault
      rw [Prog.run_bind_ok (run_configExists w), h]
      rfl
    simp only [VaultOp.exec, run_answer, hrun]
    exact h
  | unlock Q =>
    have hkeeps : Keeps World.config (VaultOp.unlock Q).exec := .bind (unlock_keeps fun _ _ => rfl) fun _ => .pure _
    exact (hkeeps.run w).trans h
  | lock =>
    simp only [VaultOp.exec, run_answer, run_lock]
    exact h
  | restart =>
    simp only [VaultOp.exec, run_restart, Prog.run_bind, Prog.run_pure]
    exact h
  | setEnviron environ => exact h

/-- So does every run. -/
theorem vaultSession_config {file : ConfigFile} (h : w.config = some file) (ops : List VaultOp) :
    (vaultSession w ops).2.config = some file :=
  Prog.session_invariant (I := fun _ (w : World) => w.config = some file) h (fun _ _ op hw => exec_config hw op) ops

/-- An initialization with a key of the length the cipher takes completes, where its configuration can be saved. -/
theorem run_initializeVault (hencrypts : GcmEncrypts) (hconfig : w.config = none) (hsave : CanSave w.configPath)
    (hpolicy : evaluate passphrase = none) {wrappingKey : Bytes}
    (hderive : deriveWrappingKey passphrase coins.salt (currentParameters w.environ) = .ok wrappingKey)
    (hlen : wrappingKey.length = 32) : ∃ encrypted s w', (initializeVault passphrase coins).run w = (.ok s, w') ∧
      Platform.aesGcmEncrypt wrappingKey coins.nonce coins.dek dekWrapAad = .ok encrypted ∧
        w'.config = some (.json (.obj (configOf coins.salt (currentParameters w.environ) (.split coins.nonce encrypted)))) := by
  obtain ⟨encrypted, henc⟩ := hencrypts ⟨wrappingKey, hlen⟩ coins.nonce coins.dek dekWrapAad
    (by rw [coins.dek.2]; decide) (by decide)
  have hwrap : (encryptAesGcm wrappingKey coins.dek dekWrapAad coins.nonce).run w = (.ok _, _) :=
    run_encryptAesGcm_eq_ok.mpr ⟨hlen, encrypted, henc, rfl, rfl⟩
  have hfound := run_configExists w
  rw [hconfig] at hfound
  have hlook : (Prog.look .state fun w => .ok (currentParameters w.environ) : Act KdfParameters).run w =
      (.ok (currentParameters w.environ), w) := rfl
  unfold initializeVault
  rw [Prog.run_bind_ok hfound]
  simp only [Option.isSome_none, Bool.false_eq_true, ↓reduceIte, hpolicy]
  rw [Prog.run_bind_ok hlook, Prog.run_bind_ok ((Prog.run_done _ _).trans (by rw [hderive])),
    Prog.run_bind_ok hwrap, Prog.run_bind_ok (run_saveAtomic (w := { w with
      sealed := w.sealed ++ [⟨wrappingKey, dekWrapAad, coins.dek, .split coins.nonce encrypted⟩] }) hsave)]
  exact ⟨encrypted, _, _, rfl, henc, rfl⟩

/-- The length of keys is at least that of the cipher. -/
theorem le_hashLen (environ : PyStr → Option PyStr) : 32 ≤ (currentParameters environ).hashLen :=
  le_intSetting environ "KDF_HASH_LENGTH" (by decide)

/-- **The vault works exactly where keys have 32 bytes**, the passphrase has bytes at all and the configuration can be
saved. -/
theorem works_iff (hgcm : GcmCorrect) (hencrypts : GcmEncrypts) (hlength : ArgonLength)
    (haccepts : AcceptsCosts (currentParameters w.environ)) (hconfig : w.config = none) (hpolicy : evaluate passphrase = none) :
    Works passphrase coins w ↔
      (currentParameters w.environ).hashLen = 32 ∧ Encodable passphrase ∧ CanSave w.configPath := by
  have hle := le_hashLen w.environ
  constructor
  · rintro ⟨s, w', hrun, -⟩
    obtain ⟨-, hsave, wrappingKey, encrypted, hderive, hlen, -, rfl⟩ := run_initializeVault_eq_ok hrun
    obtain ⟨-, secret, hsecret, hhash⟩ := deriveWrappingKey_eq_ok.mp hderive
    have hbytes := hlength _ _ _ _ _ _ _ hhash
    exact ⟨by omega, (utf8Encode_isSome_iff passphrase).mp (by rw [hsecret]; rfl), hsave⟩
  · rintro ⟨hlen, hencodable, hsave⟩
    obtain ⟨secret, hsecret⟩ := Option.isSome_iff_exists.mp ((utf8Encode_isSome_iff passphrase).mpr hencodable)
    obtain ⟨wrappingKey, hhash⟩ := haccepts secret coins.salt (by rw [coins.salt.2])
    have hne : passphrase ≠ [] := by
      rintro rfl
      cases hpolicy
    have hderive := deriveWrappingKey_eq_ok.mpr ⟨hne, secret, hsecret, hhash⟩
    have hbytes := hlength _ _ _ _ _ _ _ hhash
    rw [hlen] at hbytes
    obtain ⟨encrypted, s, w', hrun, henc, hwrapped⟩ := run_initializeVault hencrypts hconfig hsave hpolicy hderive hbytes
    exact ⟨s, w', hrun, fun ops =>
      run_unlock_configOf (vaultSession_config hwrapped ops) hderive (hgcm.opens hbytes henc)⟩

end VaultService

/-! ### Sessions -/

/-- A time so many minutes later lies in the calendar. -/
def InCalendar (time : ℕ) (minutes : ℤ) : Prop := time + minutes * 60000000 ≤ (maxTime : ℤ)

instance (time : ℕ) (minutes : ℤ) : Decidable (InCalendar time minutes) := inferInstanceAs (Decidable (_ ≤ _))

omit [Platform] in
/-- Where the minutes are not negative, this is all there is to adding them. -/
theorem inCalendar_iff {time : ℕ} {minutes : ℤ} (h : 0 ≤ minutes) :
    InCalendar time minutes ↔ addMinutes time minutes = .ok (time + minutes.toNat * 60000000) := by
  rw [addMinutes_eq_ok]
  unfold InCalendar
  push_cast
  rw [Int.toNat_of_nonneg h]
  omega

section Accounts

variable {email : PyStr} {hash : Value} {a : Account} {w : World} {row : User} {x : Attempt}

/-- The login opens a session: it is answered with the token, and the session is stored under its hash. -/
def LogsIn (w : World) (x : Attempt) : Prop :=
  ∃ expiresAt, (x.exec.run w).1 = .ok ⟨x.coins.token, expiresAt⟩ ∧
    (x.exec.run w).2.db.HasSession x.coins.token expiresAt

/-- The token of a login can be stored: it has bytes, it is a new one, and there is an identifier left. -/
structure Storable (w : World) (x : Attempt) : Prop where
  /-- It has UTF-8 bytes. -/
  token : Encodable x.coins.token
  /-- It is a new one. -/
  unused : ∀ s ∈ w.db.sessions.rows, (hashToken x.coins.token).map Value.str ≠ .ok s.tokenHash
  /-- There is an identifier left. -/
  id : (w.db.sessions.nextId Session.id).isOk

/-- **A right login opens its session exactly where it ends within the calendar**. -/
theorem logsIn_iff (h : Shows email hash a w row) (hlocked : ¬ a.lockedAt x.time)
    (hspelling : UserRepository.normalizeEmail x.email = email) (hright : passwordCheck hash x.passphrase = .ok true)
    (hstore : Storable w x) : LogsIn w x ↔ InCalendar x.time (sessionTtlMinutes w.environ) := by
  have hpos : 1 ≤ sessionTtlMinutes w.environ := le_intSetting w.environ _ (by decide)
  have hnow : Shows email hash a { w with clock := x.time } row := h.of_users rfl
  have hattempt : a.attempt (maxFailedAttempts w.environ) (lockoutMinutes w.environ)
      (passwordCheck hash x.passphrase) x.time = (.ok (), .fresh) := by
    rw [hright]
    exact Account.attempt_right hlocked
  obtain ⟨w', row', honly, hshows, hid, hrun⟩ := AuthService.run_login hnow hspelling x.passphrase x.coins hattempt
  rw [← x.run_exec w, ok_bind] at hrun
  unfold LogsIn
  rw [hrun, inCalendar_iff (by omega)]
  constructor
  · rintro ⟨expiresAt, hok, -⟩
    rcases hsession : AuthService.newSession w' row.id x.coins.token with e | ⟨r, db⟩
    · rw [hsession] at hok
      cases hok
    · obtain ⟨time, hadd, -⟩ := bind_eq_ok.mp hsession
      rw [honly.clock, honly.environ] at hadd
      obtain ⟨hsum, -⟩ := addMinutes_eq_ok.mp hadd
      rw [hadd]
      congr 1
      dsimp only at hsum
      omega
  · intro hcalendar
    have hroom : HasRoom w' x := by
      refine ⟨?_, hstore.token, by rw [honly.sessions]; exact hstore.unused, by rw [honly.sessions]; exact hstore.id⟩
      rw [honly.environ]
      exact (addMinutes_eq_ok.mp hcalendar).2
    obtain ⟨expiresAt, db, hsession, -, hstored⟩ :=
      newSession_eq_ok honly.clock hroom (mem_of_selectUser hshows.selected)
    rw [← hid, hsession]
    exact ⟨expiresAt, rfl, hstored⟩

/-! ### Lockouts -/

omit [Platform] in
/-- A count that does not fit and a time past the calendar are all that is wrong with a wrong attempt. -/
theorem Account.fail_eq_error {threshold minutes : ℤ} {time : ℕ} {e : Exc} (h : a.fail threshold minutes time = .error e) :
    e = .overflowError := by
  unfold fail addMinutes at h
  dsimp only at h
  split_ifs at h <;> first | exact (Except.error.inj h).symm | cases h

/-- A wrong login of an account that meets no lockout and no bound. -/
theorem run_wrong (h : Shows email hash a w row) (hlocked : ¬ a.lockedAt x.time)
    (hspelling : UserRepository.normalizeEmail x.email = email) (hwrong : passwordCheck hash x.passphrase = .ok false)
    {a' : Account} (hfail : a.current.fail (maxFailedAttempts w.environ) (lockoutMinutes w.environ) x.time = .ok a') :
    ∃ w' row', x.exec.run w = (.error .invalidCredentialsError, w') ∧ w'.environ = w.environ ∧ Shows email hash a' w' row' := by
  have hnow : Shows email hash a { w with clock := x.time } row := h.of_users rfl
  have hattempt : a.attempt (maxFailedAttempts w.environ) (lockoutMinutes w.environ)
      (passwordCheck hash x.passphrase) x.time = (.error .invalidCredentialsError, a') := by
    rw [hwrong]
    exact Account.attempt_wrong hlocked hfail
  obtain ⟨w', row', honly, hshows, -, hrun⟩ := AuthService.run_login hnow hspelling x.passphrase x.coins hattempt
  exact ⟨w', row', (x.run_exec w).trans hrun, honly.environ, hshows⟩

/-- One that does fails as an arithmetic error. -/
theorem run_wrong_overflow (h : Shows email hash a w row) (hlocked : ¬ a.lockedAt x.time)
    (hspelling : UserRepository.normalizeEmail x.email = email) (hwrong : passwordCheck hash x.passphrase = .ok false)
    {e : Exc} (hfail : a.current.fail (maxFailedAttempts w.environ) (lockoutMinutes w.environ) x.time = .error e) :
    (x.exec.run w).1 = .error .overflowError := by
  have hnow : Shows email hash a { w with clock := x.time } row := h.of_users rfl
  have hattempt : a.attempt (maxFailedAttempts w.environ) (lockoutMinutes w.environ) (.ok false) x.time =
      (.error .overflowError, a.current) := by
    unfold Account.attempt
    rw [if_neg hlocked, hfail, Account.fail_eq_error hfail]
  rw [← hwrong] at hattempt
  obtain ⟨w', row', -, -, -, hrun⟩ := AuthService.run_login hnow hspelling x.passphrase x.coins hattempt
  rw [x.run_exec w]
  exact congrArg Prod.fst hrun

omit [Platform] in
/-- The count that reaches the threshold is kept where it fits and the lockout ends within the calendar. -/
theorem Account.fail_reached_eq_ok {threshold minutes : ℤ} {time : ℕ} {a' : Account} (hreached : threshold ≤ a.failed + 1)
    (hminutes : 0 ≤ minutes) : a.fail threshold minutes time = .ok a' ↔
      Fits (a.failed + 1) ∧ InCalendar time minutes ∧ a' = ⟨a.failed + 1, some (time + minutes.toNat * 60000000)⟩ := by
  rw [inCalendar_iff hminutes]
  unfold fail
  by_cases hfits : Fits (a.failed + 1)
  · rw [if_neg (not_not.mpr hfits), if_pos hreached]
    rcases hadd : addMinutes time minutes with e | T
    · exact ⟨nofun, fun h => by cases h.2.1⟩
    · have hT := (addMinutes_eq_ok.mp hadd).1
      obtain rfl : T = time + minutes.toNat * 60000000 := by omega
      exact ⟨fun h => ⟨hfits, rfl, (Except.ok.inj h).symm⟩, fun h => by rw [h.2.2]; rfl⟩
  · rw [if_pos hfits]
    exact ⟨nofun, fun h => absurd h.1 hfits⟩

/-- The logins are all answered as wrong ones, and with the last a lockout begins, as long as the settings say. -/
def BeginsLockout (email : PyStr) (hash : Value) (w : World) (attempts : List Attempt) (last : Attempt) : Prop :=
  (∀ r ∈ (loginSession w (attempts ++ [last])).1, r.2 = .error .invalidCredentialsError) ∧
    ∃ row, Shows email hash ⟨maxFailedAttempts w.environ, some (last.time + (lockoutMinutes w.environ).toNat * 60000000)⟩
      (loginSession w (attempts ++ [last])).2 row

/-- **The last of so many wrong logins begins a lockout exactly where their number can be stored and the lockout ends
within the calendar**. -/
theorem beginsLockout_iff {k : ℕ} {last : Attempt} {attempts : List Attempt} (h : Shows email hash a w row)
    (hfailed : a.current.failed = k) (hlocked : ∀ x ∈ (attempts ++ [last]).head?, ¬ a.lockedAt x.time)
    (hcount : (k + attempts.length + 1 : ℤ) = maxFailedAttempts w.environ)
    (hwrong : ∀ x ∈ attempts ++ [last], UserRepository.normalizeEmail x.email = email ∧
      passwordCheck hash x.passphrase = .ok false) :
    BeginsLockout email hash w attempts last ↔
      maxFailedAttempts w.environ < 2 ^ 63 ∧ InCalendar last.time (lockoutMinutes w.environ) := by
  have hpos : 1 ≤ lockoutMinutes w.environ := le_intSetting w.environ _ (by decide)
  unfold BeginsLockout loginSession
  induction attempts generalizing k a w row with
  | nil =>
    obtain ⟨hspelling, hverify⟩ := hwrong last (by simp)
    have hfree : ¬ a.lockedAt last.time := hlocked last (by simp)
    simp only [List.length_nil, Nat.cast_zero, add_zero] at hcount
    rw [← hfailed] at hcount
    have hreached {a' : Account} : a.current.fail (maxFailedAttempts w.environ) (lockoutMinutes w.environ)
        last.time = .ok a' ↔ _ := Account.fail_reached_eq_ok hcount.ge (le_trans (by decide) hpos)
    constructor
    · rintro ⟨hanswers, -⟩
      -- an overflow would be the answer
      rcases hfail : a.current.fail (maxFailedAttempts w.environ) (lockoutMinutes w.environ) last.time with e | a'
      · have hanswer := hanswers _ (List.mem_singleton_self _)
        cases (run_wrong_overflow h hfree hspelling hverify hfail).symm.trans hanswer
      · obtain ⟨hfits, hcalendar, -⟩ := hreached.mp hfail
        exact ⟨hcount ▸ hfits.2, hcalendar⟩
    · rintro ⟨hfits, hcalendar⟩
      have hfail := hreached.mpr ⟨⟨by omega, hcount ▸ hfits⟩, hcalendar, rfl⟩
      obtain ⟨w', row', hrun, -, hshows⟩ := run_wrong h hfree hspelling hverify hfail
      rw [hcount] at hshows
      simp only [List.nil_append, Prog.session, hrun]
      exact ⟨by simp, row', hshows⟩
  | cons x attempts ih =>
    obtain ⟨hspelling, hverify⟩ := hwrong x (by simp)
    have hfree : ¬ a.lockedAt x.time := hlocked x (by simp)
    rw [List.length_cons] at hcount
    push_cast at hcount
    by_cases hfits : Fits (k + 1)
    · have hfail : a.current.fail (maxFailedAttempts w.environ) (lockoutMinutes w.environ) x.time =
          .ok ⟨(k + 1 : ℕ), none⟩ := by
        unfold Account.fail
        rw [hfailed, if_neg (not_not.mpr hfits), if_neg (show ¬ _ ≤ (k : ℤ) + 1 by omega)]
        rfl
      obtain ⟨w', row', hrun, henviron, hshows⟩ := run_wrong h hfree hspelling hverify hfail
      have hrest := ih hshows rfl (fun _ _ => Bool.false_ne_true) (by rw [henviron, ← hcount]; push_cast; omega)
        (fun y hy => hwrong y (List.mem_cons_of_mem x hy)) (by rw [henviron]; exact hpos)
      rw [henviron] at hrest
      refine Iff.trans ?_ hrest
      simp only [List.cons_append, Prog.session, hrun, List.forall_mem_cons, true_and]
    · have hfail : a.current.fail (maxFailedAttempts w.environ) (lockoutMinutes w.environ) x.time =
          .error .overflowError := if_pos (hfailed.symm ▸ hfits)
      have hoverflow := run_wrong_overflow h hfree hspelling hverify hfail
      have hlarge : ¬ maxFailedAttempts w.environ < 2 ^ 63 := fun hsmall => hfits ⟨by omega, by omega⟩
      constructor
      · rintro ⟨hanswers, -⟩
        have hanswer := hanswers _ (List.mem_cons_self)
        cases hoverflow.symm.trans hanswer
      · exact fun hbounds => absurd hbounds.1 hlarge

end Accounts

/-! ### All settings -/

/-- **What the settings allow, and what works**: under every environment the vault that is initialized works exactly
where the keys that are derived have 32 bytes, the passphrase has UTF-8 bytes and the configuration can be saved under the
path that is set; a right login opens its session exactly where it ends within the calendar; and the last of the wrong
logins that are allowed begins the lockout exactly where their number has 64 bits and the lockout ends within the
calendar. -/
theorem settings_usable (hgcm : GcmCorrect) (hencrypts : GcmEncrypts) (hlength : ArgonLength)
    (environ : PyStr → Option PyStr) (haccepts : VaultService.AcceptsCosts (currentParameters environ)) :
    (∀ (w : World) passphrase coins, w.environ = environ → w.configPath = configPath environ → w.config = none →
      evaluate passphrase = none → (VaultService.Works passphrase coins w ↔
        (currentParameters environ).hashLen = 32 ∧ Encodable passphrase ∧ CanSave (configPath environ))) ∧
    (∀ email hash a (w : World) row (x : Attempt), w.environ = environ → Shows email hash a w row → ¬ a.lockedAt x.time →
      UserRepository.normalizeEmail x.email = email → passwordCheck hash x.passphrase = .ok true → Storable w x →
        (LogsIn w x ↔ InCalendar x.time (sessionTtlMinutes environ))) ∧
    (∀ email hash a (k : ℕ) (w : World) row attempts (last : Attempt), w.environ = environ → Shows email hash a w row →
      a.current.failed = k → (∀ x ∈ (attempts ++ [last]).head?, ¬ a.lockedAt x.time) →
      (k + attempts.length + 1 : ℤ) = maxFailedAttempts environ →
      (∀ x ∈ attempts ++ [last], UserRepository.normalizeEmail x.email = email ∧
        passwordCheck hash x.passphrase = .ok false) →
        (BeginsLockout email hash w attempts last ↔
          maxFailedAttempts environ < 2 ^ 63 ∧ InCalendar last.time (lockoutMinutes environ))) := by
  refine ⟨?_, ?_, ?_⟩
  · rintro w passphrase coins rfl hpath hconfig hpolicy
    rw [← hpath]
    exact VaultService.works_iff hgcm hencrypts hlength haccepts hconfig hpolicy
  · rintro email hash a w row x rfl hshows hlocked hspelling hright hstore
    exact logsIn_iff hshows hlocked hspelling hright hstore
  · rintro email hash a k w row attempts last rfl hshows hfailed hlocked hcount hwrong
    exact beginsLockout_iff hshows hfailed hlocked hcount hwrong

end Settings

/-! ### Settings on the sample platform -/

section Sample

attribute [local instance] samplePlatform

theorem samplePlatform_gcmEncrypts : @GcmEncrypts samplePlatform := fun _ _ _ _ _ _ => ⟨_, rfl⟩

theorem samplePlatform_argonLength : @ArgonLength samplePlatform := by
  intro secret salt time memory parallelism length k h
  rw [← Except.ok.inj h]
  simp

attribute [local irreducible] sampleRegistration

/-- The configuration can be saved where it is without other settings. -/
theorem sampleCanSave : @CanSave samplePlatform (configPath (sampleSettings "2" "1")) :=
  ⟨rfl, by decide +kernel, rfl, rfl⟩

/-- With two attempts allowed and a lockout of a minute everything works. -/
theorem settings_usable_sample :
    VaultService.Works samplePassphrase sampleCoins (.fresh (sampleSettings "2" "1")) ∧
      LogsIn (sampleRegistered (sampleSettings "2" "1")) (sampleAttempt 1 samplePassphrase) ∧
      BeginsLockout sampleEmail (.str samplePassphrase) (sampleRegistered (sampleSettings "2" "1")) [sampleAttempt 1 []]
        (sampleAttempt 2 []) := by
  obtain ⟨hworks, hopens, hlocks⟩ := settings_usable samplePlatform_gcmCorrect samplePlatform_gcmEncrypts
    samplePlatform_argonLength (sampleSettings "2" "1") fun _ _ _ => ⟨_, rfl⟩
  have hshows := sampleRegistered_shows (sampleSettings "2" "1")
  refine ⟨(hworks _ _ _ rfl rfl rfl (by decide +kernel)).mpr ⟨by decide +kernel, by decide +kernel, sampleCanSave⟩,
    (hopens _ _ _ _ _ (sampleAttempt 1 samplePassphrase) rfl hshows (by decide) (by decide +kernel) (by decide +kernel) ?_).mpr
      (by decide +kernel),
    (hlocks _ _ _ 0 _ _ _ _ rfl hshows rfl (by decide) (by decide +kernel) (by decide +kernel)).mpr (by decide +kernel)⟩
  exact ⟨by decide +kernel, by decide +kernel, by decide +kernel⟩

/-- An environment with one variable. -/
def sampleVariable (name value : String) : PyStr → Option PyStr := fun n => if n = py name then some (py value) else none

/-- **Settings that are accepted and do not work**: keys of 64 bytes, which the cipher refuses, a path without a name,
and sessions and lockouts that end past the calendar. -/
theorem settings_unusable_sample :
    ((VaultService.initializeVault samplePassphrase sampleCoins).run
      (.fresh (sampleVariable "MINIVAULT_KDF_HASH_LENGTH" "64"))).1 =
        .error (.valueError "AES-256 key must contain exactly 32 bytes") ∧
    ¬ VaultService.Works samplePassphrase sampleCoins (.fresh (sampleVariable "MINIVAULT_KDF_HASH_LENGTH" "64")) ∧
    ((VaultService.initializeVault samplePassphrase sampleCoins).run (.fresh (sampleVariable "MINIVAULT_CONFIG_PATH" ""))).1 =
        .error (.valueError "the path has an empty name") ∧
    ((sampleAttempt 1 samplePassphrase).exec.run
      (sampleRegistered (sampleVariable "MINIVAULT_SESSION_TTL_MINUTES" "1000000000000"))).1 = .error .overflowError ∧
    ((sampleAttempt 1 []).exec.run (sampleRegistered sampleEndless)).1 = .error .overflowError := by
  have hanswer : ((VaultService.initializeVault samplePassphrase sampleCoins).run
      (.fresh (sampleVariable "MINIVAULT_KDF_HASH_LENGTH" "64"))).1 =
        .error (.valueError "AES-256 key must contain exactly 32 bytes") := by decide +kernel
  refine ⟨hanswer, ?_, by decide +kernel, by decide +kernel, by decide +kernel⟩
  rintro ⟨s, w', hrun, -⟩
  rw [hrun] at hanswer
  cases hanswer

end Sample

end MiniVault
