import MiniVault.Auth.Lockout

/-!
# What a login discloses

Wrong logins for an email that is registered, and the same logins where it is not.

## The model

* `World.without` is the world without the accounts of an email, and the same in everything else.
* `refusals` are the errors a sequence of logins is answered with.

## What is proved

* `refusals_eq_iff` — the two sequences of errors are the same exactly where no login meets a lockout in force, and
  the placeholder can be hashed.
-/

namespace MiniVault

open Foundations

section Logins

variable [Platform]

/-- Nobody is registered under the email. -/
def World.without (w : World) (email : PyStr) : World :=
  { w with
    db := { w.db with users := { w.db.users with rows := w.db.users.rows.filter fun r => !r.email.sqlEq (.str email) } } }

/-- The errors that a sequence of logins is answered with. -/
def refusals (w : World) (attempts : List Attempt) : List (Option Exc) :=
  (loginSession w attempts).1.map fun answered =>
    match answered.2 with
    | .ok _ => none
    | .error e => some e

/-- What a sequence of logins makes of an account. -/
def accountAfter (environ : PyStr → Option PyStr) (hash : Value) (a : Account) (attempts : List Attempt) : Account :=
  attempts.foldl (fun a x => (a.attempt (maxFailedAttempts environ) (lockoutMinutes environ)
    (passwordCheck hash x.passphrase) x.time).2) a

/-- The hash is one that the process checks passphrases without an account against, now or later: it is kept, or it is
one of the placeholder under the costs of the settings. -/
def PlaceholderHash (w : World) (hash : PyStr) : Prop :=
  w.dummyHash = some hash ∨ ∃ salt, AuthService.placeholderHash { w with dummyHash := none } salt = .ok hash

/-- Whether the check of a passphrase raises, and what, does not depend on the hash; neither it nor the hashing of the
placeholder raises an error that says something else. -/
structure Attempt.Uniform (hash : Value) (w : World) (x : Attempt) : Prop where
  /-- It raises for the hash what it raises for the placeholder's. -/
  raises : ∀ placeholder, PlaceholderHash w placeholder → ∀ e,
    passwordCheck hash x.passphrase = .error e ↔ passwordCheck (.str placeholder) x.passphrase = .error e
  /-- It does not say that the account is locked. -/
  foreign : passwordCheck hash x.passphrase ≠ .error .accountLockedError
  /-- Where the placeholder cannot be hashed, the error is one that no login of an account is answered with. -/
  hashing : ∀ salt e, AuthService.placeholderHash { w with dummyHash := none } salt = .error e →
    e ≠ .accountLockedError ∧ e ≠ .invalidCredentialsError ∧ passwordCheck hash x.passphrase ≠ .error e

/-- There is a hash of the placeholder, or the login makes one. -/
def HasPlaceholder (w : World) (x : Attempt) : Prop := (AuthService.placeholderHash w x.coins.dummySalt).isOk

instance (w : World) (x : Attempt) : Decidable (HasPlaceholder w x) :=
  inferInstanceAs (Decidable ((AuthService.placeholderHash w x.coins.dummySalt).isOk = true))

/-- A wrong attempt of an account can be counted, and a lockout that it begins ends within the calendar. -/
structure Countable (environ : PyStr → Option PyStr) (a : Account) (x : Attempt) : Prop where
  /-- The count has 64 bits. -/
  count : Fits (a.current.failed + 1)
  /-- The end is in the calendar. -/
  calendar : maxFailedAttempts environ ≤ a.current.failed + 1 → x.time + lockoutMinutes environ * 60000000 ≤ maxTime

variable {email : PyStr} {hash : Value} {a : Account} {w w' : World} {row : User} {x : Attempt}

omit [Platform] in
theorem World.selectUser_without (w : World) (email : PyStr) : (w.without email).db.selectUser email = none := by
  unfold Database.selectUser World.without
  rw [List.find?_eq_none]
  intro r hr
  have := (List.mem_filter.mp hr).2
  simpa using this

theorem Countable.fail (h : Countable w.environ a x) : ∃ a',
    a.current.fail (maxFailedAttempts w.environ) (lockoutMinutes w.environ) x.time = .ok a' := by
  have hminutes : 1 ≤ lockoutMinutes w.environ := le_intSetting w.environ _ (by decide)
  unfold Account.fail
  rw [if_neg (not_not.mpr h.count)]
  split_ifs with hreached
  · have hsum : addMinutes x.time (lockoutMinutes w.environ) =
        .ok (x.time + (lockoutMinutes w.environ).toNat * 60000000) := by
      have := h.calendar hreached
      rw [addMinutes_eq_ok]
      constructor
      · push_cast
        omega
      · omega
    rw [hsum]
    exact ⟨_, rfl⟩
  · exact ⟨_, rfl⟩

/-- The hash that a login checks is one of the placeholder. -/
theorem placeholderHash_eq_ok {salt : Bytes} {placeholder : PyStr} (h : AuthService.placeholderHash w salt = .ok placeholder) :
    PlaceholderHash w placeholder := by
  rcases hcached : w.dummyHash with - | kept
  · refine .inr ⟨salt, ?_⟩
    rwa [← hcached]
  · unfold AuthService.placeholderHash at h
    rw [hcached] at h
    exact .inl (hcached.trans (congrArg some (Except.ok.inj h)))

/-- Where there is none, hashing the placeholder has failed. -/
theorem placeholderHash_eq_error {salt : Bytes} {e : Exc} (h : AuthService.placeholderHash w salt = .error e) :
    AuthService.placeholderHash { w with dummyHash := none } salt = .error e := by
  rcases hcached : w.dummyHash with - | kept
  · rwa [← hcached]
  · unfold AuthService.placeholderHash at h
    rw [hcached] at h
    cases h

/-- What was kept of the placeholder is kept by a login. -/
theorem PlaceholderHash.of_login {salt : Bytes} {placeholder : PyStr} {clock : ℕ} (h : PlaceholderHash
    { w with dummyHash := (AuthService.placeholderHash w salt).toOption.or w.dummyHash, clock := clock } placeholder) :
    PlaceholderHash w placeholder := by
  rcases h with hkept | hmade
  · rcases hhash : AuthService.placeholderHash w salt with e | made
    · rw [hhash] at hkept
      exact .inl hkept
    · rw [hhash] at hkept
      obtain rfl := Option.some.inj hkept
      exact placeholderHash_eq_ok hhash
  · exact .inr hmade

/-- An attempt that meets no lockout is answered as where there is no account. -/
theorem Account.attempt_refused (huniform : x.Uniform hash w') (hhash : HasPlaceholder w' x)
    (hwrong : passwordCheck hash x.passphrase ≠ .ok true) (hcount : Countable w.environ a x) (hlocked : ¬ a.lockedAt x.time) :
    (a.attempt (maxFailedAttempts w.environ) (lockoutMinutes w.environ) (passwordCheck hash x.passphrase) x.time).1 =
      .error (AuthService.refusal w' x.passphrase x.coins.dummySalt) := by
  unfold AuthService.refusal
  unfold HasPlaceholder at hhash
  rcases hmade : AuthService.placeholderHash w' x.coins.dummySalt with e | placeholder
  · rw [hmade] at hhash
    cases hhash
  have hraises := huniform.raises placeholder (placeholderHash_eq_ok hmade)
  rcases hcheck : passwordCheck hash x.passphrase with e | - | -
  · dsimp only
    rw [(hraises e).mp hcheck]
    unfold Account.attempt
    rw [if_neg hlocked]
  · obtain ⟨a', hfail⟩ := hcount.fail
    rw [Account.attempt_wrong hlocked hfail]
    dsimp only
    rcases hdummy : passwordCheck (.str placeholder) x.passphrase with e | b
    · rw [(hraises e).mpr hdummy] at hcheck
      cases hcheck
    · rfl
  · exact absurd hcheck hwrong

/-- Nothing is refused for a lockout where there is no account. -/
theorem Attempt.Uniform.refusal_ne (huniform : x.Uniform hash w') :
    AuthService.refusal w' x.passphrase x.coins.dummySalt ≠ .accountLockedError := by
  unfold AuthService.refusal
  rcases hmade : AuthService.placeholderHash w' x.coins.dummySalt with e | placeholder
  · exact (huniform.hashing _ e (placeholderHash_eq_error hmade)).1
  · dsimp only
    rcases hdummy : passwordCheck (.str placeholder) x.passphrase with e | b
    · rintro rfl
      exact huniform.foreign ((huniform.raises placeholder (placeholderHash_eq_ok hmade) _).mpr hdummy)
    · exact Exc.noConfusion

/-- Where the placeholder cannot be hashed, no login of an account that is refused is answered so. -/
theorem Account.attempt_ne_refusal (huniform : x.Uniform hash w') (hhash : ¬ HasPlaceholder w' x)
    (hwrong : passwordCheck hash x.passphrase ≠ .ok true) (hcount : Countable w.environ a x) :
    ∃ e, (a.attempt (maxFailedAttempts w.environ) (lockoutMinutes w.environ) (passwordCheck hash x.passphrase) x.time).1 =
      .error e ∧ e ≠ AuthService.refusal w' x.passphrase x.coins.dummySalt := by
  unfold HasPlaceholder at hhash
  unfold AuthService.refusal
  rcases hmade : AuthService.placeholderHash w' x.coins.dummySalt with e | placeholder
  swap
  · rw [hmade] at hhash
    exact absurd rfl hhash
  obtain ⟨hlockedError, hinvalid, hcheckError⟩ := huniform.hashing _ e (placeholderHash_eq_error hmade)
  by_cases hlocked : a.lockedAt x.time
  · exact ⟨_, by rw [Account.attempt_locked hlocked], hlockedError.symm⟩
  rcases hcheck : passwordCheck hash x.passphrase with e' | - | -
  · refine ⟨e', by rw [Account.attempt, if_neg hlocked], ?_⟩
    rintro rfl
    exact hcheckError hcheck
  · obtain ⟨a', hfail⟩ := hcount.fail
    exact ⟨_, by rw [Account.attempt_wrong hlocked hfail], hinvalid.symm⟩
  · exact absurd hcheck hwrong

/-- **Two worlds, one attempt**: the answers are the same exactly where no lockout is in force and there is a hash of
the placeholder, and the worlds go on as they were. -/
theorem Shows.attempt_iff (h : Shows email hash a w row) (hspelling : UserRepository.normalizeEmail x.email = email)
    (hnone : w'.db.selectUser email = none) (huniform : x.Uniform hash w')
    (hwrong : passwordCheck hash x.passphrase ≠ .ok true) (hcount : Countable w.environ a x) :
    ∃ e e', (x.exec.run w).1 = .error e ∧ x.exec.run w' = (.error e', { w' with
        dummyHash := (AuthService.placeholderHash w' x.coins.dummySalt).toOption.or w'.dummyHash, clock := x.time }) ∧
      (e = e' ↔ ¬ a.lockedAt x.time ∧ HasPlaceholder w' x) ∧ (x.exec.run w).2.environ = w.environ ∧
        ∃ row', Shows email hash (accountAfter w.environ hash a [x]) (x.exec.run w).2 row' := by
  have hnow : Shows email hash a { w with clock := x.time } row := h.of_users rfl
  have hbindable := h.bindable
  rw [← hspelling] at hbindable
  have hthere := AuthService.run_login_unregistered (w := { w' with clock := x.time }) hbindable
    (by rw [hspelling]; exact hnone) x.passphrase x.coins
  rw [← x.run_exec w'] at hthere
  have hanswer : ∃ e, (a.attempt (maxFailedAttempts w.environ) (lockoutMinutes w.environ)
      (passwordCheck hash x.passphrase) x.time).1 = .error e ∧
        (e = AuthService.refusal w' x.passphrase x.coins.dummySalt ↔ ¬ a.lockedAt x.time ∧ HasPlaceholder w' x) := by
    by_cases hhash : HasPlaceholder w' x
    · by_cases hlocked : a.lockedAt x.time
      · refine ⟨.accountLockedError, by rw [Account.attempt_locked hlocked], ?_⟩
        simp [hlocked, huniform.refusal_ne.symm]
      · exact ⟨_, Account.attempt_refused huniform hhash hwrong hcount hlocked, by simp [hlocked, hhash]⟩
    · obtain ⟨e, he, hne⟩ := Account.attempt_ne_refusal huniform hhash hwrong hcount
      exact ⟨e, he, by simp [hne, hhash]⟩
  obtain ⟨e, he, hiff⟩ := hanswer
  obtain ⟨w₁, row', honly, hshows, -, hrun⟩ :=
    AuthService.run_login hnow hspelling x.passphrase x.coins (Prod.ext he rfl)
  rw [← x.run_exec w] at hrun
  refine ⟨e, _, by rw [hrun]; rfl, hthere, hiff, ?_, row', ?_⟩
  · rw [hrun]
    exact honly.environ
  · rw [hrun]
    exact hshows

theorem refusals_cons (w : World) (x : Attempt) (attempts : List Attempt) {e : Exc} (h : (x.exec.run w).1 = .error e) :
    refusals w (x :: attempts) = some e :: refusals (x.exec.run w).2 attempts := by
  simp only [refusals, loginSession, Prog.session, List.map_cons, h]

/-- What is uniform stays so, when a login without an account is answered. -/
theorem Attempt.Uniform.of_login {salt : Bytes} {clock : ℕ} (h : x.Uniform hash w') : x.Uniform hash { w' with
    dummyHash := (AuthService.placeholderHash w' salt).toOption.or w'.dummyHash, clock := clock } :=
  ⟨fun placeholder hplaceholder => h.raises placeholder (.of_login hplaceholder), h.foreign, h.hashing⟩

/-- Once there is a hash of the placeholder every login has one. -/
theorem HasPlaceholder.next {clock : ℕ} (h : HasPlaceholder w' x) (y : Attempt) : HasPlaceholder { w' with
    dummyHash := (AuthService.placeholderHash w' x.coins.dummySalt).toOption.or w'.dummyHash, clock := clock } y := by
  unfold HasPlaceholder at h ⊢
  rcases hmade : AuthService.placeholderHash w' x.coins.dummySalt with e | placeholder
  · rw [hmade] at h
    cases h
  · rfl

/-- The two sequences of errors, of an account and of none. -/
theorem refusals_eq_iff_of_none {attempts : List Attempt} (h : Shows email hash a w row)
    (hnone : w'.db.selectUser email = none) (hspelling : ∀ x ∈ attempts, UserRepository.normalizeEmail x.email = email)
    (huniform : ∀ x ∈ attempts, x.Uniform hash w') (hwrong : ∀ x ∈ attempts, passwordCheck hash x.passphrase ≠ .ok true)
    (hcount : Explained (fun before x => Countable w.environ (accountAfter w.environ hash a before) x) attempts) :
    refusals w attempts = refusals w' attempts ↔
      Explained (fun before x => ¬ (accountAfter w.environ hash a before).lockedAt x.time) attempts ∧
        ∀ x ∈ attempts.head?, HasPlaceholder w' x := by
  induction attempts generalizing w w' a row with
  | nil => exact ⟨fun _ => ⟨.nil, by simp⟩, fun _ => rfl⟩
  | cons x attempts ih =>
    obtain ⟨hcountx, hcount⟩ := explained_cons.mp hcount
    obtain ⟨e, e', he, hthere, hiff, henviron, row', hshows⟩ := h.attempt_iff (hspelling x (by simp)) hnone
      (huniform x (by simp)) (hwrong x (by simp)) hcountx
    have htail := @ih _ _ (x.exec.run w').2 _ hshows (by rw [hthere]; exact hnone)
      (fun y hy => hspelling y (List.mem_cons_of_mem x hy))
      (fun y hy => by rw [hthere]; exact (huniform y (List.mem_cons_of_mem x hy)).of_login)
      (fun y hy => hwrong y (List.mem_cons_of_mem x hy)) (by rw [henviron]; exact hcount)
    rw [henviron] at htail
    rw [refusals_cons w x attempts he, refusals_cons w' x attempts (congrArg Prod.fst hthere), List.cons.injEq,
      Option.some.injEq, explained_cons, htail, hiff]
    simp only [List.head?_cons, Option.mem_some_iff, forall_eq']
    constructor
    · rintro ⟨⟨hlocked, hhash⟩, hrest, -⟩
      exact ⟨⟨hlocked, hrest⟩, hhash⟩
    · rintro ⟨⟨hlocked, hrest⟩, hhash⟩
      refine ⟨⟨hlocked, hhash⟩, hrest, fun y _ => ?_⟩
      rw [hthere]
      exact hhash.next y

/-- **What a login discloses**: of wrong logins that can be counted, the errors are the same whether the email is
registered or not exactly where no login meets a lockout in force, and the first one has a hash of the placeholder, kept
or made. -/
theorem refusals_eq_iff {attempts : List Attempt} (h : Shows email hash a w row)
    (hspelling : ∀ x ∈ attempts, UserRepository.normalizeEmail x.email = email)
    (huniform : ∀ x ∈ attempts, x.Uniform hash w) (hwrong : ∀ x ∈ attempts, passwordCheck hash x.passphrase ≠ .ok true)
    (hcount : Explained (fun before x => Countable w.environ (accountAfter w.environ hash a before) x) attempts) :
    refusals w attempts = refusals (w.without email) attempts ↔
      Explained (fun before x => ¬ (accountAfter w.environ hash a before).lockedAt x.time) attempts ∧
        ∀ x ∈ attempts.head?, HasPlaceholder w x :=
  refusals_eq_iff_of_none h (w.selectUser_without email) hspelling
    (fun x hx => ⟨(huniform x hx).raises, (huniform x hx).foreign, (huniform x hx).hashing⟩) hwrong hcount

end Logins

/-! ### Logins on the sample platform -/

section Sample

attribute [local instance] samplePlatform

attribute [local irreducible] sampleRegistration

/-- Three wrong logins, the last of them at the end of the lockout that the second one began. -/
def sampleGuesses : List Attempt := [sampleAttempt 1 [], sampleAttempt 2 [], sampleAttempt 60000002 []]

theorem sampleGuesses_uniform (w : World) (x : Attempt) : @Attempt.Uniform samplePlatform (.str samplePassphrase) w x := by
  refine ⟨fun placeholder _ e => ?_, fun h => ?_, fun salt e h => ?_⟩
  · rw [samplePlatform_passwordCheck, samplePlatform_passwordCheck]
    simp
  · rw [samplePlatform_passwordCheck] at h
    cases h
  · cases h

theorem refusals_eq_sample : refusals (sampleRegistered (sampleSettings "2" "1")) sampleGuesses =
    refusals ((sampleRegistered (sampleSettings "2" "1")).without sampleEmail) sampleGuesses := by
  refine (refusals_eq_iff (sampleRegistered_shows _) ?_ (fun x _ => sampleGuesses_uniform _ x) ?_ ?_).mpr ⟨?_, ?_⟩
  · decide +kernel
  · decide +kernel
  · unfold sampleGuesses
    simp only [explained_cons]
    exact ⟨⟨by decide +kernel, by decide +kernel⟩, ⟨by decide +kernel, by decide +kernel⟩,
      ⟨by decide +kernel, by decide +kernel⟩, .nil⟩
  · unfold sampleGuesses
    simp only [explained_cons]
    refine ⟨?_, ?_, ?_, .nil⟩ <;> decide +kernel
  · decide +kernel

/-- The same, one microsecond earlier. -/
def sampleEarlierGuesses : List Attempt := [sampleAttempt 1 [], sampleAttempt 2 [], sampleAttempt 60000001 []]

/-- **A lockout discloses the account**: the third login is told that the account is locked, and would not
be if there were none. -/
theorem refusals_ne_sample :
    (sampleRegistered (sampleSettings "2" "1")).db.selectUser sampleEmail = some sampleUser ∧
      (∀ x ∈ sampleEarlierGuesses, UserRepository.normalizeEmail x.email = sampleEmail ∧
        passwordCheck sampleUser.passwordHash x.passphrase ≠ .ok true) ∧
      refusals (sampleRegistered (sampleSettings "2" "1")) sampleEarlierGuesses ≠
        refusals ((sampleRegistered (sampleSettings "2" "1")).without sampleEmail) sampleEarlierGuesses :=
  ⟨sampleRegistration_selected, by decide +kernel, by decide +kernel⟩

end Sample

end MiniVault
