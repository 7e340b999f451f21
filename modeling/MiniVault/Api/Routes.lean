import MiniVault.Services.Ownership

/-!
# Requests over HTTP

`api/*_routes.py`: which operation a route calls, and for whom. A route of the services takes
its user from the session token of the request, and from nothing else that the request carries.

## The model

* `Route` — the routes that ask who the caller is, with what the request carries besides the
  credentials. What the schemas refuse does not get here.
* `HttpRequest` — a request to one of them, or to one that asks nobody.
* `Database.Issued` — a session was opened with the token, for an account with the email. It may
  have ended.

## What is proved

* `HttpRequest.exec_keepsIssued` — what was issued stays issued.
* `HttpRequest.exec_others` — a request changes what is a user's only with a token that was issued
  for that user.
* `acts_for_token` — in every interleaving, requests without such a token leave what the user has.
-/

namespace MiniVault

open Foundations

/-! ### Routes -/

/-- A route that asks who the caller is. -/
inductive Route where
  /-- `POST /v1/kv/entries`. -/
  | writeEntry (path : PyStr) (data : List (PyStr × Json)) (nonce : Nonce)
  /-- `GET /v1/kv/entries`. -/
  | readEntry (path : PyStr) (version : Option ℤ)
  /-- `GET /v1/kv/entries/versions`. -/
  | listEntryVersions (path : PyStr)
  /-- `DELETE /v1/kv/entries`. -/
  | deleteEntry (path : PyStr)
  /-- `POST /v1/transit/keys`. -/
  | createKey (keyName : PyStr) (coins : KeyCoins)
  /-- `POST /v1/transit/signing-keys`. -/
  | createSigningKey (keyName signingAlgorithm : PyStr) (coins : KeyCoins)
  /-- `GET /v1/transit/keys`. -/
  | listKeys
  /-- `POST /v1/transit/keys/{key_name}/rotate`. -/
  | rotateKey (keyName : PyStr) (coins : KeyCoins)
  /-- `POST /v1/transit/keys/{key_name}/revoke`. -/
  | revokeKey (keyName : PyStr)
  /-- `POST /v1/transit/encrypt`. -/
  | encrypt (keyName plaintextB64 : PyStr) (nonce : Nonce)
  /-- `POST /v1/transit/decrypt`. -/
  | decrypt (ciphertext : PyStr)
  /-- `POST /v1/transit/sign`. -/
  | sign (keyName messageB64 messageType signingAlgorithm : PyStr)
  /-- `POST /v1/transit/verify`. -/
  | verify (keyName messageB64 messageType signatureB64 signingAlgorithm : PyStr) (keyVersion : Option ℤ)
  /-- `GET /v1/audit/entries`. -/
  | listEntries (limit : ℤ)
  /-- `GET /v1/audit/verify`. -/
  | verifyChain
  /-- `POST /v1/auth/logout`. -/
  | logout

/-- The operation that a route calls, for the caller's email and token. None of them unlocks the vault. -/
def Route.op (email token : PyStr) : Route → AppOp
  | .writeEntry path data nonce => .service [] (.kv (.write email path data nonce))
  | .readEntry path version => .service [] (.kv (.read email path version))
  | .listEntryVersions path => .service [] (.kv (.versions email path))
  | .deleteEntry path => .service [] (.kv (.delete email path))
  | .createKey keyName coins => .service [] (.transit (.createKey email keyName coins))
  | .createSigningKey keyName signingAlgorithm coins =>
    .service [] (.transit (.createSigningKey email keyName signingAlgorithm coins))
  | .listKeys => .service [] (.transit (.listKeys email))
  | .rotateKey keyName coins => .service [] (.transit (.rotateKey email keyName coins))
  | .revokeKey keyName => .service [] (.transit (.deleteKey email keyName))
  | .encrypt keyName plaintextB64 nonce => .service [] (.transit (.encrypt email keyName plaintextB64 nonce))
  | .decrypt ciphertext => .service [] (.transit (.decrypt email ciphertext))
  | .sign keyName messageB64 messageType signingAlgorithm =>
    .service [] (.transit (.sign email keyName messageB64 messageType signingAlgorithm))
  | .verify keyName messageB64 messageType signatureB64 signingAlgorithm keyVersion =>
    .service [] (.transit (.verify email keyName messageB64 messageType signatureB64 signingAlgorithm keyVersion))
  | .listEntries limit => .listAudit email limit
  | .verifyChain => .verifyAudit
  | .logout => .auth (.logout token)

/-- Where the operation is made for somebody, it is made for the caller. -/
theorem Route.op_requester {email token owner : PyStr} {route : Route} (h : (route.op email token).requester = some owner) :
    owner = email := by
  cases route <;> first | exact (Option.some.inj h).symm | cases h

/-- A request. -/
inductive HttpRequest where
  /-- To a route that asks who the caller is, with the scheme and the credentials of the header. -/
  | authenticated (credentials : Option (PyStr × PyStr)) (route : Route)
  /-- `POST /v1/auth/register`. -/
  | register (email passphrase confirmPassphrase : PyStr) (salt : Bytes)
  /-- `POST /v1/auth/login`. -/
  | login (email passphrase : PyStr) (coins : AuthService.LoginCoins)
  /-- `/v1/vault`, or the process that restarts, or its environment that changes. -/
  | vault (op : VaultOp)
  /-- Time passes. -/
  | advance (time : ℕ)

/-- `current_user.email`: the column holds text. -/
def emailOf : Value → Except Exc PyStr
  | .str email => .ok email
  | _ => .error (.typeError "email")

section Http

variable [Platform]

/-- What is done for a request. -/
def HttpRequest.exec : HttpRequest → Act AppAnswer
  | .authenticated credentials route => do
    let user ← getCurrentUser credentials
    let email ← Prog.done (emailOf user.email)
    (route.op email user.token).answer
  | .register email passphrase confirmPassphrase salt =>
    (AppOp.auth (.register email passphrase confirmPassphrase salt)).answer
  | .login email passphrase coins => (AppOp.auth (.login email passphrase coins)).answer
  | .vault op => (AppOp.vault op).answer
  | .advance time => (AppOp.auth (.advance time)).answer

/-- The hash of the token that a request bears. -/
def HttpRequest.tokenHash : HttpRequest → Option PyStr
  | .authenticated (some (_, credentials)) _ => (hashToken (strip credentials)).toOption
  | _ => none

/-- The requests in the midst of each other. -/
def served (w : World) (rs : List HttpRequest) : Config World Label Exc AppAnswer := ⟨w, rs.map HttpRequest.exec⟩

/-! ### What was issued -/

/-- A session was opened with the token of this hash, for the account of the owner. -/
def Database.Issued (db : Database) (tokenHash owner : PyStr) : Prop :=
  ∃ s ∈ db.sessions.rows, ∃ r ∈ db.users.rows,
    s.tokenHash = .str tokenHash ∧ s.userId = .int r.id ∧ r.email = .str owner

instance (db : Database) (tokenHash owner : PyStr) : Decidable (db.Issued tokenHash owner) :=
  inferInstanceAs (Decidable (∃ s ∈ db.sessions.rows, ∃ r ∈ db.users.rows,
    s.tokenHash = .str tokenHash ∧ s.userId = .int r.id ∧ r.email = .str owner))

omit [Platform] in
/-- A session that is found was issued. -/
theorem Database.issued_of_selectActiveSession {db : Database} {tokenHash owner : PyStr} {s : Session} {r : User}
    (h : db.selectActiveSession tokenHash = some (s, r)) (hemail : r.email = .str owner) : db.Issued tokenHash owner := by
  obtain ⟨s', hs', hpair⟩ := List.mem_flatMap.mp (List.mem_of_mem_head? h)
  obtain ⟨r', hr', heq⟩ := List.mem_map.mp hpair
  obtain ⟨rfl, rfl⟩ := Prod.mk.inj heq
  obtain ⟨hsession, hhash⟩ := List.mem_filter.mp hs'
  obtain ⟨huser, hid⟩ := List.mem_filter.mp hr'
  rw [Bool.and_eq_true, Value.sqlEq_str, decide_eq_true_iff] at hhash
  rw [Value.sqlEq_int, decide_eq_true_iff] at hid
  exact ⟨s', hsession, r', huser, hhash.1, hid, hemail⟩

/-- What was issued stays issued. -/
def KeepsIssued {α : Type} (p : Act α) : Prop :=
  p.Sat (fun _ => True) fun _ w w' => ∀ tokenHash owner, w.db.Issued tokenHash owner → w'.db.Issued tokenHash owner

section KeepsIssued

variable {α β : Type}

omit [Platform] in
theorem KeepsIssued.bind {p : Act α} {f : α → Act β} (hp : KeepsIssued p) (hf : ∀ a, KeepsIssued (f a)) :
    KeepsIssued (p >>= f) :=
  Prog.Sat.bind hp hf

omit [Platform] in
/-- It is about two tables. -/
theorem Keeps.keepsIssued {p : Act α} (h : Keeps (fun w => (w.db.users, w.db.sessions)) p) : KeepsIssued p := by
  refine Prog.Sat.mono h (fun _ => id) fun _ w w' heq tokenHash owner hissued => ?_
  obtain ⟨husers, hsessions⟩ := Prod.mk.inj heq
  unfold Database.Issued
  rw [husers, hsessions]
  exact hissued

omit [Platform] in
/-- Accounts may be added and changed. -/
theorem LetsGrow.keepsIssued {p : Act α} (h : LetsGrow p) : KeepsIssued p := by
  refine Prog.Sat.mono h (fun _ => id) fun _ w w' hgrows tokenHash owner hissued => ?_
  obtain ⟨s, hs, r, hr, hhash, huser, hemail⟩ := hissued
  obtain ⟨r', hr', hid, hsame⟩ := hgrows.users r hr
  exact ⟨s, hgrows.sessions ▸ hs, r', hr', hhash, by rw [huser, hid], hsame.trans hemail⟩

omit [Platform] in
theorem KeepsIssued.connection {label : Label} {body : Act α} (hb : KeepsIssued body) :
    KeepsIssued (MiniVault.connection label body) := by
  refine Prog.Sat.atomic fun w _ tokenHash owner hissued => ?_
  have hrun := (Prog.run_sat (R := fun w w' : World => w.db.Issued tokenHash owner → w'.db.Issued tokenHash owner)
    (fun _ h => h) (fun _ _ _ h₁ h₂ h => h₂ (h₁ h)) hb (fun _ _ _ _ _ => trivial) (fun _ _ _ _ hG => hG tokenHash owner)
    (s := w) trivial).1 hissued
  rw [Prog.run_atomic]
  rcases hr : body.run w with ⟨e | a, w'⟩
  · exact hissued
  · rw [hr] at hrun
    exact hrun

omit [Platform] in
theorem KeepsIssued.execute {params : List Value} {f : Database → Except Exc (α × Database)}
    (h : ∀ db a db', f db = .ok (a, db') → ∀ tokenHash owner, db.Issued tokenHash owner → db'.Issued tokenHash owner) :
    KeepsIssued (MiniVault.execute params f) := by
  refine Prog.Sat.attempt (fun w a w' _ hw => ?_) fun _ _ _ _ => id
  rcases hb : bindAll params with e | u
  · simp [hb] at hw
  · rcases hf : f w.db with e | ⟨b, db⟩
    · simp [hb, hf] at hw
    · simp only [hb, hf, ok_bind] at hw
      obtain ⟨-, rfl⟩ := Prod.mk.inj (Except.ok.inj hw)
      exact h w.db b db hf

end KeepsIssued

namespace SessionRepository

omit [Platform] in
theorem create_keepsIssued (userId : ℤ) (tokenHash expiresAt : PyStr) : KeepsIssued (create userId tokenHash expiresAt) := by
  refine .bind Keeps.now.keepsIssued fun now => .connection (.execute fun db a db' h t owner hissued => ?_)
  cases hinsert : db.insertSession userId tokenHash expiresAt now with
  | error e => simp [hinsert, Except.map] at h
  | ok db₁ =>
    simp only [hinsert, Except.map, Except.ok.injEq, Prod.mk.injEq, true_and] at h
    obtain ⟨-, id, rfl⟩ := Database.insertSession_eq_ok hinsert
    obtain ⟨s, hs, hrest⟩ := hissued
    rw [← h]
    exact ⟨s, List.mem_append_left _ hs, hrest⟩

omit [Platform] in
/-- A session that is revoked was issued. -/
theorem revoke_keepsIssued (tokenHash : PyStr) : KeepsIssued (revoke tokenHash) := by
  refine .bind Keeps.now.keepsIssued fun now => .connection (.bind (.execute fun db a db' h t owner hissued => ?_)
    fun _ => Prog.Sat.pure _)
  obtain ⟨-, rfl⟩ := Prod.mk.inj (Except.ok.inj h)
  obtain ⟨s, hs, r, hr, hhash, huser, hemail⟩ := hissued
  refine ⟨_, List.mem_map_of_mem hs, r, hr, ?_, ?_, hemail⟩
  · split_ifs <;> exact hhash
  · split_ifs <;> exact huser

end SessionRepository

theorem AuthService.login_keepsIssued (email passphrase : PyStr) (coins : LoginCoins) :
    KeepsIssued (login email passphrase coins) := by
  refine .bind (UserRepository.getByEmail_letsGrow _).keepsIssued fun user => ?_
  cases user with
  | none =>
    exact .bind (dummyHash_letsGrow _).keepsIssued fun hash => .bind (LetsGrow.look _ _).keepsIssued fun _ =>
      Prog.Sat.throw _
  | some user =>
    refine .bind (passLockout_letsGrow _ _).keepsIssued fun user => .bind (LetsGrow.look _ _).keepsIssued fun right =>
      Prog.Sat.ite (fun _ => ?_) fun _ => ?_
    · exact KeepsIssued.bind (registerFailedAttempt_letsGrow _).keepsIssued fun _ => Prog.Sat.throw _
    · refine KeepsIssued.bind (UserRepository.resetLoginFailures_letsGrow _ _).keepsIssued fun _ => .bind ?_ fun expiresAt =>
        .bind (Prog.Sat.done _) fun tokenHash => .bind (SessionRepository.create_keepsIssued _ _ _) fun _ => Prog.Sat.pure _
      exact .bind (LetsGrow.look _ _).keepsIssued fun _ => .bind (LetsGrow.look _ _).keepsIssued fun _ => Prog.Sat.done _

/-- An operation of the services leaves the accounts and the sessions. -/
theorem ServiceOp.exec_keepsAccounts (passphrase : PyStr) (op : ServiceOp) :
    Keeps (fun w => (w.db.users, w.db.sessions)) (op.exec passphrase) := by
  refine op.exec_aside (f := fun db => (db.users, db.sessions)) (fun h => ?_) (fun h => ?_)
    (fun _ _ => (KvService.authorize_keeps _ _).aside fun _ => rfl)
    (fun _ _ => (TransitService.ownedKey_keeps _ _).aside fun _ => rfl) passphrase
  · simp only [Database.besideRecords, Database.mk.injEq] at h
    simp only [h]
  · simp only [Database.besideKeys, Database.mk.injEq] at h
    simp only [h]

/-- **What was issued stays issued**, whatever an operation does. -/
theorem AppOp.exec_keepsIssued (op : AppOp) : KeepsIssued op.exec := by
  cases op with
  | vault op =>
    exact .bind (Keeps.besideDb (f := fun db => (db.users, db.sessions)) op.exec_keepsDb).keepsIssued fun _ => Prog.Sat.pure _
  | service passphrase op => exact .bind (op.exec_keepsAccounts passphrase).keepsIssued fun _ => Prog.Sat.pure _
  | auth op =>
    refine .bind ?_ fun _ => Prog.Sat.pure _
    cases op with
    | register email passphrase confirmPassphrase salt =>
      exact .bind (AuthService.register_letsGrow _ _ _ _).keepsIssued fun _ => Prog.Sat.pure _
    | login email passphrase coins => exact .bind (AuthService.login_keepsIssued _ _ _) fun _ => Prog.Sat.pure _
    | logout token =>
      exact .bind (.bind (Prog.Sat.done _) fun _ => .bind (SessionRepository.revoke_keepsIssued _) fun _ => Prog.Sat.pure _)
        fun _ => Prog.Sat.pure _
    | advance time => exact .bind (Prog.Sat.change fun _ _ _ _ => id) fun _ => Prog.Sat.pure _
  | currentUser credentials => exact .bind (getCurrentUser_keeps credentials).keepsIssued fun _ => Prog.Sat.pure _
  | listAudit requesterEmail limit => exact .bind (Keeps.keepsIssued TransitService.reads_keep) fun _ => Prog.Sat.pure _
  | verifyAudit =>
    exact .bind (.bind (Keeps.keepsIssued TransitService.reads_keep) fun rows => .bind
      (.bind (Keeps.keepsIssued TransitService.reads_keep) fun row => Prog.Sat.pure _) fun stored => Prog.Sat.done _)
        fun _ => Prog.Sat.pure _

/-! ### What a request does -/

/-- A request asks who its caller is, or has an operation made for nobody. -/
theorem HttpRequest.sat_of {I : World → Prop} {G : Label → World → World → Prop} {r : HttpRequest}
    (hcaller : ∀ credentials route, r = .authenticated credentials route → r.exec.Sat I G)
    (hnobody : ∀ op : AppOp, op.requester = none → op.answer.Sat I G) : r.exec.Sat I G := by
  cases r with
  | authenticated credentials route => exact hcaller credentials route rfl
  | register email passphrase confirmPassphrase salt =>
    exact hnobody (.auth (.register email passphrase confirmPassphrase salt)) rfl
  | login email passphrase coins => exact hnobody (.auth (.login email passphrase coins)) rfl
  | vault op => exact hnobody (.vault op) rfl
  | advance time => exact hnobody (.auth (.advance time)) rfl

/-- What every operation does, and what holds where the database stays, every request does. -/
theorem HttpRequest.exec_sat {G : Label → World → World → Prop} (hop : ∀ op : AppOp, op.exec.Sat (fun _ => True) G)
    (hdb : ∀ l w w', w'.db = w.db → G l w w') (r : HttpRequest) : r.exec.Sat (fun _ => True) G := by
  have hanswer : ∀ op : AppOp, op.answer.Sat (fun _ => True) G := fun op => Prog.Sat.of_bind (op.exec_eq_answer ▸ hop op)
  refine HttpRequest.sat_of (fun credentials route heq => ?_) fun op _ => hanswer op
  rw [heq]
  exact .bind ((getCurrentUser_keeps (f := World.db) credentials).mono (fun _ => id) hdb) fun user => .bind (.done _)
    fun email => hanswer _

theorem HttpRequest.exec_keepsIssued (r : HttpRequest) : KeepsIssued r.exec :=
  HttpRequest.exec_sat (fun op => op.exec_keepsIssued) (fun _ _ _ heq _ _ h => heq ▸ h) r

/-- The tables stay in order. -/
theorem HttpRequest.exec_ordered (r : HttpRequest) : r.exec.Sat (fun _ => True) fun _ w w' =>
    (w.db.KvSound → w'.db.KvSound) ∧ (KeysFit w.db → KeysFit w'.db) :=
  HttpRequest.exec_sat (fun op => op.exec_guarantees.mono (fun _ => id) fun _ _ _ h => h.1)
    (fun _ _ _ heq => ⟨fun h => heq ▸ h, fun h => heq ▸ h⟩) r

/-- **Who a token is of**: somebody it was issued for. -/
theorem getCurrentUser_yields {u : PyStr} {credentials : Option (PyStr × PyStr)} {route : Route} :
    (getCurrentUser credentials).Yields
      (fun w => ∀ t ∈ (HttpRequest.authenticated credentials route).tokenHash, ¬ w.db.Issued t u)
      fun user => user.email ≠ .str u := by
  cases credentials with
  | none => exact .throw _
  | some credentials =>
    obtain ⟨scheme, credentials⟩ := credentials
    refine .ite (fun _ => .throw _) fun _ => .ite (fun _ => .throw _) fun _ =>
      .bind (P := fun t => hashToken (strip credentials) = .ok t) (.done fun _ h => h) fun tokenHash hhash =>
        .bind (P := fun found => ∀ s r, found = some (s, r) → r.email ≠ .str u)
          (.atom fun w hw => .done fun found hrun => ?_) fun found hfound => ?_
    · intro s r hsome hemail
      have hselect := (run_query_eq_ok.mp (Prod.ext hrun rfl)).2.2.1
      refine hw tokenHash (by rw [HttpRequest.tokenHash, hhash]; rfl) (Database.issued_of_selectActiveSession (s := s) ?_ hemail)
      exact hselect.trans hsome
    · cases found with
      | none => exact .throw _
      | some found =>
        obtain ⟨s, r⟩ := found
        exact .bind (.any _) fun _ _ => .bind (.any _) fun _ _ => .ite (fun _ => .throw _) fun _ => .pure (hfound s r rfl)

/-- **A request changes what is a user's only with a token that was issued for that user.** -/
theorem HttpRequest.exec_others (u : PyStr) (r : HttpRequest) :
    r.exec.Sat (fun w => ∀ t ∈ r.tokenHash, ¬ w.db.Issued t u) fun _ w w' =>
      w'.db.besideAccounts = w.db.besideAccounts ∨ ∃ owner, owner ≠ u ∧ Change owner w.db w'.db := by
  have hanswer : ∀ op : AppOp, (∀ owner, op.requester = some owner → owner ≠ u) →
      op.answer.Sat (fun w => ∀ t ∈ r.tokenHash, ¬ w.db.Issued t u) fun _ w w' =>
        w'.db.besideAccounts = w.db.besideAccounts ∨ ∃ owner, owner ≠ u ∧ Change owner w.db w'.db := by
    intro op hne
    have hexec := op.exec_guarantees
    rw [op.exec_eq_answer] at hexec
    refine hexec.of_bind.mono (fun _ _ => trivial) fun _ w w' h => h.2.imp_right ?_
    rintro ⟨owner, howner, hchange⟩
    exact ⟨owner, hne owner howner, hchange⟩
  refine HttpRequest.sat_of (fun credentials route hr => ?_) fun op hnone => hanswer op fun owner howner => by
    rw [hnone] at howner
    cases howner
  subst hr
  refine Prog.Sat.bind_yields ((getCurrentUser_keeps (f := World.db) credentials).mono (fun _ _ => trivial) fun _ w w' h =>
    .inl (congrArg Database.besideAccounts h)) getCurrentUser_yields fun user huser => .bind_done fun email hemail => ?_
  refine hanswer _ fun owner howner heq => huser ?_
  rw [← heq, Route.op_requester howner]
  cases hvalue : user.email with
  | str e =>
    rw [hvalue] at hemail
    rw [Except.ok.inj hemail]
  | _ =>
    rw [hvalue] at hemail
    cases hemail

/-! ### Interleavings -/

/-- The programs are those of the requests. -/
theorem served_procs {w : World} {rs : List HttpRequest} {x : ℕ} {p : Act AppAnswer}
    (hp : (served w rs).procs[x]? = some p) : ∃ r, rs[x]? = some r ∧ r.exec = p := by
  simpa only [served, List.getElem?_map, Option.map_eq_some_iff] using hp

/-- What was issued stays issued while the requests run on. -/
theorem served_issued {w : World} {rs : List HttpRequest} {front : List ℕ} {tokenHash owner : PyStr}
    (h : ((served w rs).exec front).state.db.Issued tokenHash owner) (back : List ℕ) :
    ((served w rs).exec (front ++ back)).state.db.Issued tokenHash owner := by
  rw [Config.exec_append]
  refine exec_preserves (J := fun db => db.Issued tokenHash owner) (fun p hp => ?_) h back
  obtain ⟨x, hx⟩ := List.mem_iff_getElem?.mp hp
  refine Config.exec_sat (G := fun _ _ (w w' : World) => w.db.Issued tokenHash owner → w'.db.Issued tokenHash owner)
    (fun y q hq => ?_) front x p hx
  obtain ⟨r, -, rfl⟩ := served_procs hq
  exact r.exec_keepsIssued.mono (fun _ => id) fun _ _ _ h => h tokenHash owner

/-- The tables are in order, wherever the requests have got to. -/
theorem served_ordered (environ : PyStr → Option PyStr) (rs : List HttpRequest) (sched : List ℕ) :
    ((served (.fresh environ) rs).exec sched).state.db.KvSound ∧
      KeysFit ((served (.fresh environ) rs).exec sched).state.db := by
  refine exec_preserves (J := fun db => db.KvSound ∧ KeysFit db) (fun p hp => ?_)
    ⟨Database.KvSound.fresh, KeysFit.fresh⟩ sched
  obtain ⟨r, -, rfl⟩ := List.mem_map.mp hp
  exact r.exec_ordered.mono (fun _ => id) fun _ _ _ h => And.imp h.1 h.2

/-- **The services act for whom the token was issued**: in every interleaving of requests, turns of those that bear no
token that is issued for a user, up to the end, leave every record and key of that user with all versions, whatever
else the requests carry. -/
theorem acts_for_token (u : PyStr) (environ : PyStr → Option PyStr) (rs : List HttpRequest) (before after : List ℕ)
    (hothers : ∀ x ∈ after, ∀ r ∈ rs[x]?, ∀ t ∈ r.tokenHash,
      ¬ ((served (.fresh environ) rs).exec (before ++ after)).state.db.Issued t u) :
    SameStores u ((served (.fresh environ) rs).exec before).state.db
      ((served (.fresh environ) rs).exec (before ++ after)).state.db := by
  -- a token that is not issued at the end was not issued before
  have hnever : ∀ x ∈ after, ∀ front back, before ++ after = front ++ back → ∀ r ∈ rs[x]?, ∀ t ∈ r.tokenHash,
      ¬ ((served (.fresh environ) rs).exec front).state.db.Issued t u := by
    intro x hx front back heq r hr t ht hissued
    apply hothers x hx r hr t ht
    rw [heq]
    exact served_issued hissued back
  have hsat : ∀ (x : ℕ) (p : Act AppAnswer), (served (.fresh environ) rs).procs[x]? = some p →
      p.Sat (fun w => ∀ r : HttpRequest, r ∈ rs[x]? → ∀ t ∈ r.tokenHash, ¬ w.db.Issued t u) fun _ w w' =>
        (w'.db.besideAccounts = w.db.besideAccounts ∨ ∃ owner, owner ≠ u ∧ Change owner w.db w'.db) ∧
          ((w.db.KvSound → w'.db.KvSound) ∧ (KeysFit w.db → KeysFit w'.db)) := by
    intro x p hp
    obtain ⟨r, hr, rfl⟩ := served_procs hp
    exact ((r.exec_others u).both r.exec_ordered).mono (fun w hw => ⟨hw r hr, trivial⟩) fun _ _ _ h => h
  obtain ⟨hsound, hfit⟩ := served_ordered environ rs before
  rw [Config.exec_append]
  refine (Config.exec_turns (J := fun w : World => w.db.KvSound ∧ KeysFit w.db ∧
    SameStores u ((served (.fresh environ) rs).exec before).state.db w.db)
    (fun x hx => Config.exec_sat_at (hsat x) fun front back heq => hnever x hx front (back ++ after) (by
      rw [heq, List.append_assoc])) (fun x hx front back heq => ?_) ?_ ⟨hsound, hfit, .refl u _⟩).2.2
  · rw [← Config.exec_append]
    exact hnever x hx (before ++ front) back (by rw [heq, List.append_assoc])
  · rintro x hx l w w' ⟨hkv, hkeys, hsame⟩ ⟨hstep, hkv', hkeys'⟩
    refine ⟨hkv' hkv, hkeys' hkeys, hsame.trans ?_⟩
    rcases hstep with hbeside | ⟨owner, hne, hchange⟩
    · exact .of_besideAccounts hbeside
    · exact hchange.others hkv hkeys.sound hne

end Http

/-! ### An example -/

section Sample

attribute [local instance] samplePlatform

attribute [local irreducible] Config.exec

/-- A user registers, logs in and writes; then a token is borne that nobody was given, and none. -/
def sampleHttpRequests : List HttpRequest :=
  [.vault (.initializeVault samplePassphrase sampleCoins), .vault (.unlock samplePassphrase),
    .register sampleOwner samplePassphrase samplePassphrase [], .login sampleOwner samplePassphrase ⟨py "first", []⟩,
    .authenticated (some (py "Bearer", py "first")) (.writeEntry samplePath [] (sampleNonce 1)),
    .authenticated (some (py "Bearer", py "second")) (.deleteEntry samplePath),
    .authenticated none (.deleteEntry samplePath)]

/-- The turns up to the answer to the write. -/
def sampleServed : List ℕ :=
  [0, 0, 0, 0, 0, 0, 0, 0, 1, 1, 1, 1, 1, 1, 1, 2, 2, 2, 2, 3, 3, 3, 3, 3, 3, 3, 3, 4, 4, 4, 4, 4, 4]

/-- What was written stays. -/
theorem acts_for_token_sample : SameStores sampleOwner
    ((served (.fresh fun _ => none) sampleHttpRequests).exec sampleServed).state.db
    ((served (.fresh fun _ => none) sampleHttpRequests).exec (sampleServed ++ [5, 6, 5, 6])).state.db := by
  have hunissued : ∀ x ∈ [5, 6, 5, 6], ∀ r ∈ sampleHttpRequests[x]?, ∀ t ∈ r.tokenHash,
      ¬ ((served (.fresh fun _ => none) sampleHttpRequests).exec (sampleServed ++ [5, 6, 5, 6])).state.db.Issued t
        sampleOwner := by
    decide +kernel
  exact acts_for_token sampleOwner (fun _ => none) sampleHttpRequests sampleServed [5, 6, 5, 6] hunissued

end Sample

end MiniVault
