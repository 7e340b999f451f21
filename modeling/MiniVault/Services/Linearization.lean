import MiniVault.Foundations.Linearization
import MiniVault.Kv.Slots
import MiniVault.Services.Runs

/-!
# Key-value requests at once

Requests to the key-value store that run at the same time, on any paths and for any users,
while the clock moves and the vault stays unlocked. Each of them touches the database in one
transaction only; before it the request looks at the path, the key and the clock, and after it
only its answer is left.

## The model

* `ClockFree`, `atTime` — programs that do not look at the clock, and programs run while the
  clock shows a given time.
* `TakesEffect` — a program that takes effect in one step, as if it were run alone while the
  clock shows some time of the run.
* `Moment` — a request in the order of a run: its time, and what it answered.

## What is proved

* `KvOp.exec_takesEffect` — every request is such a program.
* `kv_linearizable` — so any interleaving of requests has an order: run one after another in it,
  each at its time, they give the same answers and leave the same state.
* `concurrent_writes_kept` — and no write is lost: what a request was told to have written is
  read back under the number it was told, whatever else was running.
-/

namespace MiniVault

open Foundations

section Linearization

/-! ### The clock -/

/-- The program does not look at the clock, and leaves it. -/
def ClockFree {α : Type} (p : Act α) : Prop :=
  ∀ (w : World) time, p.run { w with clock := time } = ((p.run w).1, { (p.run w).2 with clock := time })

/-- The program, run while the clock shows `time`; afterwards the clock shows what it did before. -/
def atTime {α : Type} (p : Act α) (time : ℕ) : Behaviour World Exc α := fun w =>
  ((p.run { w with clock := time }).1, { (p.run { w with clock := time }).2 with clock := w.clock })

section ClockFree

variable {α β : Type}

theorem ClockFree.done (r : Except Exc α) : ClockFree (Prog.done r) := fun _ _ => rfl

theorem ClockFree.bind {p : Act α} {f : α → Act β} (hp : ClockFree p) (hf : ∀ a, ClockFree (f a)) :
    ClockFree (p >>= f) := by
  intro w time
  simp only [Prog.run_bind, hp w time]
  rcases p.run w with ⟨e | a, w'⟩
  · rfl
  · exact hf a w' time

theorem ClockFree.query (params : List Value) {cells : α → List Value} (f : Database → α) :
    ClockFree (query params cells f) := fun _ _ => rfl

theorem ClockFree.execute (params : List Value) (f : Database → Except Exc (α × Database)) :
    ClockFree (execute params f) := by
  intro w time
  simp only [run_execute]
  rcases bindAll params with e | u
  · rfl
  · rcases f w.db with e | ⟨a, db⟩ <;> rfl

theorem ClockFree.connection {label : Label} {body : Act α} (hb : ClockFree body) :
    ClockFree (connection label body) := by
  intro w time
  simp only [run_connection, hb w time]
  rcases body.run w with ⟨e | a, w'⟩ <;> rfl

/-- At any time, such a program does the same. -/
theorem ClockFree.atTime_eq {p : Act α} (hp : ClockFree p) (time : ℕ) (w : World) : atTime p time w = p.run w := by
  have hsame : p.run w = ((p.run w).1, { (p.run w).2 with clock := w.clock }) := hp w w.clock
  simp only [atTime, hp w time]
  exact hsame.symm

/-- A program that begins with a look at the clock. -/
theorem atTime_now (f : PyStr → Act α) (time : ℕ) (w : World) :
    atTime (now >>= f) time w = atTime (f (isoformat time)) time w := rfl

variable [Platform]

theorem ClockFree.encryptAesGcm (key plaintext associatedData : Bytes) (nonce : Nonce) :
    ClockFree (encryptAesGcm key plaintext associatedData nonce) := by
  unfold MiniVault.encryptAesGcm
  split
  · exact .done _
  · exact .bind (.done _) fun encrypted => .bind (fun _ _ => rfl) fun _ => .done _

theorem AuditRepository.append_clockFree (o : Occurrence) (now : PyStr) : ClockFree (append o now) :=
  .bind (.query _ _) fun _ => .bind (.done _) fun _ => .bind (.done _) fun _ => .bind (.execute _ _) fun _ =>
    .execute _ _

theorem KvService.appendBody_clockFree (owner path now : PyStr) (dek : Key) (plaintext : Bytes) (nonce : Nonce) :
    ClockFree (appendBody owner path now (encryptFor dek plaintext owner path nonce)) := by
  refine .bind (.bind (.query _ _) fun record => ?_) fun _ => .bind (.bind (.done _) fun _ =>
    .bind (.encryptAesGcm _ _ _ _) fun _ => .done _) fun _ => .bind (.execute _ _) fun _ => .done _
  cases record with
  | none => exact .bind (.execute _ _) fun _ => .done _
  | some record => exact .bind (.done _) fun _ => .bind (.execute _ _) fun _ => .done _

end ClockFree

/-! ### Programs that take effect in one step -/

/-- The vault is unlocked with the key, and the clock shows one of the times. -/
def Unlocked (dek : Key) (shown : ℕ → Prop) (w : World) : Prop := w.dek = some dek ∧ shown w.clock

/-- What a program does in one step, while the vault is unlocked: it is run alone, at one of the times. -/
def Instant {α : Type} (dek : Key) (shown : ℕ → Prop) (p : Act α) (b : Behaviour World Exc α) : Prop :=
  ∃ time, shown time ∧ ∀ w, Unlocked dek shown w → b w = atTime p time w

/-- The program takes effect in one step, and leaves the key in memory and the clock. -/
structure TakesEffect {α : Type} (dek : Key) (shown : ℕ → Prop) (p : Act α) : Prop where
  /-- It leaves the key and the clock. -/
  keeps : Keeps (fun w => (w.dek, w.clock)) p
  /-- It takes effect in one step. -/
  acts : p.ActsAs (Unlocked dek shown) (Instant dek shown p)

/-- The program only looks, and what it answers is known from the key. -/
def Settles {α : Type} (dek : Key) (shown : ℕ → Prop) (p : Act α) : Prop :=
  ∃ r, p.Settled (Unlocked dek shown) r

section TakesEffect

variable {α β : Type} {dek : Key} {shown : ℕ → Prop}

theorem Settles.done (r : Except Exc α) : Settles dek shown (Prog.done r) := ⟨r, .done⟩

theorem Settles.getDek : Settles dek shown getDek := by
  refine ⟨.ok dek, .look fun w hw => ?_⟩
  rw [hw.1]

theorem Settles.bind {p : Act α} {f : α → Act β} (hp : Settles dek shown p) (hf : ∀ a, Settles dek shown (f a)) :
    Settles dek shown (p >>= f) := by
  obtain ⟨r, hr⟩ := hp
  cases r with
  | ok a =>
    obtain ⟨r', hr'⟩ := hf a
    exact ⟨r', hr.bind hr'⟩
  | error e => exact ⟨.error e, hr.bind_error⟩

theorem Settles.mapExc {caught : Exc → Bool} {e : Exc} {p : Act α} (hp : Settles dek shown p) :
    Settles dek shown (mapExc caught e p) := by
  obtain ⟨r, hr⟩ := hp
  refine ⟨_, hr.handle (g := fun x => if caught x then e else x) fun x => ?_⟩
  split <;> rfl

/-- A program that is settled keeps everything that the states it is settled in have in common. -/
theorem atTime_settled {p : Act α} {r : Except Exc α} (h : p.Settled (Unlocked dek shown) r) {time : ℕ}
    (htime : shown time) {w : World} (hw : Unlocked dek shown w) : atTime p time w = (r, w) := by
  have hrun : p.run { w with clock := time } = (r, { w with clock := time }) := h.run ⟨hw.1, htime⟩
  simp only [atTime, hrun]

/-- What only looks may come before. -/
theorem atTime_bind {p : Act α} {f : α → Act β} {a : α} (h : p.Settled (Unlocked dek shown) (.ok a)) {time : ℕ}
    (htime : shown time) {w : World} (hw : Unlocked dek shown w) : atTime (p >>= f) time w = atTime (f a) time w := by
  have hrun : p.run { w with clock := time } = (.ok a, { w with clock := time }) := h.run ⟨hw.1, htime⟩
  simp only [atTime, Prog.run_bind_ok hrun]

/-- And what only looks may come after. -/
theorem atTime_andThen {p : Act α} {f : α → Act β} {g : α → Except Exc β}
    (hkeeps : Keeps (fun w => (w.dek, w.clock)) p) (hf : ∀ a, (f a).Settled (Unlocked dek shown) (g a)) {time : ℕ}
    (htime : shown time) {w : World} (hw : Unlocked dek shown w) :
    atTime (p >>= f) time w = Behaviour.andThen (atTime p time) g w := by
  have hafter := hkeeps.run { w with clock := time }
  simp only [Prod.mk.injEq] at hafter
  simp only [atTime, Behaviour.andThen, Prog.run_bind]
  rcases hrun : p.run { w with clock := time } with ⟨e | a, w'⟩
  · rfl
  · rw [hrun] at hafter
    have hw' : Unlocked dek shown w' := ⟨hafter.1.trans hw.1, hafter.2 ▸ htime⟩
    simp only [(hf a).run hw']
    rfl

/-- A program that only looks takes effect at any of its steps. -/
theorem TakesEffect.settled {p : Act α} (hp : Settles dek shown p) (hkeeps : Keeps (fun w => (w.dek, w.clock)) p)
    (hshown : ∃ time, shown time) : TakesEffect dek shown p := by
  obtain ⟨r, hr⟩ := hp
  obtain ⟨time, htime⟩ := hshown
  exact ⟨hkeeps, .settled hr (fun w => (r, w)) ⟨time, htime, fun w hw => (atTime_settled hr htime hw).symm⟩
    fun w _ => rfl⟩

/-- A look comes first, and then a program that takes effect. -/
theorem TakesEffect.bind {p : Act α} {f : α → Act β} (hp : Settles dek shown p)
    (hkeeps : Keeps (fun w => (w.dek, w.clock)) p) (hf : ∀ a, TakesEffect dek shown (f a))
    (hshown : ∃ time, shown time) : TakesEffect dek shown (p >>= f) := by
  obtain ⟨r, hr⟩ := hp
  cases r with
  | error e => exact .settled ⟨.error e, hr.bind_error⟩ (.bind hkeeps fun a => (hf a).keeps) hshown
  | ok a =>
    refine ⟨.bind hkeeps fun a => (hf a).keeps, .bind_idle hr ((hf a).acts.mono ?_)⟩
    rintro b ⟨time, htime, hb⟩
    exact ⟨time, htime, fun w hw => (hb w hw).trans (atTime_bind hr htime hw).symm⟩

/-- A look at the clock comes first, and then a transaction for the time it showed. -/
theorem TakesEffect.now {label : Label} {body : PyStr → Act α} (hbody : ∀ now, ClockFree (body now))
    (hkeeps : ∀ now, Keeps (fun w => (w.dek, w.clock)) (body now)) :
    TakesEffect dek shown (now >>= fun now => connection label (body now)) := by
  refine ⟨.bind .now fun now => .connection (hkeeps now) fun _ _ h => h, .idle (fun _ _ => rfl) fun w hw => ?_⟩
  apply (Prog.ActsAs.atomic label _ (body (isoformat w.clock))).mono
  rintro b rfl
  refine ⟨w.clock, hw.2, fun w' _ => ?_⟩
  rw [atTime_now]
  exact ((hbody _).connection.atTime_eq _ w').symm

/-- A transaction. -/
theorem TakesEffect.connection {label : Label} {body : Act α} (hbody : ClockFree body)
    (hkeeps : Keeps (fun w => (w.dek, w.clock)) body) (hshown : ∃ time, shown time) :
    TakesEffect dek shown (connection label body) := by
  refine ⟨.connection hkeeps fun _ _ h => h, (Prog.ActsAs.atomic label _ body).mono ?_⟩
  obtain ⟨time, htime⟩ := hshown
  rintro b rfl
  exact ⟨time, htime, fun w _ => (hbody.connection.atTime_eq _ w).symm⟩

/-- A program that takes effect, and then a look. -/
theorem TakesEffect.andThen {p : Act α} {f : α → Act β} (hp : TakesEffect dek shown p)
    (hf : ∀ a, Settles dek shown (f a)) (hkeeps : ∀ a, Keeps (fun w => (w.dek, w.clock)) (f a)) :
    TakesEffect dek shown (p >>= f) := by
  choose g hg using hf
  refine ⟨.bind hp.keeps hkeeps, (hp.acts.andThen hg).mono ?_⟩
  rintro b' ⟨b, ⟨time, htime, hb⟩, rfl⟩
  refine ⟨time, htime, fun w hw => ?_⟩
  rw [atTime_andThen hp.keeps hg htime hw]
  simp only [Behaviour.andThen, hb w hw]

end TakesEffect

/-! ### The requests -/

section Requests

variable [Platform] {dek : Key} {shown : ℕ → Prop}

/-- Authorization takes effect where it refuses; where it does not, it is what follows that does. -/
theorem KvService.takesEffect_authorize {α : Type} {owner path : PyStr} {k : Unit → Act α}
    (hk : ∀ u, TakesEffect dek shown (k u)) : TakesEffect dek shown (authorize owner path >>= k) := by
  by_cases hown : (extractOwnerEmailFromPath path).toOption = some owner
  · have hauth : authorize owner path = pure () := by
      simp only [authorize, hown, ne_eq, not_true_eq_false, ↓reduceIte]
    rw [hauth]
    exact hk ()
  · have hauth : authorize owner path =
        AuditRepository.logDeniedAccess owner (py "kv_path") path >>= fun _ => throw .permissionDeniedError := by
      simp only [authorize, ne_eq, hown, not_false_eq_true, ↓reduceIte]
    rw [hauth, Prog.bind_assoc]
    exact .andThen (.now (AuditRepository.append_clockFree _)
      fun now => (AuditRepository.append_keeps _ now).aside fun _ => rfl) (fun _ => .done _) fun _ => .done _

theorem KvService.write_takesEffect (owner path : PyStr) (data : Data) (nonce : Nonce) (hshown : ∃ time, shown time) :
    TakesEffect dek shown (write owner path data nonce) := by
  refine takesEffect_authorize fun _ => .bind .getDek .getDek (fun _ => .bind (.done _) (.done _) (fun plaintext =>
    .bind .getDek .getDek (fun dek => .now (fun now => appendBody_clockFree owner path now dek plaintext nonce)
      fun now => ?_) hshown) hshown) hshown
  exact appendBody_keeps (fun v => encryptFor_keeps (fun _ _ => rfl) dek plaintext owner path nonce v) fun _ _ => rfl

theorem KvService.read_takesEffect (owner path : PyStr) (version : Option ℤ) (hshown : ∃ time, shown time) :
    TakesEffect dek shown (read owner path version) := by
  have hfound : ∀ requested, TakesEffect dek shown (KvRepository.getVersion owner path requested) := by
    intro requested
    cases requested with
    | none => exact .connection (.query _ _) (.query _ _) hshown
    | some v => exact .connection (.query _ _) (.query _ _) hshown
  refine takesEffect_authorize fun _ => .bind (.done _) (.done _) (fun requested => .bind .getDek .getDek (fun _ =>
    .andThen (hfound requested) (fun found => ?_) fun found => ?_) hshown) hshown
  · rcases found with - | ⟨row, record⟩
    · exact .done _
    · refine .bind (.mapExc (.bind .getDek fun _ => .done _)) fun decoded => ?_
      cases decoded with
      | obj data => exact .bind (.done _) fun _ => .bind (.done _) fun _ => .done _
      | _ => exact .done _
  · rcases found with - | ⟨row, record⟩
    · exact .throw _
    · refine .bind (.mapExc (.bind .getDek fun _ => .done _)) fun decoded => ?_
      cases decoded with
      | obj data => exact .bind (.done _) fun _ => .bind (.done _) fun _ => .pure _
      | _ => exact .throw _

theorem KvService.versions_takesEffect (owner path : PyStr) (hshown : ∃ time, shown time) :
    TakesEffect dek shown (versions owner path) := by
  refine takesEffect_authorize fun _ => .bind .getDek .getDek (fun _ =>
    .andThen (.connection (.query _ _) (.query _ _) hshown) (fun rows => ?_) fun rows => ?_) hshown
  · cases rows.getLast? with
    | none => exact .done _
    | some last => exact .bind (.done _) fun _ => .bind (.done _) fun _ => .done _
  · cases rows.getLast? with
    | none => exact .throw _
    | some last => exact .bind (.done _) fun _ => .bind (.done _) fun _ => .pure _

theorem KvService.delete_takesEffect (owner path : PyStr) (hshown : ∃ time, shown time) :
    TakesEffect dek shown (delete owner path) := by
  refine takesEffect_authorize fun _ => .bind .getDek .getDek (fun _ =>
    .andThen (.connection (.bind (.execute _ _) fun _ => .done _)
      (.bind (.execute fun _ _ _ _ => rfl) fun _ => .pure _) hshown) (fun deleted => ?_) fun deleted => ?_) hshown
  · cases deleted <;> exact .done _
  · cases deleted
    · exact .throw _
    · exact .pure _

/-- **A request takes effect in one step.** -/
theorem KvOp.exec_takesEffect (passphrase : PyStr) {op : KvOp} (h : op.target ≠ none) (hshown : ∃ time, shown time) :
    TakesEffect dek shown (op.exec passphrase) := by
  cases op with
  | write owner path data nonce =>
    exact .andThen (KvService.write_takesEffect owner path data nonce hshown) (fun _ => .done _) fun _ => .pure _
  | read owner path version =>
    exact .andThen (KvService.read_takesEffect owner path version hshown) (fun _ => .done _) fun _ => .pure _
  | versions owner path =>
    exact .andThen (KvService.versions_takesEffect owner path hshown) (fun _ => .done _) fun _ => .pure _
  | delete owner path =>
    exact .andThen (KvService.delete_takesEffect owner path hshown) (fun _ => .done _) fun _ => .pure _
  | lock | unlock | restart | tick => exact absurd rfl h

end Requests

/-! ### The order of a run -/

/-- A request to a path, or a movement of the clock. -/
def KvOp.Moves (op : KvOp) : Prop := op.target ≠ none ∨ ∃ time, op = .tick time

/-- The times the clock shows in a run. -/
def Shown (start : World) (ops : List KvOp) (time : ℕ) : Prop := time = start.clock ∨ KvOp.tick time ∈ ops

/-- A request in the order of a run. -/
structure Moment where
  /-- Which request it is. -/
  index : ℕ
  /-- The request. -/
  op : KvOp
  /-- The time it takes effect for. -/
  time : ℕ
  /-- What it answers. -/
  answer : Except Exc KvAnswer

/-- The request alone, at its time. -/
def Moment.ops (m : Moment) : List KvOp := [.tick m.time, m.op]

/-- What is answered then. -/
def Moment.trace (m : Moment) : KvTrace := [(.tick m.time, .ok .nothing), (m.op, m.answer)]

section Order

variable [Platform] {dek : Key}

/-- The behaviours that are allowed to a request, and to the clock. -/
def KvOp.Allowed (dek : Key) (shown : ℕ → Prop) (passphrase : PyStr) (op : KvOp) (b : Behaviour World Exc KvAnswer) :
    Prop :=
  match op with
  | .tick _ => ∀ w, Unlocked dek shown w → b w = (op.exec passphrase).run w
  | _ => Instant dek shown (op.exec passphrase) b

theorem KvOp.allowed_of_target {shown : ℕ → Prop} {passphrase : PyStr} {op : KvOp} (h : op.target ≠ none)
    (b : Behaviour World Exc KvAnswer) : op.Allowed dek shown passphrase b ↔ Instant dek shown (op.exec passphrase) b := by
  cases op with
  | tick time => exact absurd rfl h
  | _ => exact Iff.rfl

theorem KvOp.run_tick (passphrase : PyStr) (time : ℕ) (w : World) :
    ((KvOp.tick time).exec passphrase).run w = (.ok .nothing, { w with clock := time }) := rfl

/-- Requests and the clock act as they are allowed to. -/
theorem KvOp.exec_actsAs {shown : ℕ → Prop} (passphrase : PyStr) {op : KvOp} (h : op.Moves) (hshown : ∃ time, shown time) :
    (op.exec passphrase).ActsAs (Unlocked dek shown) (op.Allowed dek shown passphrase) := by
  rcases h with htarget | ⟨time, rfl⟩
  · exact (op.exec_takesEffect passphrase htarget hshown).acts.mono fun b hb => (allowed_of_target htarget b).mpr hb
  · refine .effect fun w hw => ⟨((KvOp.tick time).exec passphrase).run, _, fun _ _ => rfl, rfl, .done⟩

/-- What they are allowed to do leaves the vault unlocked. -/
theorem KvOp.allowed_unlocked {start : World} {ops : List KvOp} (passphrase : PyStr) {op : KvOp} (hop : op ∈ ops)
    (h : op.Moves) {b : Behaviour World Exc KvAnswer} (hb : op.Allowed dek (Shown start ops) passphrase b) {w : World}
    (hw : Unlocked dek (Shown start ops) w) : Unlocked dek (Shown start ops) (b w).2 := by
  rcases h with htarget | ⟨time, rfl⟩
  · obtain ⟨time, htime, hrun⟩ := (allowed_of_target htarget b).mp hb
    have htakes : TakesEffect dek (Shown start ops) (op.exec passphrase) :=
      op.exec_takesEffect passphrase htarget ⟨time, htime⟩
    have hkeeps := htakes.keeps.run { w with clock := time }
    simp only [Prod.mk.injEq] at hkeeps
    rw [hrun w hw]
    exact ⟨hkeeps.1.trans hw.1, hw.2⟩
  · rw [hb w hw, KvOp.run_tick]
    exact ⟨hw.1, .inr hop⟩

/-- The behaviours of a pool of requests. -/
def allowedAt (dek : Key) (passphrase : PyStr) (start : World) (ops : List KvOp) (i : ℕ) (b : Behaviour World Exc KvAnswer) :
    Prop :=
  ∃ op, ops[i]? = some op ∧ op.Allowed dek (Shown start ops) passphrase b

omit [Platform] in
/-- Worlds that differ in the clock are the same once it is moved. -/
theorem clock_moved {v w : World} (h : { v with clock := w.clock } = w) (time : ℕ) :
    ({ v with clock := time } : World) = { w with clock := time } := by
  rw [← h]

/-- **Behaviours one after another are a session**, each request at its time. -/
theorem session_of_serial {passphrase : PyStr} {start : World} {ops : List KvOp} (hops : ∀ op ∈ ops, op.Moves)
    {w w' : World} {order : List (ℕ × Except Exc KvAnswer)}
    (h : Serial (allowedAt dek passphrase start ops) w order w') (hw : Unlocked dek (Shown start ops) w) {v : World}
    (hv : { v with clock := w.clock } = w) : ∃ moments : List Moment,
      moments.map (fun m => (m.index, m.answer)) = order ∧
        (∀ m ∈ moments, ops[m.index]? = some m.op ∧ Shown start ops m.time) ∧
          ∃ v', kvSession passphrase v (moments.flatMap Moment.ops) = (moments.flatMap Moment.trace, v') ∧
            { v' with clock := w'.clock } = w' := by
  induction h generalizing v with
  | nil w => exact ⟨[], rfl, by simp, v, rfl, hv⟩
  | @cons i b w w' rest hb _ ih =>
    obtain ⟨op, hop, hallowed⟩ := hb
    have hmem := List.mem_of_getElem? hop
    have hnext := op.allowed_unlocked passphrase hmem (hops op hmem) hallowed hw
    -- the request alone, at its time
    have hone : ∃ time, Shown start ops time ∧ ∃ v₁, (op.exec passphrase).run { v with clock := time } = ((b w).1, v₁) ∧
        { v₁ with clock := (b w).2.clock } = (b w).2 := by
      rcases hops op hmem with htarget | ⟨time, rfl⟩
      · obtain ⟨time, htime, hrun⟩ := (KvOp.allowed_of_target htarget b).mp hallowed
        refine ⟨time, htime, ((op.exec passphrase).run { w with clock := time }).2, ?_, ?_⟩
        · rw [clock_moved hv, hrun w hw]
          rfl
        · rw [hrun w hw]
          rfl
      · refine ⟨time, .inr hmem, { v with clock := time }, ?_, ?_⟩
        · rw [hallowed w hw]
          rfl
        · rw [hallowed w hw]
          exact clock_moved hv time
    obtain ⟨time, htime, v₁, hrun, hv₁⟩ := hone
    obtain ⟨moments, hmap, hprops, v', hsession, hv'⟩ := ih hnext hv₁
    refine ⟨⟨i, op, time, (b w).1⟩ :: moments, ?_, ?_, v', ?_, hv'⟩
    · rw [List.map_cons, hmap]
    · rintro m hm
      rcases List.mem_cons.mp hm with rfl | hm
      · exact ⟨hop, htime⟩
      · exact hprops m hm
    · rw [List.flatMap_cons, List.flatMap_cons]
      simp only [kvSession] at hsession ⊢
      simp only [Moment.ops, Moment.trace, List.cons_append, List.nil_append, Prog.session, KvOp.run_tick, hrun, hsession]

/-- The moments of a run: a linearization of it, which is a session. -/
theorem exists_moments (passphrase : PyStr) {start : World} (hdek : start.dek = some dek) {ops : List KvOp}
    (hops : ∀ op ∈ ops, op.Moves) (sched : List ℕ) : ∃ order : List Moment,
      Linearization (allowedAt dek passphrase start ops) ⟨start, ops.map (KvOp.exec passphrase)⟩ sched
          (order.map fun m => (m.index, m.answer)) ∧
        (∀ m ∈ order, ops[m.index]? = some m.op ∧ Shown start ops m.time) ∧
          ∃ w, kvSession passphrase start (order.flatMap Moment.ops) = (order.flatMap Moment.trace, w) ∧
            { w with clock := (Config.exec ⟨start, ops.map (KvOp.exec passphrase)⟩ sched).state.clock } =
              (Config.exec ⟨start, ops.map (KvOp.exec passphrase)⟩ sched).state := by
  have hstart : Unlocked dek (Shown start ops) start := ⟨hdek, .inl rfl⟩
  have hkeep : ∀ i b w, allowedAt dek passphrase start ops i b → Unlocked dek (Shown start ops) w →
      Unlocked dek (Shown start ops) (b w).2 := by
    rintro i b w ⟨op, hop, hb⟩ hw
    have hmem := List.mem_of_getElem? hop
    exact op.allowed_unlocked passphrase hmem (hops op hmem) hb hw
  have hacts : ∀ i (p : Act KvAnswer), (ops.map (KvOp.exec passphrase))[i]? = some p →
      p.ActsAs (Unlocked dek (Shown start ops)) (allowedAt dek passphrase start ops i) := by
    intro i p hp
    rw [List.getElem?_map, Option.map_eq_some_iff] at hp
    obtain ⟨op, hop, rfl⟩ := hp
    exact (op.exec_actsAs passphrase (hops op (List.mem_of_getElem? hop)) ⟨_, .inl rfl⟩).mono fun b hb => ⟨op, hop, hb⟩
  obtain ⟨order, hlin⟩ := exists_linearization (c := ⟨start, ops.map (KvOp.exec passphrase)⟩) hkeep hstart hacts sched
  obtain ⟨moments, rfl, hprops, w, hsession, hw⟩ := session_of_serial hops hlin.serial hstart rfl
  exact ⟨moments, hlin, hprops, w, hsession, hw⟩

omit [Platform] in
/-- The moment of a request that has answered. -/
theorem exists_moment {order : List Moment} {i : ℕ} {r : Except Exc KvAnswer}
    (h : (i, r) ∈ order.map fun m => (m.index, m.answer)) : ∃ m ∈ order, m.index = i ∧ m.answer = r := by
  obtain ⟨m, hm, heq⟩ := List.mem_map.mp h
  obtain ⟨rfl, rfl⟩ := Prod.mk.inj heq
  exact ⟨m, hm, rfl, rfl⟩

/-- **Requests at once are requests one after another.** While the vault is unlocked, any interleaving of requests to
paths and of movements of the clock has an order: in it, each alone and each at a time that the clock shows in the run,
the requests give the answers they gave, and leave the same state; and a request that had been answered before another
began comes before it. -/
theorem kv_linearizable (passphrase : PyStr) {start : World} (hdek : start.dek = some dek) (ops : List KvOp)
    (hops : ∀ op ∈ ops, op.Moves) (sched : List ℕ) :
    let pool : Config World Label Exc KvAnswer := ⟨start, ops.map (KvOp.exec passphrase)⟩
    ∃ order : List Moment,
      (∀ m ∈ order, ops[m.index]? = some m.op ∧ Shown start ops m.time) ∧ (order.map Moment.index).Nodup ∧
        (∀ i r, (pool.exec sched).result i = some r → ∃ m ∈ order, m.index = i ∧ m.answer = r) ∧
          (∀ before after, sched = before ++ after → ∃ pre post, order = pre ++ post ∧
            (∀ i r, (pool.exec before).result i = some r → ∃ m ∈ pre, m.index = i ∧ m.answer = r) ∧
              ∀ m ∈ pre, m.index ∈ before ∨ pool.result m.index = some m.answer) ∧
            ∃ w, kvSession passphrase start (order.flatMap Moment.ops) = (order.flatMap Moment.trace, w) ∧
              { w with clock := (pool.exec sched).state.clock } = (pool.exec sched).state := by
  intro pool
  obtain ⟨order, hlin, hprops, hsession⟩ := exists_moments passphrase hdek hops sched
  refine ⟨order, hprops, ?_, fun i r hr => exists_moment (hlin.answered i r hr), fun before after hsplit => ?_, hsession⟩
  · have honce := hlin.once
    rwa [List.map_map] at honce
  · obtain ⟨pre, post, heq, hearly, hlate⟩ := hlin.realTime before after hsplit
    obtain ⟨pre', post', rfl, rfl, rfl⟩ := List.map_eq_append_iff.mp heq
    exact ⟨pre', post', rfl, fun i r hr => exists_moment (hearly i r hr),
      fun m hm => hlate _ (List.mem_map.mpr ⟨m, hm, rfl⟩)⟩

/-! ### What is written at once -/

/-- **A write stays** under its number, as long as nothing is deleted under its path. -/
theorem GenuineTrace.kept {t₁ t₂ : KvTrace} {u p : PyStr} {data : Data} {nonce : Nonce} {answer : KvAnswer}
    (ht : GenuineTrace (t₁ ++ [(.write u p data nonce, .ok answer)] ++ t₂))
    (hdel : ∀ e ∈ t₂, deletedBy e ≠ some (u, p)) : ∃ (a : Appended) (i : ℕ), answer = .appended a ∧ a.version = i + 1 ∧
      (history t₁ u p).length = i ∧
        (history (t₁ ++ [(.write u p data nonce, .ok answer)] ++ t₂) u p)[i]? = some data := by
  induction t₂ using List.reverseRecOn with
  | nil =>
    rw [List.append_nil] at ht ⊢
    obtain ⟨-, -, a, rfl, hversion⟩ := genuineTrace_append.mp ht
    refine ⟨a, (history t₁ u p).length, rfl, hversion, rfl, ?_⟩
    rw [history_append]
    simp [recordKv]
  | append_singleton t₂ e ih =>
    rw [← List.append_assoc] at ht ⊢
    obtain ⟨ht, hg⟩ := genuineTrace_append.mp ht
    obtain ⟨a, i, hanswer, hversion, hlen, hget⟩ := ih ht fun e he => hdel e (List.mem_append_left _ he)
    refine ⟨a, i, hanswer, hversion, hlen, ?_⟩
    rw [history_append]
    rcases hg.effect u p with ⟨_, _, _, -, -, -, hrec⟩ | ⟨hd, -⟩ | ⟨-, -, hrec⟩
    · rw [hrec]
      exact List.getElem?_append_left (List.getElem?_eq_some_iff.mp hget).1 ▸ hget
    · exact absurd hd (hdel e (by simp))
    · rwa [hrec]

/-- Of two writes under one path, the later has the greater number. -/
theorem GenuineTrace.numbers {t₁ t₂ t₃ : KvTrace} {u p : PyStr} {data data' : Data} {nonce nonce' : Nonce}
    {a a' : Appended}
    (ht : GenuineTrace (t₁ ++ [(.write u p data nonce, .ok (.appended a))] ++ t₂ ++
      [(.write u p data' nonce', .ok (.appended a'))] ++ t₃))
    (hdel : ∀ e ∈ t₂, deletedBy e ≠ some (u, p)) : a.version < a'.version := by
  obtain ⟨hbefore, -, a'', heq, hversion'⟩ := genuineTrace_append.mp ht.left
  obtain ⟨b, i, hanswer, hversion, -, hget⟩ := hbefore.kept hdel
  cases hanswer
  cases heq
  have hlt := (List.getElem?_eq_some_iff.mp hget).1
  omega

/-- What is answered in a session was answered in some state of it. -/
theorem answered_somewhere {passphrase : PyStr} {w : World} {ops : List KvOp} {e : KvEvent}
    (he : e ∈ (kvSession passphrase w ops).1) : ∃ w', ((e.1.exec passphrase).run w').1 = e.2 := by
  have hall : ∀ e ∈ (kvSession passphrase w ops).1, ∃ w', ((e.1.exec passphrase).run w').1 = e.2 := by
    refine Prog.session_invariant (I := fun t _ => ∀ e ∈ t, ∃ w', ((e.1.exec passphrase).run w').1 = e.2) (by simp)
      (fun past w op hpast e he => ?_) ops
    rcases List.mem_append.mp he with he | he
    · exact hpast e he
    · obtain rfl := List.mem_singleton.mp he
      exact ⟨w, rfl⟩
  exact hall e he

/-- A write that was answered was one of the owner's, with texts that can be bound. -/
theorem KvOp.write_answered {passphrase owner path : PyStr} {data : Data} {nonce : Nonce} {answer : KvAnswer} {w : World}
    (h : (((KvOp.write owner path data nonce).exec passphrase).run w).1 = .ok answer) :
    w.dek ≠ none ∧ extractOwnerEmailFromPath path = .ok owner ∧ Bindable owner ∧ Bindable path := by
  simp only [KvOp.exec, run_answer] at h
  rcases hrun : (KvService.write owner path data nonce).run w with ⟨e | a, w'⟩ <;> rw [hrun] at h
  · cases h
  · obtain ⟨hown, howner, hpath, k, _, _, _, hk, -⟩ := KvService.run_write_eq_ok hrun
    exact ⟨by rw [hk]; exact Option.some_ne_none k, hown, howner, hpath⟩

/-- A write that has not begun has no answer yet. -/
theorem KvOp.write_begins {passphrase owner path : PyStr} {data : Data} {nonce : Nonce} {answer : KvAnswer} (w : World) :
    (KvOp.write owner path data nonce).exec passphrase ≠ .done (.ok answer) := by
  intro hdone
  have hlocked : (((KvOp.write owner path data nonce).exec passphrase).run { w with dek := none }).1 = .ok answer := by
    rw [hdone]
    rfl
  exact (KvOp.write_answered hlocked).1 rfl

/-- Requests and the clock leave the key in memory. -/
theorem pool_keepsKey {passphrase : PyStr} {start : World} (hdek : start.dek = some dek) {ops : List KvOp}
    (hops : ∀ op ∈ ops, op.Moves) (sched : List ℕ) :
    (Config.exec ⟨start, ops.map (KvOp.exec passphrase)⟩ sched).state.dek = some dek := by
  have hkeep : ∀ p ∈ ops.map (KvOp.exec passphrase), Prog.Sat (fun _ => True) (fun _ w w' => w'.dek = w.dek) p := by
    intro p hp
    obtain ⟨op, hop, rfl⟩ := List.mem_map.mp hp
    rcases hops op hop with htarget | ⟨time, rfl⟩
    · have htakes : TakesEffect dek (fun _ => True) (op.exec passphrase) :=
        op.exec_takesEffect passphrase htarget ⟨0, trivial⟩
      exact htakes.keeps.weaken fun heq => (Prod.mk.inj heq).1
    · exact .bind (.change fun _ _ => rfl) fun _ => .pure _
  refine Config.exec_invariant (I := fun w : World => w.dek = some dek) (C := fun _ _ => True)
    (c := ⟨start, ops.map (KvOp.exec passphrase)⟩) (fun l w w' hw hstep _ => hstep.trans hw)
    (fun p hp => (hkeep p hp).mono (fun _ _ => trivial) fun _ _ _ h => h) hdek ?_
  exact fun _ _ => trivial

/-- **The order of a run refines the history**, behind the run it began after. -/
theorem moments_refine (hgcm : GcmCorrect) {passphrase : PyStr} {t : KvTrace} {start w : World} {order : List Moment}
    (hrefines : Refines passphrase dek t start) (hgenuine : GenuineTrace t)
    (hsession : kvSession passphrase start (order.flatMap Moment.ops) = (order.flatMap Moment.trace, w)) :
    Refines passphrase dek (t ++ order.flatMap Moment.trace) w ∧ GenuineTrace (t ++ order.flatMap Moment.trace) := by
  have hall : Refines passphrase dek (t ++ (kvSession passphrase start (order.flatMap Moment.ops)).1)
      (kvSession passphrase start (order.flatMap Moment.ops)).2 ∧
        GenuineTrace (t ++ (kvSession passphrase start (order.flatMap Moment.ops)).1) := by
    refine Prog.session_invariant (I := fun t' w => Refines passphrase dek (t ++ t') w ∧ GenuineTrace (t ++ t')) ?_
      (fun t' w op h => ?_) (order.flatMap Moment.ops)
    · rw [List.append_nil]
      exact ⟨hrefines, hgenuine⟩
    · rw [← List.append_assoc]
      exact ⟨h.1.step hgcm op, h.2.snoc (h.1.genuine op)⟩
  rwa [hsession] at hall

omit [Platform] in
/-- What deletes in an order is a request that does. -/
theorem moments_keep {owner path : PyStr} {moments : List Moment} (h : ∀ m ∈ moments, m.op ≠ .delete owner path) :
    ∀ e ∈ moments.flatMap Moment.trace, deletedBy e ≠ some (owner, path) := by
  intro e he hd
  obtain ⟨m, hm, he⟩ := List.mem_flatMap.mp he
  rcases List.mem_cons.mp he with rfl | he
  · cases hd
  · obtain rfl := List.mem_singleton.mp he
    unfold deletedBy at hd
    split at hd
    · next heq =>
      obtain ⟨rfl, rfl⟩ := Prod.mk.inj (Option.some.inj hd)
      exact h m hm (Prod.mk.inj heq).1
    · cases hd

/-- The trace of a write that was answered. -/
def Moment.Writes (m : Moment) (owner path : PyStr) (data : Data) (a : Appended) : Prop :=
  ∃ nonce, m.trace = [(.tick m.time, .ok .nothing), (.write owner path data nonce, .ok (.appended a))]

/-- **Two writes in an order** have numbers in that order, where nothing is deleted between them. -/
theorem moments_numbers {t : KvTrace} {owner path : PyStr} {pre mid post : List Moment} {m m' : Moment}
    {data data' : Data} {a a' : Appended}
    (hgenuine : GenuineTrace (t ++ (pre ++ m :: mid ++ m' :: post).flatMap Moment.trace))
    (hmid : ∀ e ∈ mid.flatMap Moment.trace, deletedBy e ≠ some (owner, path)) (hm : m.Writes owner path data a)
    (hm' : m'.Writes owner path data' a') : a.version < a'.version := by
  obtain ⟨nonce, hm⟩ := hm
  obtain ⟨nonce', hm'⟩ := hm'
  have htrace : t ++ (pre ++ m :: mid ++ m' :: post).flatMap Moment.trace =
      (t ++ pre.flatMap Moment.trace ++ [(.tick m.time, .ok .nothing)]) ++
        [(.write owner path data nonce, .ok (.appended a))] ++
        (mid.flatMap Moment.trace ++ [(.tick m'.time, .ok .nothing)]) ++
        [(.write owner path data' nonce', .ok (.appended a'))] ++ post.flatMap Moment.trace := by
    simp [hm, hm']
  rw [htrace] at hgenuine
  apply hgenuine.numbers
  intro e he hd
  rcases List.mem_append.mp he with he | he
  · exact hmid e he hd
  · obtain rfl := List.mem_singleton.mp he
    cases hd

/-- The numbers of two writes in an order differ, where nothing is deleted. -/
theorem moments_differ {t : KvTrace} {owner path : PyStr} {order : List Moment} {m m' : Moment} {data data' : Data}
    {a a' : Appended} (hgenuine : GenuineTrace (t ++ order.flatMap Moment.trace))
    (hkeep : ∀ e ∈ order.flatMap Moment.trace, deletedBy e ≠ some (owner, path)) (hm : m ∈ order) (hm' : m' ∈ order)
    (hne : m' ≠ m) (hwrites : m.Writes owner path data a) (hwrites' : m'.Writes owner path data' a') :
    a.version ≠ a'.version := by
  have hkept : ∀ part : List Moment, (∀ e ∈ part, e ∈ order) →
      ∀ e ∈ part.flatMap Moment.trace, deletedBy e ≠ some (owner, path) := by
    intro part hpart e he
    obtain ⟨k, hk, he⟩ := List.mem_flatMap.mp he
    exact hkeep e (List.mem_flatMap.mpr ⟨k, hpart k hk, he⟩)
  obtain ⟨pre, post, rfl⟩ := List.append_of_mem hm
  rw [List.mem_append, List.mem_cons] at hm'
  rcases hm' with hm' | hm' | hm'
  · obtain ⟨pre', mid, rfl⟩ := List.append_of_mem hm'
    exact ne_of_gt (moments_numbers hgenuine (hkept mid fun e he => by simp [he]) hwrites' hwrites)
  · exact absurd hm' hne
  · obtain ⟨mid, post', rfl⟩ := List.append_of_mem hm'
    rw [← List.cons_append, ← List.append_assoc] at hgenuine
    exact ne_of_lt (moments_numbers hgenuine (hkept mid fun e he => by simp [he]) hwrites hwrites')

/-- **A write in an order** is read back under its number, where nothing is deleted behind it. -/
theorem moments_read {passphrase : PyStr} {t : KvTrace} {w : World} {owner path : PyStr} {pre post : List Moment}
    {m : Moment} {data : Data} {a : Appended}
    (hrefines : Refines passphrase dek (t ++ (pre ++ m :: post).flatMap Moment.trace) w)
    (hgenuine : GenuineTrace (t ++ (pre ++ m :: post).flatMap Moment.trace))
    (hpost : ∀ e ∈ post.flatMap Moment.trace, deletedBy e ≠ some (owner, path)) (hm : m.Writes owner path data a)
    (hown : extractOwnerEmailFromPath path = .ok owner) (howner : Bindable owner) (hpath : Bindable path)
    (hdek : w.dek = some dek) (hjson : JsonFaithful data) : ∃ latest createdAt,
      (KvService.read owner path (some a.version)).run w = (.ok ⟨data, a.version, latest, createdAt⟩, w) := by
  obtain ⟨nonce, htrace⟩ := hm
  have hfull : t ++ (pre ++ m :: post).flatMap Moment.trace =
      (t ++ pre.flatMap Moment.trace ++ [(.tick m.time, .ok .nothing)]) ++
        [(.write owner path data nonce, .ok (.appended a))] ++ post.flatMap Moment.trace := by
    simp [htrace]
  rw [hfull] at hgenuine hrefines
  obtain ⟨b, n, hb, hversion, -, hget⟩ := hgenuine.kept hpost
  cases hb
  obtain ⟨hlt, hdata⟩ := List.getElem?_eq_some_iff.mp hget
  obtain ⟨createdAt, hread⟩ := hrefines.read_version hown howner hpath hdek hlt (by rwa [hdata])
  rw [hdata, ← hversion] at hread
  exact ⟨_, createdAt, hread⟩

/-- **No write is lost.** In any interleaving of requests and of movements of the clock, from a state that a run of the
key-value store has left unlocked: where no request deletes an owner's path, what a write under it was told to have
written is read back under the number it was told; two writes are told different numbers; and a write that began after
another was answered is told a greater one. -/
theorem concurrent_writes_kept (hgcm : GcmCorrect) (environ : PyStr → Option PyStr) (passphrase : PyStr)
    (coins : VaultService.InitCoins) (past ops : List KvOp) (sched : List ℕ) (owner path : PyStr) :
    let init := (VaultService.initializeVault passphrase coins).run (.fresh environ)
    let start := (kvSession passphrase init.2 past).2
    let pool : Config World Label Exc KvAnswer := ⟨start, ops.map (KvOp.exec passphrase)⟩
    let final := (pool.exec sched).state
    let Wrote (c : Config World Label Exc KvAnswer) (i : ℕ) (data : Data) (a : Appended) : Prop :=
      ∃ nonce, ops[i]? = some (.write owner path data nonce) ∧ c.result i = some (.ok (.appended a))
    init.1.isOk → start.dek ≠ none → (∀ op ∈ ops, op.Moves) → KvOp.delete owner path ∉ ops →
      (∀ i data a, Wrote (pool.exec sched) i data a → JsonFaithful data → ∃ latest createdAt,
        (KvService.read owner path (some a.version)).run final = (.ok ⟨data, a.version, latest, createdAt⟩, final)) ∧
      (∀ i j data data' a a', Wrote (pool.exec sched) i data a → Wrote (pool.exec sched) j data' a' → i ≠ j →
        a.version ≠ a'.version) ∧
      ∀ before after i j data data' a a', sched = before ++ after → Wrote (pool.exec before) i data a → j ∉ before →
        Wrote (pool.exec sched) j data' a' → a.version < a'.version := by
  intro init start pool final Wrote hinit hunlocked hops hnodelete
  obtain ⟨dek, hdek⟩ := Option.ne_none_iff_exists'.mp hunlocked
  obtain ⟨order, hlin, hmoments, w, hsession, hw⟩ := exists_moments passphrase hdek hops sched
  -- the run so far, and the order behind it, as one run
  obtain ⟨hrefines, hgenuine⟩ := moments_refine hgcm (refines_session hgcm (Refines.start hgcm hinit) past)
    (genuine_session hgcm (Refines.start hgcm hinit) past) hsession
  have hpart := congrArg World.kvPart hw
  have hfinal := hrefines.of_kvPart hpart.symm rfl
  have hdekFinal : final.dek = some coins.dek := by
    have hsame : final.dek = some dek := pool_keepsKey hdek hops sched
    exact hfinal.memory dek hsame ▸ hsame
  have hkeep : ∀ moments : List Moment, (∀ m ∈ moments, m ∈ order) →
      ∀ e ∈ moments.flatMap Moment.trace, deletedBy e ≠ some (owner, path) := fun moments hsub =>
    moments_keep fun m hm hop => hnodelete (hop ▸ List.mem_of_getElem? (hmoments m (hsub m hm)).1)
  -- the moment of a write
  have hwrites : ∀ (c : Config World Label Exc KvAnswer) {i data a} {m : Moment}, Wrote c i data a → m ∈ order →
      m.index = i → c.result i = some m.answer → m.Writes owner path data a := by
    rintro c i data a m ⟨nonce, hop, hresult⟩ hm rfl hanswer
    have hop' := Option.some.inj ((hmoments m hm).1.symm.trans hop)
    have hanswer' := Option.some.inj (hanswer.symm.trans hresult)
    exact ⟨nonce, by simp only [Moment.trace, hop', hanswer']⟩
  have hmoment : ∀ {i data a}, Wrote (pool.exec sched) i data a → ∃ m ∈ order, m.index = i ∧
      m.Writes owner path data a := by
    intro i data a hwrote
    obtain ⟨-, -, hresult⟩ := id hwrote
    obtain ⟨m, hm, hindex, hanswer⟩ := exists_moment (hlin.answered i _ hresult)
    exact ⟨m, hm, hindex, hwrites _ hwrote hm hindex (hresult.trans (congrArg some hanswer.symm))⟩
  refine ⟨fun i data a hwrote hjson => ?_, fun i j data data' a a' hi hj hij => ?_,
    fun before after i j data data' a a' hsplit hi hj hwrote => ?_⟩
  · obtain ⟨m, hm, -, nonce, htrace⟩ := hmoment hwrote
    -- what was answered belongs to its owner
    have hmem : (.write owner path data nonce, .ok (.appended a)) ∈
        (kvSession passphrase start (order.flatMap Moment.ops)).1 := by
      rw [hsession]
      exact List.mem_flatMap.mpr ⟨m, hm, by rw [htrace]; simp⟩
    obtain ⟨w', hw'⟩ := answered_somewhere hmem
    obtain ⟨-, hown, howner, hpath⟩ := KvOp.write_answered hw'
    obtain ⟨pre, post, rfl⟩ := List.append_of_mem hm
    exact moments_read hfinal hgenuine (hkeep post fun m' hm' => by simp [hm']) ⟨nonce, htrace⟩ hown howner hpath hdekFinal
      hjson
  · obtain ⟨m, hm, rfl, hwrites₁⟩ := hmoment hi
    obtain ⟨m', hm', rfl, hwrites₂⟩ := hmoment hj
    have hne : m' ≠ m := fun h => hij (by rw [h])
    exact moments_differ hgenuine (hkeep order fun _ he => he) hm hm' hne hwrites₁ hwrites₂
  · -- the first write is in the part of the order that had taken effect, the second is not
    obtain ⟨pre', post', hsplit', hearly, hlate⟩ := hlin.realTime before after hsplit
    obtain ⟨pre, post, rfl, rfl, rfl⟩ := List.map_eq_append_iff.mp hsplit'
    obtain ⟨-, -, hresult⟩ := id hi
    obtain ⟨m, hm, hindex, hanswer⟩ := exists_moment (hearly i _ hresult)
    have hfirst := hwrites _ hi (List.mem_append_left _ hm) hindex (hresult.trans (congrArg some hanswer.symm))
    obtain ⟨m', hm', rfl, hsecond⟩ := hmoment hwrote
    rcases List.mem_append.mp hm' with hpre | hpost
    · exfalso
      rcases hlate _ (List.mem_map.mpr ⟨m', hpre, rfl⟩) with hmem | hdone
      · exact hj hmem
      · -- a write that has not begun has no answer
        obtain ⟨nonce, hop, -⟩ := hwrote
        obtain ⟨nonce', hsecond⟩ := hsecond
        have hproc : pool.procs[m'.index]? = some ((KvOp.write owner path data' nonce).exec passphrase) := by
          rw [List.getElem?_map, hop]
          rfl
        have hstop := Option.some.inj (hproc.symm.trans (Config.result_eq_some.mp hdone))
        have hok : m'.answer = .ok (.appended a') := by
          simp only [Moment.trace, List.cons.injEq, Prod.mk.injEq, and_true, true_and] at hsecond
          exact hsecond.2
        rw [hok] at hstop
        exact KvOp.write_begins start hstop
    · obtain ⟨front, mid, rfl⟩ := List.append_of_mem hm
      obtain ⟨mid', back, rfl⟩ := List.append_of_mem hpost
      have hsplit : front ++ m :: mid ++ (mid' ++ m' :: back) = front ++ m :: (mid ++ mid') ++ m' :: back := by simp
      rw [hsplit] at hgenuine
      refine moments_numbers hgenuine (hkeep (mid ++ mid') fun e he => ?_) hfirst hsecond
      rcases List.mem_append.mp he with he | he <;> simp [he]

end Order

end Linearization

/-! ### A sample -/

section Sample

attribute [local instance] samplePlatform

/-- Two writes under one path, while the clock moves. -/
def samplePair : List KvOp :=
  [.write sampleOwner samplePath [] (sampleNonce 3), .write sampleOwner samplePath [(py "a", .null)] (sampleNonce 4),
    .tick 7]

/-- The second begins after the first and comes before it. -/
def sampleOverlap : List ℕ := [0, 0, 0, 1, 1, 2, 1, 1, 0]

/-- The requests at once, on a vault that is unlocked. -/
def sampleRequestPool : Config World Label Exc KvAnswer :=
  ⟨sampleUnlocked.2, samplePair.map (KvOp.exec samplePassphrase)⟩

attribute [local irreducible] Config.exec Prog.session

theorem sampleRequests_moves : ∀ op ∈ samplePair, op.Moves := by
  intro op hop
  simp only [samplePair, List.mem_cons, List.not_mem_nil, or_false] at hop
  rcases hop with rfl | rfl | rfl
  · exact .inl (Option.some_ne_none _)
  · exact .inl (Option.some_ne_none _)
  · exact .inr ⟨7, rfl⟩

/-- The race has an order. -/
theorem kv_linearizable_sample : ∃ order : List Moment, (order.map Moment.index).Nodup ∧
    ∃ w, kvSession samplePassphrase sampleUnlocked.2 (order.flatMap Moment.ops) = (order.flatMap Moment.trace, w) ∧
      { w with clock := (sampleRequestPool.exec sampleOverlap).state.clock } = (sampleRequestPool.exec sampleOverlap).state := by
  obtain ⟨order, -, hnodup, -, -, hsession⟩ := kv_linearizable samplePassphrase
    (show sampleUnlocked.2.dek = some sampleCoins.dek by decide +kernel) samplePair sampleRequests_moves sampleOverlap
  exact ⟨order, hnodup, hsession⟩

/-- Its writes are told two numbers, and the first is read back. -/
theorem concurrent_writes_kept_sample :
    ((sampleRequestPool.exec sampleOverlap).result 0 =
      some (.ok (.appended ⟨.str (isoformat 7), .str (isoformat 0), 2⟩))) ∧ ∃ latest createdAt,
        (KvService.read sampleOwner samplePath (some 2)).run (sampleRequestPool.exec sampleOverlap).state =
          (.ok ⟨[], 2, latest, createdAt⟩, (sampleRequestPool.exec sampleOverlap).state) := by
  have hresult : (sampleRequestPool.exec sampleOverlap).result 0 =
      some (.ok (.appended ⟨.str (isoformat 7), .str (isoformat 0), 2⟩)) := by decide +kernel
  refine ⟨hresult, ?_⟩
  exact (concurrent_writes_kept samplePlatform_gcmCorrect (fun _ => none) samplePassphrase sampleCoins [.unlock]
    samplePair sampleOverlap sampleOwner samplePath (by decide +kernel) (by decide +kernel) sampleRequests_moves
    (by simp [samplePair])).1 0 [] _ ⟨sampleNonce 3, rfl, hresult⟩ (sampleJsonFaithful (.inl rfl))

end Sample

end MiniVault
