import Mathlib.Data.List.Basic
import Mathlib.Data.List.Induction
import Mathlib.Logic.Basic

/-!
# Programs in atomic steps

A server answers many requests at once. Each request is a program that runs in
atomic steps on a state all requests share — one database transaction, one look
at a file, one look at the clock — and between two of its steps any other
request may take any number of its own.

## The model

* `Prog σ ℓ ε α` — a program: it is finished, with a value or an error, or it
  has an atomic step to take, which carries a label and after which it goes on
  as it decides from the state it found.
* `Prog.run` — the program alone, from its first step to its last.
* `Config`, `Config.exec` — a pool of programs on one state, run by a schedule:
  the list of the indices of the programs whose turn it is. A schedule is any
  list, so a statement for every schedule is a statement for every interleaving.

## What is proved

* `exec_invariant` — the invariant rule: if every step of every program keeps to
  a guarantee (`Prog.Sat`) and the guarantee preserves the invariant, then every
  interleaving does. The guarantee may be conditional on the step's label and
  the state it finds; then the interleavings whose steps meet the condition do.
* `run_sat` — the same for a program run alone.
* `Sat.bind_yields` — what a program does may depend on values it looked up; of those the
  invariant says something too (`Prog.Yields`).
* `Prog.session_invariant` — the same for programs run one after another, of the
  whole list of their results.
* `success_unique` — if a program cannot succeed without a step of a given kind
  (`Prog.Needs`), and in a run such a step is taken only while a flag is down
  and raises it for good, then at most one of the programs succeeds.
-/

namespace MiniVault.Foundations

variable {σ ℓ ε α β : Type}

/-- A program in atomic steps over a shared state. -/
inductive Prog (σ ℓ ε α : Type) : Type where
  /-- Finished, with a value or an error. -/
  | done (r : Except ε α)
  /-- An atomic step: `act` changes the state, and the program goes on as `k` of
  the state before the step says. -/
  | atom (l : ℓ) (act : σ → σ) (k : σ → Prog σ ℓ ε α)

namespace Prog

/-- Run `p`, then what `f` makes of its value; an error ends both. -/
protected def bind : Prog σ ℓ ε α → (α → Prog σ ℓ ε β) → Prog σ ℓ ε β
  | .done (.ok a), f => f a
  | .done (.error e), _ => .done (.error e)
  | .atom l act k, f => .atom l act fun s => (k s).bind f

/-- Run `p`; if it fails, run what `h` makes of the error. -/
protected def handle : Prog σ ℓ ε α → (ε → Prog σ ℓ ε α) → Prog σ ℓ ε α
  | .done (.ok a), _ => .done (.ok a)
  | .done (.error e), h => h e
  | .atom l act k, h => .atom l act fun s => (k s).handle h

instance : Monad (Prog σ ℓ ε) where
  pure a := .done (.ok a)
  bind := Prog.bind

instance : MonadExceptOf ε (Prog σ ℓ ε) where
  throw e := .done (.error e)
  tryCatch := Prog.handle

/-- A step that may fail, and then changes nothing. -/
def attempt (l : ℓ) (body : σ → Except ε (α × σ)) : Prog σ ℓ ε α :=
  .atom l (fun s => match body s with | .ok (_, s') => s' | .error _ => s)
    fun s => .done ((body s).map Prod.fst)

/-- A step that only looks at the state. -/
def look (l : ℓ) (f : σ → Except ε α) : Prog σ ℓ ε α := .atom l id fun s => .done (f s)

/-- A step that only changes the state. -/
def change (l : ℓ) (act : σ → σ) : Prog σ ℓ ε Unit := .atom l act fun _ => .done (.ok ())

/-- Three programs one after another. -/
theorem bind_assoc {γ : Type} (p : Prog σ ℓ ε α) (f : α → Prog σ ℓ ε β) (g : β → Prog σ ℓ ε γ) :
    (p >>= f) >>= g = p >>= fun a => f a >>= g := by
  induction p with
  | done r => cases r <;> rfl
  | atom l act k ih => exact congrArg (atom l act) (funext ih)

/-- The program run alone: its result, and the state it leaves. -/
def run : Prog σ ℓ ε α → σ → Except ε α × σ
  | .done r, s => (r, s)
  | .atom _ act k, s => (k s).run (act s)

@[simp] theorem run_done (r : Except ε α) (s : σ) : (Prog.done r : Prog σ ℓ ε α).run s = (r, s) := rfl

theorem run_done_eq_ok {r : Except ε α} {a : α} {s s' : σ} :
    (Prog.done r : Prog σ ℓ ε α).run s = (.ok a, s') ↔ r = .ok a ∧ s = s' :=
  Prod.mk.injEq _ _ _ _ |>.to_iff

@[simp] theorem run_pure (a : α) (s : σ) : (pure a : Prog σ ℓ ε α).run s = (.ok a, s) := rfl

@[simp] theorem run_throw (e : ε) (s : σ) : (throw e : Prog σ ℓ ε α).run s = (.error e, s) := rfl

@[simp] theorem run_look (l : ℓ) (f : σ → Except ε α) (s : σ) : (look l f).run s = (f s, s) := rfl

@[simp] theorem run_change (l : ℓ) (act : σ → σ) (s : σ) :
    (change l act : Prog σ ℓ ε Unit).run s = (.ok (), act s) := rfl

@[simp] theorem throw_bind (e : ε) (f : α → Prog σ ℓ ε β) : (throw e >>= f) = throw e := rfl

theorem run_attempt (l : ℓ) (body : σ → Except ε (α × σ)) (s : σ) :
    (attempt l body).run s =
      match body s with
      | .ok (a, s') => (.ok a, s')
      | .error e => (.error e, s) := by
  simp only [attempt, run]
  cases body s <;> rfl

/-- One step that runs a whole program. Where the program fails, `abort` says what
is left, from the state it began in and the state it had come to. -/
def atomic (l : ℓ) (abort : σ → σ → σ) (p : Prog σ ℓ ε α) : Prog σ ℓ ε α :=
  .atom l (fun s => match p.run s with | (.ok _, s') => s' | (.error _, s') => abort s s')
    fun s => .done (p.run s).1

theorem run_atomic (l : ℓ) (abort : σ → σ → σ) (p : Prog σ ℓ ε α) (s : σ) :
    (atomic l abort p).run s =
      match p.run s with
      | (.ok a, s') => (.ok a, s')
      | (.error e, s') => (.error e, abort s s') := by
  simp only [atomic, run]
  rcases p.run s with ⟨_ | _, _⟩ <;> rfl

/-- An atomic step that succeeds is the program's run. -/
theorem run_atomic_eq_ok {l : ℓ} {abort : σ → σ → σ} {p : Prog σ ℓ ε α} {s s' : σ} {a : α} :
    (atomic l abort p).run s = (.ok a, s') ↔ p.run s = (.ok a, s') := by
  rw [run_atomic]
  rcases p.run s with ⟨_ | _, _⟩ <;> simp

/-- Running one program after another. -/
theorem run_bind (p : Prog σ ℓ ε α) (f : α → Prog σ ℓ ε β) (s : σ) :
    (p >>= f).run s =
      match p.run s with
      | (.ok a, s') => (f a).run s'
      | (.error e, s') => (.error e, s') := by
  induction p generalizing s with
  | done r => cases r <;> rfl
  | atom l act k ih => exact ih s (act s)

/-- A sequence goes on where its first part has come to. -/
theorem run_bind_ok {p : Prog σ ℓ ε α} {s s' : σ} {a : α} (h : p.run s = (.ok a, s')) (f : α → Prog σ ℓ ε β) :
    (p >>= f).run s = (f a).run s' := by
  rw [run_bind, h]

/-- A sequence ends where its first part fails. -/
theorem run_bind_error {p : Prog σ ℓ ε α} {s s' : σ} {e : ε} (h : p.run s = (.error e, s')) (f : α → Prog σ ℓ ε β) :
    (p >>= f).run s = (.error e, s') := by
  rw [run_bind, h]

theorem run_handle (p : Prog σ ℓ ε α) (h : ε → Prog σ ℓ ε α) (s : σ) :
    (tryCatch p h).run s =
      match p.run s with
      | (.ok a, s') => (.ok a, s')
      | (.error e, s') => (h e).run s' := by
  induction p generalizing s with
  | done r => cases r <;> rfl
  | atom l act k ih => exact ih s (act s)

/-- The run of a sequence that succeeds is a run of each part that does. -/
theorem run_bind_eq_ok {p : Prog σ ℓ ε α} {f : α → Prog σ ℓ ε β} {s s' : σ} {b : β} :
    (p >>= f).run s = (.ok b, s') ↔ ∃ a s₁, p.run s = (.ok a, s₁) ∧ (f a).run s₁ = (.ok b, s') := by
  rw [run_bind]
  rcases p.run s with ⟨e | a, s₁⟩ <;> simp

/-- The run of a sequence that fails is a run of its first part that fails, or of its
second. -/
theorem run_bind_eq_error {p : Prog σ ℓ ε α} {f : α → Prog σ ℓ ε β} {s s' : σ} {e : ε} :
    (p >>= f).run s = (.error e, s') ↔
      p.run s = (.error e, s') ∨ ∃ a s₁, p.run s = (.ok a, s₁) ∧ (f a).run s₁ = (.error e, s') := by
  rw [run_bind]
  rcases p.run s with ⟨e | a, s₁⟩ <;> simp

/-! ### Guarantees -/

/-- `p.Sat I G`: from states where `I` holds, every step of `p`, labelled `l`,
takes a state to one that `G l` relates it to. -/
inductive Sat (I : σ → Prop) (G : ℓ → σ → σ → Prop) : Prog σ ℓ ε α → Prop where
  /-- No step is left. -/
  | done (r : Except ε α) : Sat I G (.done r)
  /-- The step keeps to `G`, and so does whatever follows. -/
  | atom {l : ℓ} {act : σ → σ} {k : σ → Prog σ ℓ ε α} :
      (∀ s, I s → G l s (act s)) → (∀ s, I s → Sat I G (k s)) → Sat I G (.atom l act k)

variable {I : σ → Prop} {G : ℓ → σ → σ → Prop}

theorem Sat.pure (a : α) : Sat I G (pure a : Prog σ ℓ ε α) := .done _

theorem Sat.throw (e : ε) : Sat I G (throw e : Prog σ ℓ ε α) := .done _

theorem Sat.look {l : ℓ} {f : σ → Except ε α} (h : ∀ s, I s → G l s s) : Sat I G (look l f) :=
  .atom h fun _ _ => .done _

theorem Sat.change {l : ℓ} {act : σ → σ} (h : ∀ s, I s → G l s (act s)) :
    Sat I G (change l act : Prog σ ℓ ε Unit) :=
  .atom h fun _ _ => .done _

theorem Sat.attempt {l : ℓ} {body : σ → Except ε (α × σ)}
    (hok : ∀ s a s', I s → body s = .ok (a, s') → G l s s') (herr : ∀ s, I s → G l s s) :
    Sat I G (attempt l body) := by
  refine .atom (fun s hs => ?_) fun _ _ => .done _
  split
  · next a s' hb => exact hok s a s' hs hb
  · exact herr s hs

theorem Sat.atomic {l : ℓ} {abort : σ → σ → σ} {p : Prog σ ℓ ε α}
    (h : ∀ s, I s → G l s ((atomic l abort p).run s).2) : Sat I G (atomic l abort p) :=
  .atom h fun _ _ => .done _

theorem Sat.bind {p : Prog σ ℓ ε α} {f : α → Prog σ ℓ ε β} (hp : Sat I G p) (hf : ∀ a, Sat I G (f a)) :
    Sat I G (p >>= f) := by
  induction hp with
  | done r =>
    cases r with
    | ok a => exact hf a
    | error e => exact .done _
  | atom hact _ ih => exact .atom hact ih

/-- What follows a value that is known keeps to `G` for that value. -/
theorem Sat.bind_done {r : Except ε α} {f : α → Prog σ ℓ ε β} (hf : ∀ a, r = .ok a → Sat I G (f a)) :
    Sat I G (.done r >>= f) := by
  cases r with
  | ok a => exact hf a rfl
  | error e => exact .done _

theorem Sat.handle {p : Prog σ ℓ ε α} {h : ε → Prog σ ℓ ε α} (hp : Sat I G p) (hh : ∀ e, Sat I G (h e)) :
    Sat I G (tryCatch p h) := by
  induction hp with
  | done r =>
    cases r with
    | ok a => exact .done _
    | error e => exact hh e
  | atom hact _ ih => exact .atom hact ih

theorem Sat.ite {c : Prop} [Decidable c] {p q : Prog σ ℓ ε α} (hp : c → Sat I G p) (hq : ¬ c → Sat I G q) :
    Sat I G (if c then p else q) := by
  split
  · exact hp ‹_›
  · exact hq ‹_›

/-- A guarantee implies weaker ones, under stronger assumptions. -/
theorem Sat.mono {I' : σ → Prop} {G' : ℓ → σ → σ → Prop} {p : Prog σ ℓ ε α} (h : Sat I G p) (hI : ∀ s, I' s → I s)
    (hG : ∀ l s s', G l s s' → G' l s s') : Sat I' G' p := by
  induction h with
  | done r => exact .done r
  | atom hact _ ih => exact .atom (fun s hs => hG _ _ _ (hact s (hI s hs))) fun s hs => ih s (hI s hs)

/-- A guarantee that is a preorder and keeps `I` relates the first state of a
run to its last. -/
theorem run_sat {R : σ → σ → Prop} (hrefl : ∀ s, R s s) (htrans : ∀ s t u, R s t → R t u → R s u)
    {p : Prog σ ℓ ε α} (hp : Sat I G p) (hI : ∀ l s s', I s → G l s s' → I s')
    (hG : ∀ l s s', I s → G l s s' → R s s') {s : σ} (hs : I s) : R s (p.run s).2 ∧ I (p.run s).2 := by
  induction hp generalizing s with
  | done r => exact ⟨hrefl s, hs⟩
  | atom hact _ ih =>
    have hstep := hact s hs
    obtain ⟨hR, hI'⟩ := ih s hs (hI _ _ _ hs hstep)
    exact ⟨htrans _ _ _ (hG _ _ _ hs hstep) hR, hI'⟩

/-- A part `f` of the state that no step changes is as it was after a run. -/
theorem run_frame {γ : Type} (f : σ → γ) {p : Prog σ ℓ ε α}
    (hp : Sat (fun _ => True) (fun _ s s' => f s' = f s) p) (s : σ) : f (p.run s).2 = f s :=
  (run_sat (R := fun s s' => f s' = f s) (fun _ => rfl) (fun _ _ _ h₁ h₂ => h₂.trans h₁) hp
    (fun _ _ _ _ _ => trivial) (fun _ _ _ _ h => h) trivial).1

/-! ### Values -/

/-- `p.Yields I P`: where `I` holds at every step of `p`, the value `p` comes to satisfies `P`. -/
inductive Yields (I : σ → Prop) (P : α → Prop) : Prog σ ℓ ε α → Prop where
  /-- The value satisfies `P`, where there is one. -/
  | done {r : Except ε α} : (∀ a, r = .ok a → P a) → Yields I P (.done r)
  /-- Whatever state the step finds, the rest comes to such a value. -/
  | atom {l : ℓ} {act : σ → σ} {k : σ → Prog σ ℓ ε α} :
      (∀ s, I s → Yields I P (k s)) → Yields I P (.atom l act k)

variable {P : α → Prop} {Q : β → Prop}

theorem Yields.pure {a : α} (h : P a) : Yields I P (pure a : Prog σ ℓ ε α) :=
  .done fun b hb => by rwa [← Except.ok.inj hb]

theorem Yields.throw (e : ε) : Yields I P (throw e : Prog σ ℓ ε α) := .done fun a ha => by cases ha

theorem Yields.look {l : ℓ} {f : σ → Except ε α} (h : ∀ s, I s → ∀ a, f s = .ok a → P a) : Yields I P (look l f) :=
  .atom fun s hs => .done (h s hs)

theorem Yields.bind {p : Prog σ ℓ ε α} {f : α → Prog σ ℓ ε β} (hp : Yields I P p) (hf : ∀ a, P a → Yields I Q (f a)) :
    Yields I Q (p >>= f) := by
  induction hp with
  | @done r h =>
    cases r with
    | ok a => exact hf a (h a rfl)
    | error e => exact .done fun b hb => by cases hb
  | atom _ ih => exact .atom ih

theorem Yields.ite {c : Prop} [Decidable c] {p q : Prog σ ℓ ε α} (hp : c → Yields I P p) (hq : ¬ c → Yields I P q) :
    Yields I P (if c then p else q) := by
  split
  · exact hp ‹_›
  · exact hq ‹_›

/-- Every program comes to some value. -/
theorem Yields.any (p : Prog σ ℓ ε α) : Yields I (fun _ => True) p := by
  induction p with
  | done r => exact .done fun _ _ => trivial
  | atom l act k ih => exact .atom fun s _ => ih s

/-- What follows a program keeps to `G` for the values the program can come to. -/
theorem Sat.bind_yields {p : Prog σ ℓ ε α} {f : α → Prog σ ℓ ε β} (hp : Sat I G p) (hy : Yields I P p)
    (hf : ∀ a, P a → Sat I G (f a)) : Sat I G (p >>= f) := by
  induction hp with
  | done r =>
    cases hy with
    | done h =>
      cases r with
      | ok a => exact hf a (h a rfl)
      | error e => exact .done _
  | atom hact _ ih =>
    cases hy with
    | atom hk => exact .atom hact fun s hs => ih s hs (hk s hs)

/-! ### Errors -/

/-- `p.Fails F`: an error that `p` comes to satisfies `F`. -/
inductive Fails (F : ε → Prop) : Prog σ ℓ ε α → Prop where
  /-- The error satisfies `F`, where there is one. -/
  | done {r : Except ε α} : (∀ e, r = .error e → F e) → Fails F (.done r)
  /-- Whatever state the step finds, the rest comes to such an error. -/
  | atom {l : ℓ} {act : σ → σ} {k : σ → Prog σ ℓ ε α} : (∀ s, Fails F (k s)) → Fails F (.atom l act k)

variable {F : ε → Prop}

theorem Fails.pure (a : α) : Fails F (pure a : Prog σ ℓ ε α) := .done fun e he => by cases he

theorem Fails.throw {e : ε} (h : F e) : Fails F (throw e : Prog σ ℓ ε α) :=
  .done fun e' he => by rwa [← Except.error.inj he]

theorem Fails.look {l : ℓ} {f : σ → Except ε α} (h : ∀ s e, f s = .error e → F e) : Fails F (look l f) :=
  .atom fun s => .done (h s)

theorem Fails.attempt {l : ℓ} {body : σ → Except ε (α × σ)} (h : ∀ s e, body s = .error e → F e) :
    Fails F (attempt l body) := by
  refine .atom fun s => .done fun e he => h s e ?_
  cases hb : body s with
  | ok r => simp [hb, Except.map] at he
  | error e' => simpa [hb, Except.map] using he

theorem Fails.bind {p : Prog σ ℓ ε α} {f : α → Prog σ ℓ ε β} (hp : Fails F p) (hf : ∀ a, Fails F (f a)) :
    Fails F (p >>= f) := by
  induction hp with
  | @done r h =>
    cases r with
    | ok a => exact hf a
    | error e => exact .done fun e' he => h e' (by rw [Except.error.inj he])
  | atom _ ih => exact .atom ih

/-- The error a run ends with. -/
theorem Fails.run {p : Prog σ ℓ ε α} (h : Fails F p) {s s' : σ} {e : ε} (hrun : p.run s = (.error e, s')) : F e := by
  induction h generalizing s with
  | done h => exact h e (Prod.mk.inj hrun).1
  | atom _ ih => exact ih _ hrun

theorem Fails.atomic {l : ℓ} {abort : σ → σ → σ} {p : Prog σ ℓ ε α} (hp : Fails F p) : Fails F (atomic l abort p) :=
  .atom fun s => .done fun _ he => hp.run (s := s) (Prod.ext he rfl)

/-! ### What success needs -/

/-- `p.Needs E`: `p` does not succeed without taking a step that `E` describes,
by its label and the state it finds. -/
inductive Needs (E : ℓ → σ → Prop) : Prog σ ℓ ε α → Prop where
  /-- It has failed. -/
  | error (e : ε) : Needs E (.done (.error e))
  /-- Where the step is not one that `E` describes, the rest needs one. -/
  | atom {l : ℓ} {act : σ → σ} {k : σ → Prog σ ℓ ε α} :
      (∀ s, ¬ E l s → Needs E (k s)) → Needs E (.atom l act k)

variable {E : ℓ → σ → Prop}

theorem not_needs_ok (a : α) : ¬ Needs E (.done (.ok a) : Prog σ ℓ ε α) := by
  intro h
  cases h

theorem Needs.ite {c : Prop} [Decidable c] {p q : Prog σ ℓ ε α} (hp : c → Needs E p) (hq : ¬ c → Needs E q) :
    Needs E (if c then p else q) := by
  split
  · exact hp ‹_›
  · exact hq ‹_›

/-- A sequence needs what its first part needs. -/
theorem Needs.bind_left {p : Prog σ ℓ ε α} {f : α → Prog σ ℓ ε β} (hp : Needs E p) : Needs E (p >>= f) := by
  induction hp with
  | error e => exact .error e
  | atom _ ih => exact .atom ih

/-- A sequence needs what its second part needs, whatever value it starts from. -/
theorem Needs.bind_right {p : Prog σ ℓ ε α} {f : α → Prog σ ℓ ε β} (hf : ∀ a, Needs E (f a)) :
    Needs E (p >>= f) := by
  induction p with
  | done r =>
    cases r with
    | ok a => exact hf a
    | error e => exact .error e
  | atom l act k ih => exact .atom fun s _ => ih s

end Prog

/-! ### One program after another -/

section Sessions

variable {o : Type}

/-- Programs run one after another, each alone: every one with its result, and the
state they leave. -/
def Prog.session (exec : o → Prog σ ℓ ε α) : σ → List o → List (o × Except ε α) × σ
  | s, [] => ([], s)
  | s, op :: ops =>
    let (r, s') := (exec op).run s
    let (rs, s'') := Prog.session exec s' ops
    ((op, r) :: rs, s'')

theorem Prog.session_append (exec : o → Prog σ ℓ ε α) (s : σ) (ops more : List o) :
    Prog.session exec s (ops ++ more) =
      ((Prog.session exec s ops).1 ++ (Prog.session exec (Prog.session exec s ops).2 more).1,
        (Prog.session exec (Prog.session exec s ops).2 more).2) := by
  induction ops generalizing s with
  | nil => rfl
  | cons op ops ih => simp [Prog.session, ih]

/-- The programs of a session, in order. -/
theorem Prog.session_map_fst (exec : o → Prog σ ℓ ε α) (s : σ) (ops : List o) :
    (Prog.session exec s ops).1.map Prod.fst = ops := by
  induction ops generalizing s with
  | nil => rfl
  | cons op ops ih => simp [Prog.session, ih]

/-- A session is cut at any of its programs. -/
theorem Prog.session_cut (exec : o → Prog σ ℓ ε α) (s : σ) (before : List o) (op : o) (after : List o) :
    ∃ rest, rest.map Prod.fst = after ∧ (Prog.session exec s (before ++ op :: after)).1 =
      (Prog.session exec s before).1 ++ (op, ((exec op).run (Prog.session exec s before).2).1) :: rest := by
  refine ⟨_, Prog.session_map_fst exec ((exec op).run (Prog.session exec s before).2).2 after, ?_⟩
  rw [Prog.session_append]
  rfl


/-- **The run rule**: what holds of the beginning and is preserved by every program,
whatever came before it, holds of every session. -/
theorem Prog.session_invariant {exec : o → Prog σ ℓ ε α} {I : List (o × Except ε α) → σ → Prop} {s : σ}
    (hI : I [] s)
    (hstep : ∀ past s op, I past s → I (past ++ [(op, ((exec op).run s).1)]) ((exec op).run s).2)
    (ops : List o) : I (Prog.session exec s ops).1 (Prog.session exec s ops).2 := by
  have h : ∀ past s, I past s → I (past ++ (Prog.session exec s ops).1) (Prog.session exec s ops).2 := by
    induction ops with
    | nil => intro past s hp; simpa [Prog.session] using hp
    | cons op ops ih =>
      intro past s hp
      simpa [Prog.session] using ih _ _ (hstep past s op hp)
  exact h [] s hI

/-- Every event of the list satisfies `P` of the events before it. -/
def Explained {ev : Type} (P : List ev → ev → Prop) (t : List ev) : Prop :=
  ∀ before e after, t = before ++ e :: after → P before e

theorem Explained.nil {ev : Type} {P : List ev → ev → Prop} : Explained P [] := by
  intro before e after h
  simp at h

theorem explained_append {ev : Type} {P : List ev → ev → Prop} {t : List ev} {e : ev} :
    Explained P (t ++ [e]) ↔ Explained P t ∧ P t e := by
  constructor
  · intro h
    exact ⟨fun before e' after ht => h before e' (after ++ [e]) (by simp [ht]), h t e [] (by simp)⟩
  · rintro ⟨h, he⟩ before e' after ht
    rcases List.eq_nil_or_concat after with rfl | ⟨after, last, rfl⟩
    · obtain ⟨rfl, heq⟩ := List.append_inj' ht rfl
      rwa [← List.singleton_injective heq]
    · rw [List.concat_eq_append, ← List.cons_append, ← List.append_assoc] at ht
      exact h before e' after (List.append_inj' ht rfl).1

theorem explained_cons {ev : Type} {P : List ev → ev → Prop} {e : ev} {t : List ev} :
    Explained P (e :: t) ↔ P [] e ∧ Explained (fun before => P (e :: before)) t := by
  constructor
  · intro h
    exact ⟨h [] e t rfl, fun before e' after ht => h (e :: before) e' after (by rw [ht, List.cons_append])⟩
  · rintro ⟨he, h⟩ before e' after ht
    cases before with
    | nil =>
      rw [List.nil_append, List.cons.injEq] at ht
      rwa [← ht.1]
    | cons b before =>
      rw [List.cons_append, List.cons.injEq] at ht
      obtain ⟨rfl, ht⟩ := ht
      exact h before e' after ht

theorem Explained.left {ev : Type} {P : List ev → ev → Prop} {t₁ t₂ : List ev} (h : Explained P (t₁ ++ t₂)) :
    Explained P t₁ :=
  fun before e after ht => h before e (after ++ t₂) (by simp [ht])

/-- The run rule with a condition: a program preserves `I` where it is started in a state
that meets `C`, and the session is one whose programs all are. -/
theorem Prog.session_invariant_of {exec : o → Prog σ ℓ ε α} {I : List (o × Except ε α) → σ → Prop}
    {C : List (o × Except ε α) → σ → o → Prop} {s : σ} (hI : I [] s)
    (hstep : ∀ past s op, I past s → C past s op →
      I (past ++ [(op, ((exec op).run s).1)]) ((exec op).run s).2) {ops : List o}
    (hC : Explained (fun before op => C (Prog.session exec s before).1 (Prog.session exec s before).2 op) ops) :
    I (Prog.session exec s ops).1 (Prog.session exec s ops).2 := by
  induction ops using List.reverseRecOn with
  | nil => exact hI
  | append_singleton ops op ih =>
    obtain ⟨hold, hop⟩ := explained_append.mp hC
    rw [session_append]
    exact hstep _ _ op (ih hold) hop

end Sessions

/-! ### Interleavings -/

/-- A pool of programs on one state. -/
structure Config (σ ℓ ε α : Type) where
  /-- The state the programs share. -/
  state : σ
  /-- The programs, each as far as it has come. -/
  procs : List (Prog σ ℓ ε α)

/-- One step of a run: whose it was, its label, and the state it found. -/
structure Event (σ ℓ : Type) where
  /-- The index of the program. -/
  proc : ℕ
  /-- The step's label. -/
  label : ℓ
  /-- The state before the step. -/
  pre : σ

namespace Config

/-- Program `i` takes a step, if it has one to take. -/
def step (c : Config σ ℓ ε α) (i : ℕ) : Config σ ℓ ε α :=
  match c.procs[i]? with
  | some (.atom _ act k) => ⟨act c.state, c.procs.set i (k c.state)⟩
  | _ => c

/-- The programs take turns as the schedule says. -/
def exec (c : Config σ ℓ ε α) (sched : List ℕ) : Config σ ℓ ε α := sched.foldl step c

/-- The step program `i` would take. -/
def event (c : Config σ ℓ ε α) (i : ℕ) : Option (Event σ ℓ) :=
  match c.procs[i]? with
  | some (.atom l _ _) => some ⟨i, l, c.state⟩
  | _ => none

/-- The steps of a run, in order. -/
def trace : Config σ ℓ ε α → List ℕ → List (Event σ ℓ)
  | _, [] => []
  | c, i :: is => (c.event i).toList ++ trace (c.step i) is

/-- What program `i` has come to: its value or its error, once it has finished. -/
def result (c : Config σ ℓ ε α) (i : ℕ) : Option (Except ε α) :=
  match c.procs[i]? with
  | some (.done r) => some r
  | _ => none

@[simp] theorem exec_nil (c : Config σ ℓ ε α) : c.exec [] = c := rfl

@[simp] theorem exec_cons (c : Config σ ℓ ε α) (i : ℕ) (is : List ℕ) :
    c.exec (i :: is) = (c.step i).exec is := rfl

theorem exec_append (c : Config σ ℓ ε α) (is js : List ℕ) : c.exec (is ++ js) = (c.exec is).exec js :=
  List.foldl_append

@[simp] theorem trace_cons (c : Config σ ℓ ε α) (i : ℕ) (is : List ℕ) :
    c.trace (i :: is) = (c.event i).toList ++ (c.step i).trace is := rfl

theorem trace_append (c : Config σ ℓ ε α) (is js : List ℕ) :
    c.trace (is ++ js) = c.trace is ++ (c.exec is).trace js := by
  induction is generalizing c with
  | nil => rfl
  | cons i is ih => simp [ih, List.append_assoc]

/-- **What a turn does**: program `i` takes the atomic step it is at, or nothing
happens. -/
theorem step_cases (c : Config σ ℓ ε α) (i : ℕ) :
    (c.step i = c ∧ c.event i = none) ∨
      ∃ l act k, c.procs[i]? = some (.atom l act k) ∧ c.event i = some ⟨i, l, c.state⟩ ∧
        c.step i = ⟨act c.state, c.procs.set i (k c.state)⟩ := by
  unfold step event
  rcases hp : c.procs[i]? with _ | ⟨r⟩ | ⟨l, act, k⟩
  · exact .inl ⟨rfl, rfl⟩
  · exact .inl ⟨rfl, rfl⟩
  · exact .inr ⟨l, act, k, rfl, rfl, rfl⟩

/-- What is in a list after one place is overwritten. -/
private theorem getElem?_set_cases {γ : Type} {l : List γ} {i j : ℕ} {a b : γ}
    (h : (l.set i a)[j]? = some b) : (j = i ∧ b = a) ∨ (j ≠ i ∧ l[j]? = some b) := by
  by_cases hij : i = j
  · subst hij
    rw [List.getElem?_set] at h
    simp only [↓reduceIte] at h
    split at h
    · exact .inl ⟨rfl, (Option.some.inj h).symm⟩
    · cases h
  · rw [List.getElem?_set_ne hij] at h
    exact .inr ⟨Ne.symm hij, h⟩

/-- **The invariant rule.** If every program keeps to the guarantee `G` from
states satisfying `I`, and a step that `G` allows preserves `I` when its label
and the state it finds meet the condition `C`, then `I` holds after every
interleaving all of whose steps meet `C`. -/
theorem exec_invariant {I : σ → Prop} {G : ℓ → σ → σ → Prop} {C : ℓ → σ → Prop}
    (hG : ∀ l s s', I s → G l s s' → C l s → I s') {c : Config σ ℓ ε α}
    (hsat : ∀ p ∈ c.procs, p.Sat I G) (hI : I c.state) {sched : List ℕ}
    (hC : ∀ e ∈ c.trace sched, C e.label e.pre) : I (c.exec sched).state := by
  induction sched generalizing c with
  | nil => exact hI
  | cons i is ih =>
    rw [trace_cons] at hC
    rw [exec_cons]
    rcases c.step_cases i with ⟨hstep, -⟩ | ⟨l, act, k, hp, hev, hstep⟩
    · rw [hstep] at hC ⊢
      exact ih hsat hI fun e he => hC e (List.mem_append_right _ he)
    · have hatom := hsat _ (List.mem_of_getElem? hp)
      cases hatom with
      | atom hact hk =>
        have hCi := hC ⟨i, l, c.state⟩ (by simp [hev])
        refine ih ?_ ?_ fun e he => hC e (List.mem_append_right _ he)
        · intro p hmem
          rw [hstep] at hmem
          rcases List.mem_or_eq_of_mem_set hmem with hold | rfl
          · exact hsat p hold
          · exact hk _ hI
        · rw [hstep]
          exact hG l _ _ hI (hact _ hI) hCi

/-- The programs of a pool that can no longer need a step of kind `E`: the flag
`Up` is up, and it is the only such program among those in `S`. -/
def Spent (E : ℓ → σ → Prop) (Up : σ → Prop) (S : ℕ → Prop) (c : Config σ ℓ ε α) : Prop :=
  (∀ i p, S i → c.procs[i]? = some p → ¬ p.Needs E → Up c.state) ∧
    ∀ i j p q, S i → S j → c.procs[i]? = some p → c.procs[j]? = some q →
      ¬ p.Needs E → ¬ q.Needs E → i = j

/-- A turn preserves `Spent`, when a step of kind `E` is taken only while the
flag is down and raises it, and no step lowers it. -/
theorem Spent.step {E : ℓ → σ → Prop} {Up : σ → Prop} {S : ℕ → Prop} {c : Config σ ℓ ε α}
    (h : Spent E Up S c)
    (hraise : ∀ i (p : Prog σ ℓ ε α), c.procs[i]? = some p →
      p.Sat (fun _ => True) fun l s s' => (S i → E l s → Up s') ∧ (Up s → Up s')) {i : ℕ}
    (hE : ∀ e ∈ c.event i, E e.label e.pre → ¬ Up e.pre) : Spent E Up S (c.step i) := by
  obtain ⟨hup, huniq⟩ := h
  rcases c.step_cases i with ⟨hstep, -⟩ | ⟨l, act, k, hp, hev, hstep⟩
  · rw [hstep]
    exact ⟨hup, huniq⟩
  have hEi : E l c.state → ¬ Up c.state := hE ⟨i, l, c.state⟩ hev
  obtain ⟨hEup, hkeep⟩ : (S i → E l c.state → Up (act c.state)) ∧ (Up c.state → Up (act c.state)) := by
    cases hraise i _ hp with
    | atom hact _ => exact hact _ trivial
  -- the program that took the step needed one before it, unless it had taken one
  have hmoved : ¬ (k c.state).Needs E → E l c.state ∨ ¬ (Prog.atom l act k).Needs E := by
    intro hk
    by_cases hEl : E l c.state
    · exact .inl hEl
    · refine .inr fun hatom => hk ?_
      cases hatom with
      | atom hrest => exact hrest c.state hEl
  rw [hstep]
  refine ⟨fun j p hj hpj hn => ?_, fun j₁ j₂ p q hj₁ hj₂ hp₁ hp₂ hn₁ hn₂ => ?_⟩
  · rcases getElem?_set_cases hpj with ⟨rfl, rfl⟩ | ⟨-, hpj⟩
    · rcases hmoved hn with hEl | hold
      · exact hEup hj hEl
      · exact hkeep (hup _ _ hj hp hold)
    · exact hkeep (hup j p hj hpj hn)
  · rcases getElem?_set_cases hp₁ with ⟨rfl, rfl⟩ | ⟨-, hq₁⟩ <;>
      rcases getElem?_set_cases hp₂ with ⟨rfl, rfl⟩ | ⟨-, hq₂⟩
    · rfl
    · rcases hmoved hn₁ with hEl | hold
      · exact absurd (hup _ _ hj₂ hq₂ hn₂) (hEi hEl)
      · exact huniq _ _ _ _ hj₁ hj₂ hp hq₂ hold hn₂
    · rcases hmoved hn₂ with hEl | hold
      · exact absurd (hup _ _ hj₁ hq₁ hn₁) (hEi hEl)
      · exact huniq _ _ _ _ hj₁ hj₂ hq₁ hp hn₁ hold
    · exact huniq _ _ _ _ hj₁ hj₂ hq₁ hq₂ hn₁ hn₂

/-- Programs keep to their guarantees as the pool runs, each to its own. -/
theorem step_sat {I : σ → Prop} {G : ℕ → ℓ → σ → σ → Prop} {c : Config σ ℓ ε α}
    (hsat : ∀ i (p : Prog σ ℓ ε α), c.procs[i]? = some p → p.Sat I (G i)) (hI : I c.state) (j : ℕ) :
    ∀ i (p : Prog σ ℓ ε α), (c.step j).procs[i]? = some p → p.Sat I (G i) := by
  rcases c.step_cases j with ⟨hstep, -⟩ | ⟨l, act, k, hp, -, hstep⟩
  · rw [hstep]
    exact hsat
  · rw [hstep]
    intro i p hpi
    rcases getElem?_set_cases hpi with ⟨rfl, rfl⟩ | ⟨-, hold⟩
    · cases hsat _ _ hp with
      | atom _ hk => exact hk _ hI
    · exact hsat i p hold

/-- So they do in every state of a run. -/
theorem exec_sat {G : ℕ → ℓ → σ → σ → Prop} {c : Config σ ℓ ε α}
    (hsat : ∀ i (p : Prog σ ℓ ε α), c.procs[i]? = some p → p.Sat (fun _ => True) (G i)) (sched : List ℕ) :
    ∀ i (p : Prog σ ℓ ε α), (c.exec sched).procs[i]? = some p → p.Sat (fun _ => True) (G i) := by
  induction sched generalizing c with
  | nil => exact hsat
  | cons j js ih => exact ih (step_sat hsat trivial j)

/-- **A step that was taken**: it is one of a turn of the run, and did what its program
guarantees. -/
theorem trace_cases {G : ℕ → ℓ → σ → σ → Prop} {c : Config σ ℓ ε α}
    (hsat : ∀ i (p : Prog σ ℓ ε α), c.procs[i]? = some p → p.Sat (fun _ => True) (G i)) {sched : List ℕ} {e : Event σ ℓ}
    (he : e ∈ c.trace sched) : ∃ before after, sched = before ++ e.proc :: after ∧ (c.exec before).state = e.pre ∧
      G e.proc e.label e.pre (c.exec (before ++ [e.proc])).state := by
  induction sched generalizing c with
  | nil => cases he
  | cons j js ih =>
    rw [trace_cons] at he
    rcases List.mem_append.mp he with he | he
    · rcases c.step_cases j with ⟨-, hnone⟩ | ⟨l, act, k, hp, hev, hstep⟩
      · rw [hnone] at he
        cases he
      · rw [hev, Option.toList_some, List.mem_singleton] at he
        subst he
        refine ⟨[], js, rfl, rfl, ?_⟩
        show G j l c.state (c.step j).state
        rw [hstep]
        cases hsat _ _ hp with
        | atom hact _ => exact hact _ trivial
    · obtain ⟨before, after, rfl, hpre, hG⟩ := ih (step_sat hsat trivial j) he
      exact ⟨j :: before, after, rfl, hpre, hG⟩

/-- A program that has succeeded has taken the step it needs. -/
theorem needs_event {E : ℓ → σ → Prop} {c : Config σ ℓ ε α} {sched : List ℕ} {i : ℕ} {a : α}
    (hneeds : ∀ p, c.procs[i]? = some p → p.Needs E) (hresult : (c.exec sched).result i = some (.ok a)) :
    ∃ e ∈ c.trace sched, e.proc = i ∧ E e.label e.pre := by
  induction sched generalizing c with
  | nil =>
    unfold result at hresult
    split at hresult
    · next r hr =>
      rw [Option.some.inj hresult] at hr
      exact absurd (hneeds _ hr) (Prog.not_needs_ok a)
    · cases hresult
  | cons j js ih =>
    rcases c.step_cases j with ⟨hstep, -⟩ | ⟨l, act, k, hp, hev, hstep⟩
    · rw [exec_cons, hstep] at hresult
      obtain ⟨e, he, hproc, hE⟩ := ih hneeds hresult
      rw [trace_cons, hstep]
      exact ⟨e, List.mem_append_right _ he, hproc, hE⟩
    · by_cases hE : j = i ∧ E l c.state
      · obtain ⟨rfl, hE⟩ := hE
        exact ⟨⟨j, l, c.state⟩, by simp [hev], rfl, hE⟩
      · -- the program still needs the step
        have hstill : ∀ p, (c.step j).procs[i]? = some p → p.Needs E := by
          intro p hpi
          rw [hstep] at hpi
          rcases getElem?_set_cases hpi with ⟨rfl, rfl⟩ | ⟨-, hold⟩
          · cases hneeds _ hp with
            | atom hk => exact hk _ fun h => hE ⟨rfl, h⟩
          · exact hneeds _ hold
        obtain ⟨e, he, hproc, hE'⟩ := ih hstill hresult
        exact ⟨e, List.mem_append_right _ he, hproc, hE'⟩

/-- **At most one success.** The programs in `S` each need a step of kind `E` to
succeed; every step keeps the flag up once it is up, and one of kind `E`, of a program in
`S`, raises it. Then in a run where steps of kind `E` are taken only while the flag is down,
at most one of them succeeds. -/
theorem success_unique {E : ℓ → σ → Prop} {Up : σ → Prop} {S : ℕ → Prop} {c : Config σ ℓ ε α}
    (hneeds : ∀ i p, S i → c.procs[i]? = some p → p.Needs E)
    (hraise : ∀ i (p : Prog σ ℓ ε α), c.procs[i]? = some p →
      p.Sat (fun _ => True) fun l s s' => (S i → E l s → Up s') ∧ (Up s → Up s'))
    {sched : List ℕ} (hE : ∀ e ∈ c.trace sched, E e.label e.pre → ¬ Up e.pre) {i j : ℕ} {a b : α}
    (hi : S i) (hj : S j) (hri : (c.exec sched).result i = some (.ok a))
    (hrj : (c.exec sched).result j = some (.ok b)) : i = j := by
  have hspent : Spent E Up S (c.exec sched) := by
    have h₀ : Spent E Up S c :=
      ⟨fun i p hSi hp hn => absurd (hneeds i p hSi hp) hn,
        fun i _ p _ hSi _ hp _ hn _ => absurd (hneeds i p hSi hp) hn⟩
    clear hneeds hri hrj
    induction sched generalizing c with
    | nil => exact h₀
    | cons k ks ih =>
      rw [trace_cons] at hE
      exact ih (step_sat hraise trivial k) (fun e he => hE e (List.mem_append_right _ he))
        (h₀.step hraise fun e he => hE e (List.mem_append_left _ (by simpa using he)))
  have hdone : ∀ {n : ℕ} {v : α}, (c.exec sched).result n = some (.ok v) →
      (c.exec sched).procs[n]? = some (.done (.ok v)) := by
    intro n v h
    unfold result at h
    split at h
    · next r hr => rw [hr, Option.some.inj h]
    · cases h
  exact hspent.2 i j _ _ hi hj (hdone hri) (hdone hrj) (Prog.not_needs_ok a) (Prog.not_needs_ok b)

end Config

end MiniVault.Foundations
