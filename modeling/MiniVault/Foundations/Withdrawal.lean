import MiniVault.Foundations.Interference

/-!
# A resource that may be withdrawn

Programs need something that can be taken away from them at any time: a key in memory, a
lease, a connection. What is wanted of a program is that it does all of what it does or
nothing: whenever the resource goes, the program either ends as it would have without that,
or it fails for the lack of it and the store is as it was.

## The model

* `Withdraws δ` — the state is as it was, or without the resource; `δ` takes it away.
* `Prog.Blind δ` — a program that does not depend on the resource.
* `Prog.Stops δ e` — a program alone that, without the resource, does the same or fails
  with `e`.
* `Prog.AllOrNothing δ e f` — among withdrawals, the program does what it does alone, or
  fails with `e` and leaves the part `f` of the state.

## What is proved

* `AllOrNothing.bind`, `AllOrNothing.bind_blind` — a sequence is all or nothing, where its
  first part leaves the store or its second does not depend on the resource.
* `AllOrNothing.transaction` — so is a transaction that may fail for the lack of it.
* `Config.exec_allOrNothing` — and so is a program in a pool of withdrawals.
-/

namespace MiniVault.Foundations

variable {σ ℓ ε α β γ : Type} {δ : σ → σ} {e : ε} {f : σ → γ}

/-- The state is as it was, or the resource was withdrawn from it. -/
def Withdraws (δ : σ → σ) (s s' : σ) : Prop := s' = s ∨ s' = δ s

theorem Withdraws.refl (s : σ) : Withdraws δ s s := .inl rfl

theorem Withdraws.trans (hδ : ∀ s, δ (δ s) = δ s) {s t u : σ} (h₁ : Withdraws δ s t) (h₂ : Withdraws δ t u) :
    Withdraws δ s u := by
  rcases h₁ with rfl | rfl <;> rcases h₂ with rfl | rfl
  · exact .inl rfl
  · exact .inr rfl
  · exact .inr rfl
  · exact .inr (hδ s)

/-- What does not depend on the resource is as it was. -/
theorem Withdraws.frame (hf : ∀ s, f (δ s) = f s) {s s' : σ} (h : Withdraws δ s s') : f s' = f s := by
  rcases h with rfl | rfl
  · rfl
  · exact hf s

namespace Prog

/-! ### Programs that do not depend on it -/

/-- No step of the program depends on the resource. -/
inductive Blind (δ : σ → σ) : Prog σ ℓ ε α → Prop where
  /-- It has finished. -/
  | done (r : Except ε α) : Blind δ (.done r)
  /-- The step and what follows it are the same without the resource. -/
  | atom {l : ℓ} {act : σ → σ} {k : σ → Prog σ ℓ ε α} :
      (∀ s, act (δ s) = δ (act s)) → (∀ s, k (δ s) = k s) → (∀ s, Blind δ (k s)) → Blind δ (.atom l act k)

section Blind

variable {p : Prog σ ℓ ε α} {s s' : σ} {r : Except ε α}

theorem Blind.throw (e : ε) : Blind δ (throw e : Prog σ ℓ ε α) := .done _

theorem Blind.look {l : ℓ} {g : σ → Except ε α} (h : ∀ s, g (δ s) = g s) : Blind δ (look l g) :=
  .atom (fun _ => rfl) (fun s => congrArg Prog.done (h s)) fun _ => .done _

theorem Blind.change {l : ℓ} {act : σ → σ} (h : ∀ s, act (δ s) = δ (act s)) :
    Blind δ (change l act : Prog σ ℓ ε Unit) :=
  .atom h (fun _ => rfl) fun _ => .done _

theorem Blind.bind {g : α → Prog σ ℓ ε β} (hp : p.Blind δ) (hg : ∀ a, (g a).Blind δ) : (p >>= g).Blind δ := by
  induction hp with
  | done r =>
    cases r with
    | ok a => exact hg a
    | error e => exact .done _
  | atom hact hk _ ih => exact .atom hact (fun s => congrArg (·.bind g) (hk s)) ih

theorem Blind.handle {h : ε → Prog σ ℓ ε α} (hp : p.Blind δ) (hh : ∀ e, (h e).Blind δ) : (tryCatch p h).Blind δ := by
  induction hp with
  | done r =>
    cases r with
    | ok a => exact .done _
    | error e => exact hh e
  | atom hact hk _ ih => exact .atom hact (fun s => congrArg (·.handle h) (hk s)) ih

theorem Blind.ite {c : Prop} [Decidable c] {q : Prog σ ℓ ε α} (hp : p.Blind δ) (hq : q.Blind δ) :
    (if c then p else q).Blind δ := by
  split
  · exact hp
  · exact hq

/-- Alone, it does the same without the resource. -/
theorem Blind.run (hp : p.Blind δ) (s : σ) : p.run (δ s) = ((p.run s).1, δ (p.run s).2) := by
  induction hp generalizing s with
  | done r => rfl
  | @atom l act k hact hk _ ih =>
    show (k (δ s)).run (act (δ s)) = _
    rw [hact, hk]
    exact ih s (act s)

/-- So does a transaction of such a program. -/
theorem Blind.atomic {l : ℓ} {abort : σ → σ → σ} (hp : p.Blind δ) (habort : ∀ s s', abort (δ s) (δ s') = δ (abort s s')) :
    (Prog.atomic l abort p).Blind δ := by
  refine .atom (fun s => ?_) (fun s => ?_) fun _ => .done _
  · rw [hp.run s]
    rcases p.run s with ⟨e | a, s'⟩
    · exact habort s s'
    · rfl
  · rw [hp.run s]

/-- Among withdrawals it does what it does alone. -/
theorem Blind.among (hδ : ∀ s, δ (δ s) = δ s) (hp : p.Blind δ) (h : p.Among (Withdraws δ) s r s') :
    r = (p.run s).1 ∧ Withdraws δ (p.run s).2 s' := by
  induction hp generalizing s with
  | done r₀ =>
    obtain ⟨rfl, hs⟩ := among_done.mp h
    exact ⟨rfl, hs⟩
  | @atom l act k hact hk _ ih =>
    obtain ⟨s₁, hs₁, hrest⟩ := among_atom.mp h
    rcases hs₁ with rfl | rfl
    · exact ih s₁ hrest
    · -- the resource was gone before the step
      rw [hk, hact] at hrest
      exact ih s (hrest.before (fun _ _ _ => .trans hδ) (.inr rfl))

end Blind

/-! ### Programs that stop without it -/

/-- Alone and without the resource, the program does the same or fails with `e`. -/
def Stops (δ : σ → σ) (e : ε) (p : Prog σ ℓ ε α) : Prop :=
  ∀ s, p.run (δ s) = ((p.run s).1, δ (p.run s).2) ∨ (p.run (δ s)).1 = .error e

section Stops

variable {p : Prog σ ℓ ε α}

theorem Blind.stops (h : p.Blind δ) : p.Stops δ e := fun s => .inl (h.run s)

/-- A look for the resource. -/
theorem Stops.look {l : ℓ} {g : σ → Except ε α} (h : ∀ s, g (δ s) = .error e) : (look l g).Stops δ e :=
  fun s => .inr (h s)

theorem Stops.bind {g : α → Prog σ ℓ ε β} (hp : p.Stops δ e) (hg : ∀ a, (g a).Stops δ e) : (p >>= g).Stops δ e := by
  intro s
  rcases hp s with hsame | hfail
  · rcases hrun : p.run s with ⟨e' | a, s₁⟩ <;> rw [hrun] at hsame
    · refine .inl ?_
      rw [run_bind_error hrun, run_bind_error hsame]
    · rw [run_bind_ok hrun, run_bind_ok hsame]
      exact hg a s₁
  · refine .inr ?_
    rcases hrun : p.run (δ s) with ⟨e' | a, s₁⟩ <;> rw [hrun] at hfail
    · rw [run_bind_error hrun]
      exact congrArg Except.error (Except.error.inj hfail)
    · cases hfail

end Stops

/-! ### All or nothing -/

/-- Among withdrawals the program does what it does alone, or fails with `e` and leaves the part `f`. -/
def AllOrNothing (δ : σ → σ) (e : ε) (f : σ → γ) (p : Prog σ ℓ ε α) : Prop :=
  ∀ s r s', p.Among (Withdraws δ) s r s' →
    (r = (p.run s).1 ∧ Withdraws δ (p.run s).2 s') ∨ (r = .error e ∧ f s' = f s)

section AllOrNothing

variable {p : Prog σ ℓ ε α}

theorem Blind.allOrNothing (hδ : ∀ s, δ (δ s) = δ s) (h : p.Blind δ) : p.AllOrNothing δ e f :=
  fun _ _ _ hamong => .inl (h.among hδ hamong)

/-- A look for the resource. -/
theorem AllOrNothing.look (hf : ∀ s, f (δ s) = f s) {l : ℓ} {g : σ → Except ε α} (h : ∀ s, g (δ s) = .error e) :
    (look l g).AllOrNothing δ e f := by
  intro s r s' hamong
  obtain ⟨s₁, hs₁, hdone⟩ := among_atom.mp hamong
  obtain ⟨rfl, hs'⟩ := among_done.mp hdone
  rcases hs₁ with rfl | rfl
  · exact .inl ⟨rfl, hs'⟩
  · exact .inr ⟨h s, (hs'.frame hf).trans (hf s)⟩

/-- **A transaction** whose failure leaves the store. -/
theorem AllOrNothing.transaction (hδ : ∀ s, δ (δ s) = δ s) (hf : ∀ s, f (δ s) = f s) {l : ℓ} {abort : σ → σ → σ}
    (hp : p.Stops δ e) (habort : ∀ s s', abort (δ s) (δ s') = δ (abort s s')) (hleave : ∀ s s', f (abort s s') = f s) :
    (Prog.atomic l abort p).AllOrNothing δ e f := by
  intro s r s' hamong
  obtain ⟨s₁, hs₁, hdone⟩ := among_atom.mp hamong
  obtain ⟨rfl, hs'⟩ := among_done.mp hdone
  rcases hs₁ with rfl | rfl
  · exact .inl ⟨rfl, hs'⟩
  rcases hp s with hsame | hfail
  · -- the transaction does the same without the resource
    rw [hsame] at hs' ⊢
    rw [run_atomic]
    rcases hrun : p.run s with ⟨e' | a, s₁⟩ <;> rw [hrun] at hs'
    · refine .inl ⟨rfl, .trans hδ (.inr rfl) ?_⟩
      rw [← habort]
      exact hs'
    · exact .inl ⟨rfl, .trans hδ (.inr rfl) hs'⟩
  · refine .inr ⟨hfail, ?_⟩
    rcases hrun : p.run (δ s) with ⟨e' | a, s₁⟩ <;> rw [hrun] at hs' hfail
    · rw [hs'.frame hf, hleave, hf]
    · cases hfail

/-- **A sequence** whose first part leaves the store where it succeeds. -/
theorem AllOrNothing.bind (hδ : ∀ s, δ (δ s) = δ s) {g : α → Prog σ ℓ ε β} (hp : p.AllOrNothing δ e f)
    (hkeep : ∀ s a s', p.run s = (.ok a, s') → f s' = f s) (hg : ∀ a, (g a).AllOrNothing δ e f) :
    (p >>= g).AllOrNothing δ e f := by
  intro s r s' hamong
  rcases hamong.bind_cases Withdraws.refl with ⟨e', rfl, hfail⟩ | ⟨a, s₁, hok, hrest⟩
  · rcases hp s _ s' hfail with ⟨hr, hs'⟩ | ⟨hr, hs'⟩
    · rw [run_bind_error (Prod.ext hr.symm rfl)]
      exact .inl ⟨rfl, hs'⟩
    · exact .inr ⟨congrArg Except.error (Except.error.inj hr), hs'⟩
  · rcases hp s _ s₁ hok with ⟨hr, hs₁⟩ | ⟨hr, -⟩
    · -- where the first part ended alone, the withdrawals are still to come
      have hrun : p.run s = (.ok a, (p.run s).2) := Prod.ext hr.symm rfl
      rw [run_bind_ok hrun]
      rcases hg a _ r s' (hrest.before (fun _ _ _ => .trans hδ) hs₁) with hall | ⟨hr', hs'⟩
      · exact .inl hall
      · exact .inr ⟨hr', hs'.trans (hkeep s a _ hrun)⟩
    · cases hr

/-- **A sequence** whose second part does not depend on the resource. -/
theorem AllOrNothing.bind_blind (hδ : ∀ s, δ (δ s) = δ s) {g : α → Prog σ ℓ ε β} (hp : p.AllOrNothing δ e f)
    (hg : ∀ a, (g a).Blind δ) : (p >>= g).AllOrNothing δ e f := by
  intro s r s' hamong
  rcases hamong.bind_cases Withdraws.refl with ⟨e', rfl, hfail⟩ | ⟨a, s₁, hok, hrest⟩
  · rcases hp s _ s' hfail with ⟨hr, hs'⟩ | ⟨hr, hs'⟩
    · rw [run_bind_error (Prod.ext hr.symm rfl)]
      exact .inl ⟨rfl, hs'⟩
    · exact .inr ⟨congrArg Except.error (Except.error.inj hr), hs'⟩
  · rcases hp s _ s₁ hok with ⟨hr, hs₁⟩ | ⟨hr, -⟩
    · rw [run_bind_ok (Prod.ext hr.symm rfl)]
      exact .inl ((hg a).among hδ (hrest.before (fun _ _ _ => .trans hδ) hs₁))
    · cases hr

/-- **Exceptions that are turned into others**, where the lack of the resource is not. -/
theorem AllOrNothing.handle {turn : ε → ε} (hp : p.AllOrNothing δ e f) (hturn : turn e = e) :
    (tryCatch p fun x => throw (turn x)).AllOrNothing δ e f := by
  have hcases : ∀ {p : Prog σ ℓ ε α} {s s' r}, (tryCatch p fun x => throw (turn x)).Among (Withdraws δ) s r s' →
      ∃ r₀, p.Among (Withdraws δ) s r₀ s' ∧ r = r₀.mapError turn := by
    intro p
    induction p with
    | done r₀ =>
      intro s s' r h
      refine ⟨r₀, ?_⟩
      cases r₀ <;> obtain ⟨rfl, hs⟩ := among_done.mp h <;> exact ⟨.done hs, rfl⟩
    | atom l act k ih =>
      intro s s' r h
      obtain ⟨s₁, hs₁, hk⟩ := among_atom.mp h
      obtain ⟨r₀, hr₀, hr⟩ := ih s₁ hk
      exact ⟨r₀, .atom hs₁ hr₀, hr⟩
  intro s r s' hamong
  obtain ⟨r₀, hr₀, rfl⟩ := hcases hamong
  rcases hp s r₀ s' hr₀ with ⟨hr, hs'⟩ | ⟨rfl, hs'⟩
  · refine .inl ?_
    rw [run_handle]
    rcases hrun : p.run s with ⟨e' | a, s₁⟩ <;> rw [hrun] at hr hs' <;> rw [hr]
    · exact ⟨rfl, hs'⟩
    · exact ⟨rfl, hs'⟩
  · exact .inr ⟨congrArg Except.error hturn, hs'⟩

theorem AllOrNothing.ite {c : Prop} [Decidable c] {q : Prog σ ℓ ε α} (hp : p.AllOrNothing δ e f)
    (hq : q.AllOrNothing δ e f) : (if c then p else q).AllOrNothing δ e f := by
  split
  · exact hp
  · exact hq

end AllOrNothing

end Prog

/-- **In a pool of withdrawals** a program is all or nothing. -/
theorem Config.exec_allOrNothing (hδ : ∀ s, δ (δ s) = δ s) {c : Config σ ℓ ε α} {p : Prog σ ℓ ε α} {i : ℕ}
    (hp : c.procs[i]? = some p) (hall : p.AllOrNothing δ e f)
    (hothers : ∀ j q, j ≠ i → c.procs[j]? = some q → q.Sat (fun _ => True) fun _ => Withdraws δ) {sched : List ℕ}
    {r : Except ε α} (hr : (c.exec sched).result i = some r) :
    (r = (p.run c.state).1 ∧ Withdraws δ (p.run c.state).2 (c.exec sched).state) ∨
      (r = .error e ∧ f (c.exec sched).state = f c.state) := by
  exact hall _ _ _ (exec_among (I := fun _ => True) Withdraws.refl (fun _ _ _ => .trans hδ) hp trivial
    (Prog.Sat.any fun _ _ => trivial) (fun j q hj hq => (hothers j q hj hq).mono (fun _ => id) fun _ _ _ h => ⟨trivial, h⟩) hr)

end MiniVault.Foundations
