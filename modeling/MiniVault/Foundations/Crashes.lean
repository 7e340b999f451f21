import MiniVault.Foundations.Programs

/-!
# Programs that stop

A process can be stopped between any two of its steps. What it has done by then stays
done, as far as the state says so; what was to come is lost.

## The model

* `Prog.steps` — how many steps a program takes alone.
* `Prog.stopAfter` — the state it leaves when it is stopped after so many of them.

## What is proved

* `stopAfter_of_le` — a program that is stopped after its last step was not stopped.
* `stopAfter_bind`, `stopAfter_handle` — a sequence is stopped in its first part, or in its second.
* `stopAfter_invariant` — what every step preserves holds wherever the program is stopped.
-/

namespace MiniVault.Foundations.Prog

variable {σ ℓ ε α β : Type}

/-- The number of steps the program takes alone. -/
def steps : Prog σ ℓ ε α → σ → ℕ
  | .done _, _ => 0
  | .atom _ act k, s => (k s).steps (act s) + 1

/-- The state the program leaves when it is stopped after `n` steps, or has ended before. -/
def stopAfter : Prog σ ℓ ε α → ℕ → σ → σ
  | .done _, _, s => s
  | .atom _ _ _, 0, s => s
  | .atom _ act k, n + 1, s => (k s).stopAfter n (act s)

@[simp] theorem steps_done (r : Except ε α) (s : σ) : (Prog.done r : Prog σ ℓ ε α).steps s = 0 := rfl

@[simp] theorem steps_look (l : ℓ) (f : σ → Except ε α) (s : σ) : (look l f).steps s = 1 := rfl

@[simp] theorem steps_change (l : ℓ) (act : σ → σ) (s : σ) : (change l act : Prog σ ℓ ε Unit).steps s = 1 := rfl

@[simp] theorem steps_attempt (l : ℓ) (body : σ → Except ε (α × σ)) (s : σ) : (attempt l body).steps s = 1 := rfl

@[simp] theorem stopAfter_zero (p : Prog σ ℓ ε α) (s : σ) : p.stopAfter 0 s = s := by
  cases p <;> rfl

/-- **A program that is stopped after its last step** has done all it does. -/
theorem stopAfter_of_le {p : Prog σ ℓ ε α} {n : ℕ} {s : σ} (h : p.steps s ≤ n) : p.stopAfter n s = (p.run s).2 := by
  induction p generalizing n s with
  | done r => rfl
  | atom l act k ih =>
    cases n with
    | zero => simp [steps] at h
    | succ n => exact ih s (Nat.le_of_succ_le_succ h)

/-- **A sequence is stopped in its first part, or in its second.** -/
theorem stopAfter_bind (p : Prog σ ℓ ε α) (f : α → Prog σ ℓ ε β) (n : ℕ) (s : σ) :
    (p >>= f).stopAfter n s =
      if n ≤ p.steps s then p.stopAfter n s
      else match p.run s with
        | (.ok a, s') => (f a).stopAfter (n - p.steps s) s'
        | (.error _, s') => s' := by
  induction p generalizing n s with
  | done r =>
    cases r with
    | ok a =>
      show (f a).stopAfter n s = _
      rcases Nat.eq_zero_or_pos n with rfl | hn
      · simp [stopAfter]
      · rw [if_neg (by simpa [steps] using Nat.ne_of_gt hn)]
        rfl
    | error e =>
      show (Prog.done (.error e) : Prog σ ℓ ε β).stopAfter n s = _
      split_ifs <;> rfl
  | atom l act k ih =>
    cases n with
    | zero => rfl
    | succ n =>
      show ((k s) >>= f).stopAfter n (act s) = _
      rw [ih]
      simp only [steps, Nat.add_le_add_iff_right, stopAfter, run, Nat.add_sub_add_right]

/-- The steps of a sequence whose first part succeeds. -/
theorem steps_bind_ok {p : Prog σ ℓ ε α} {s s' : σ} {a : α} (h : p.run s = (.ok a, s')) (f : α → Prog σ ℓ ε β) :
    (p >>= f).steps s = p.steps s + (f a).steps s' := by
  induction p generalizing s with
  | done r =>
    obtain ⟨rfl, rfl⟩ := run_done_eq_ok.mp h
    exact (Nat.zero_add _).symm
  | atom l act k ih =>
    show ((k s) >>= f).steps (act s) + 1 = (k s).steps (act s) + 1 + _
    rw [ih s h]
    omega

/-- Stopped before its first part is over, a sequence is stopped there. -/
theorem stopAfter_bind_le {p : Prog σ ℓ ε α} {s : σ} {n : ℕ} (h : n ≤ p.steps s) (f : α → Prog σ ℓ ε β) :
    (p >>= f).stopAfter n s = p.stopAfter n s := by
  rw [stopAfter_bind, if_pos h]

/-- Stopped later, it is stopped in its second part. -/
theorem stopAfter_bind_ok {p : Prog σ ℓ ε α} {s s' : σ} {a : α} {n : ℕ} (hrun : p.run s = (.ok a, s'))
    (h : p.steps s ≤ n) (f : α → Prog σ ℓ ε β) : (p >>= f).stopAfter n s = (f a).stopAfter (n - p.steps s) s' := by
  rw [stopAfter_bind]
  split_ifs with hle
  · rw [Nat.le_antisymm hle h, Nat.sub_self, stopAfter_zero, stopAfter_of_le (Nat.le_refl _), hrun]
  · rw [hrun]

/-- A program that succeeds is stopped where its handler plays no part. -/
theorem stopAfter_handle {p : Prog σ ℓ ε α} {h : ε → Prog σ ℓ ε α} {s s' : σ} {a : α} (hrun : p.run s = (.ok a, s'))
    (n : ℕ) : (tryCatch p h).stopAfter n s = p.stopAfter n s := by
  induction p generalizing n s with
  | done r =>
    obtain ⟨rfl, rfl⟩ := run_done_eq_ok.mp hrun
    rfl
  | atom l act k ih =>
    cases n with
    | zero => rfl
    | succ n => exact ih s hrun n

/-- What no step changes is as it was, wherever the program is stopped. -/
theorem stopAfter_frame {γ : Type} (f : σ → γ) {p : Prog σ ℓ ε α} (hp : Sat (fun _ => True) (fun _ s s' => f s' = f s) p)
    (n : ℕ) (s : σ) : f (p.stopAfter n s) = f s := by
  induction hp generalizing n s with
  | done r => rfl
  | atom hact _ ih =>
    cases n with
    | zero => rfl
    | succ n => exact (ih s trivial n _).trans (hact s trivial)

/-- **The invariant rule**: what every step preserves holds wherever the program is stopped. -/
theorem stopAfter_invariant {I : σ → Prop} {p : Prog σ ℓ ε α} (hp : Sat I (fun _ _ s' => I s') p) (n : ℕ) {s : σ}
    (hs : I s) : I (p.stopAfter n s) := by
  induction hp generalizing n s with
  | done r => exact hs
  | atom hact _ ih =>
    cases n with
    | zero => exact hs
    | succ n => exact ih s hs n (hact s hs)

/-- A program that changes nothing stays where it is. -/
theorem Sat.stays {p : Prog σ ℓ ε α} (h : Sat (fun _ => True) (fun _ s s' => s' = s) p) (s : σ) :
    Sat (· = s) (fun _ _ s' => s' = s) p := by
  induction h with
  | done r => exact .done r
  | atom hact _ ih => exact .atom (fun t ht => (hact t trivial).trans ht) fun t _ => ih t trivial

/-- A program that stays in one state comes to what its run comes to. -/
theorem yields_of_run {s : σ} {P : α → Prop} {p : Prog σ ℓ ε α} (hp : Sat (· = s) (fun _ _ s' => s' = s) p)
    (h : ∀ a, (p.run s).1 = .ok a → P a) : Yields (· = s) P p := by
  induction hp with
  | done r => exact .done h
  | atom hact _ ih =>
    refine .atom fun t ht => ?_
    subst ht
    refine ih t rfl fun a ha => h a ?_
    rw [run, hact t rfl]
    exact ha

end MiniVault.Foundations.Prog
