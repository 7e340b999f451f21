import MiniVault.Foundations.Linearization
import Mathlib.Data.List.Perm.Basic

/-!
# A program among others

Two views of a pool of programs. The first is that of one of them: the others are what
happens to the state between its steps. The second is that of something all of them write
to, such as a log: what stands in it is what each of them wrote, in some order.

## The model

* `Prog.Among R` — the runs of one program, where between its steps and at its ends the
  state may change as the relation `R` allows.
* `Prog.Emits I out P` — every step of the program preserves the invariant `I` and only
  appends to the output `out` of the state; and `P` holds of its result and of what it
  appended in all.

## What is proved

* `exec_among` — a program that has finished in a pool ran among the others.
* `Among.bind_cases` — runs of sequences.
* `exec_emits` — the output of a pool is a permutation of what its programs wrote, each
  accounted for by its own result.
-/

namespace MiniVault.Foundations

variable {σ ℓ ε α β γ τ : Type}

namespace Prog

/-! ### One among others -/

/-- `p.Among R s r s'`: begun at `s`, the program answers `r`, and the state comes to `s'`, where
the state may change by `R` before each of its steps and after the last. -/
inductive Among (R : σ → σ → Prop) : Prog σ ℓ ε α → σ → Except ε α → σ → Prop where
  /-- It has answered. -/
  | done {r : Except ε α} {s s' : σ} : R s s' → Among R (.done r) s r s'
  /-- It takes its step in the state the others have left. -/
  | atom {l : ℓ} {act : σ → σ} {k : σ → Prog σ ℓ ε α} {s s₁ s' : σ} {r : Except ε α} :
      R s s₁ → Among R (k s₁) (act s₁) r s' → Among R (.atom l act k) s r s'

section Among

variable {R : σ → σ → Prop} {p : Prog σ ℓ ε α} {r : Except ε α} {s s₁ s' : σ}

/-- The others come first. -/
theorem Among.before (htrans : ∀ s t u, R s t → R t u → R s u) (hR : R s s₁) (h : p.Among R s₁ r s') :
    p.Among R s r s' := by
  cases h with
  | done h => exact .done (htrans _ _ _ hR h)
  | atom h hk => exact .atom (htrans _ _ _ hR h) hk

theorem among_done : (Prog.done r : Prog σ ℓ ε α).Among R s r₁ s' ↔ r₁ = r ∧ R s s' := by
  constructor
  · intro h
    cases h with
    | done h => exact ⟨rfl, h⟩
  · rintro ⟨rfl, h⟩
    exact .done h

theorem among_atom {l : ℓ} {act : σ → σ} {k : σ → Prog σ ℓ ε α} :
    (Prog.atom l act k).Among R s r s' ↔ ∃ s₁, R s s₁ ∧ (k s₁).Among R (act s₁) r s' := by
  constructor
  · intro h
    cases h with
    | atom hR hk => exact ⟨_, hR, hk⟩
  · rintro ⟨s₁, hR, hk⟩
    exact .atom hR hk

/-- **A sequence among others**: its first part fails, or both parts run. -/
theorem Among.bind_cases {f : α → Prog σ ℓ ε β} {r : Except ε β} (hrefl : ∀ s, R s s) (h : (p >>= f).Among R s r s') :
    (∃ e, r = .error e ∧ p.Among R s (.error e) s') ∨
      ∃ a s₁, p.Among R s (.ok a) s₁ ∧ (f a).Among R s₁ r s' := by
  induction p generalizing s with
  | done r₀ =>
    cases r₀ with
    | ok a => exact .inr ⟨a, s, .done (hrefl s), h⟩
    | error e =>
      obtain ⟨rfl, hR⟩ := among_done.mp h
      exact .inl ⟨e, rfl, .done hR⟩
  | atom l act k ih =>
    obtain ⟨s₁, hR, hk⟩ := among_atom.mp h
    rcases ih s₁ hk with ⟨e, rfl, hfail⟩ | ⟨a, s₂, hok, hrest⟩
    · exact .inl ⟨e, rfl, .atom hR hfail⟩
    · exact .inr ⟨a, s₂, .atom hR hok, hrest⟩

end Among

end Prog

namespace Config

variable {I : σ → Prop} {R : σ → σ → Prop} {i : ℕ} {r : Except ε α}

/-- **A program that has finished ran among the others.** -/
theorem exec_among (hrefl : ∀ s, R s s) (htrans : ∀ s t u, R s t → R t u → R s u) {c : Config σ ℓ ε α}
    {p : Prog σ ℓ ε α} (hp : c.procs[i]? = some p) (hI : I c.state) (hself : p.Sat I fun _ _ s' => I s')
    (hothers : ∀ j q, j ≠ i → c.procs[j]? = some q → Prog.Sat I (fun _ s s' => I s' ∧ R s s') q) {sched : List ℕ}
    (hr : (c.exec sched).result i = some r) : p.Among R c.state r (c.exec sched).state := by
  induction sched generalizing c p with
  | nil =>
    have hdone : c.procs[i]? = some (.done r) := result_eq_some.mp hr
    obtain rfl := Option.some.inj (hp.symm.trans hdone)
    exact .done (hrefl _)
  | cons j js ih =>
    rw [exec_cons] at hr ⊢
    rcases c.step_cases j with ⟨hstep, -⟩ | ⟨l, act, k, hj, -, hstep⟩
    · rw [hstep] at hr ⊢
      exact ih hp hI hself hothers hr
    obtain ⟨hlt, -⟩ := List.getElem?_eq_some_iff.mp hj
    by_cases hij : j = i
    · -- its own step
      subst hij
      obtain rfl := Option.some.inj (hp.symm.trans hj)
      cases hself with
      | atom hact hk =>
        have hrest := ih (c := c.step j) (p := k c.state) (by rw [hstep]; exact List.getElem?_set_self hlt)
          (by rw [hstep]; exact hact _ hI) (hk _ hI) (fun m q hm hq => hothers m q hm (by
            rw [hstep, List.getElem?_set_ne hm.symm] at hq
            exact hq)) hr
        rw [hstep] at hrest ⊢
        exact .atom (hrefl _) hrest
    · -- another program's step
      cases hothers j _ hij hj with
      | atom hact hk =>
        obtain ⟨hI', hR⟩ := hact _ hI
        have hrest := ih (c := c.step j) (p := p) (by rw [hstep, List.getElem?_set_ne hij]; exact hp)
          (by rw [hstep]; exact hI') hself (fun m q hm hq => ?_) hr
        · rw [hstep] at hrest ⊢
          exact hrest.before htrans hR
        · rw [hstep] at hq
          by_cases hmj : m = j
          · subst hmj
            rw [List.getElem?_set_self hlt] at hq
            rw [← Option.some.inj hq]
            exact hk _ hI
          · rw [List.getElem?_set_ne (Ne.symm hmj)] at hq
            exact hothers m q hm hq

end Config

/-! ### What all of them write -/

namespace Prog

/-- `p.Emits I out P`: in states that satisfy `I`, every step of `p` preserves `I` and appends to the
output, and `P` holds of the result of `p` and what `p` appends in all. -/
inductive Emits (I : σ → Prop) (out : σ → List τ) : (Except ε α → List τ → Prop) → Prog σ ℓ ε α → Prop where
  /-- Nothing is appended any more. -/
  | done {P : Except ε α → List τ → Prop} {r : Except ε α} : P r [] → Emits I out P (.done r)
  /-- The step appends something, and the rest accounts for it. -/
  | atom {P : Except ε α → List τ → Prop} {l : ℓ} {act : σ → σ} {k : σ → Prog σ ℓ ε α} (more : σ → List τ) :
      (∀ s, I s → I (act s) ∧ out (act s) = out s ++ more s) →
        (∀ s, I s → Emits I out (fun r rest => P r (more s ++ rest)) (k s)) → Emits I out P (.atom l act k)

/-- A guarantee that every step keeps to. -/
theorem Sat.any {I : σ → Prop} {R : σ → σ → Prop} (h : ∀ s s', R s s') {p : Prog σ ℓ ε α} : p.Sat I fun _ => R := by
  induction p with
  | done r => exact .done r
  | atom l act k ih => exact .atom (fun s _ => h s _) fun s _ => ih s

section Emits

variable {I : σ → Prop} {out : σ → List τ} {P Q : Except ε α → List τ → Prop} {p : Prog σ ℓ ε α}

theorem Emits.mono (h : p.Emits I out P) (hPQ : ∀ r acc, P r acc → Q r acc) : p.Emits I out Q := by
  induction h generalizing Q with
  | done h => exact .done (hPQ _ _ h)
  | atom more hact _ ih => exact .atom more hact fun s hs => ih s hs fun r acc => hPQ r _

/-- A program that leaves a part of the state on which the invariant and the output depend. -/
theorem Sat.invariant {f : σ → γ} (h : Sat (fun _ => True) (fun _ s s' => f s' = f s) p)
    (hf : ∀ s s', I s → f s' = f s → I s' ∧ out s' = out s) : Sat I (fun _ s s' => I s' ∧ out s' = out s) p := by
  induction h with
  | done r => exact .done r
  | atom hact _ ih => exact .atom (fun s hs => hf s _ hs (hact s trivial)) fun s _ => ih s trivial

/-- A program that preserves the invariant and leaves the output. -/
theorem Emits.quiet (h : Sat I (fun _ s s' => I s' ∧ out s' = out s) p) :
    p.Emits I out fun _ acc => acc = [] := by
  induction h with
  | done r => exact .done rfl
  | atom hact _ ih =>
    refine .atom (fun _ => []) (fun s hs => ?_) fun s hs => (ih s hs).mono fun _ _ h => h
    rw [List.append_nil]
    exact hact s hs

/-- What is known of its errors is known beside it. -/
theorem Emits.fails {F : ε → Prop} (h : p.Emits I out P) (hF : Fails F p) :
    p.Emits I out fun r acc => P r acc ∧ ∀ e, r = .error e → F e := by
  induction h with
  | done h =>
    cases hF with
    | done hr => exact .done ⟨h, hr⟩
  | atom more hact _ ih =>
    cases hF with
    | atom hk => exact .atom more hact fun s hs => ih s hs (hk s)

theorem Fails.mono {F F' : ε → Prop} (h : Fails F p) (hF : ∀ e, F e → F' e) : Fails F' p := by
  induction h with
  | done h => exact .done fun e he => hF e (h e he)
  | atom _ ih => exact .atom ih

/-- Errors that are caught are those of what was made of them. -/
theorem Fails.handle {F F' : ε → Prop} {h : ε → Prog σ ℓ ε α} (hp : Fails F p) (hh : ∀ e, F e → Fails F' (h e)) :
    Fails F' (tryCatch p h) := by
  induction hp with
  | @done r hr =>
    cases r with
    | ok a => exact .pure a
    | error e => exact hh e (hr e rfl)
  | atom _ ih => exact .atom ih

/-- A sequence: what its second part makes of a result of the first. -/
theorem Emits.bind {f : α → Prog σ ℓ ε β} {P' : Except ε β → List τ → Prop} (hp : p.Emits I out P)
    (hok : ∀ a acc, P (.ok a) acc → (f a).Emits I out fun r rest => P' r (acc ++ rest))
    (herror : ∀ e acc, P (.error e) acc → P' (.error e) acc) : (p >>= f).Emits I out P' := by
  induction hp generalizing P' with
  | @done P r h =>
    cases r with
    | ok a => exact (hok a [] h).mono fun _ _ h => h
    | error e => exact .done (herror e [] h)
  | @atom P l act k more hact _ ih =>
    refine .atom more hact fun s hs => ih s hs (fun a acc h => ?_) fun e acc h => herror e _ h
    refine (hok a _ h).mono fun r rest h => ?_
    rwa [← List.append_assoc]

/-- The steps of such a program. -/
theorem Emits.sat (h : p.Emits I out P) : Sat I (fun _ s s' => I s' ∧ ∃ more, out s' = out s ++ more) p := by
  induction h with
  | done h => exact .done _
  | atom more hact _ ih => exact .atom (fun s hs => ⟨(hact s hs).1, more s, (hact s hs).2⟩) ih

/-- The result of a program accounts for what it wrote. -/
theorem Emits.result {r : Except ε α} (h : (Prog.done r : Prog σ ℓ ε α).Emits I out P) : P r [] := by
  cases h with
  | done h => exact h

/-- Some result and some output of a program agree. -/
theorem Emits.exists_result (h : p.Emits I out P) {s : σ} (hs : I s) : ∃ r acc, P r acc := by
  induction h generalizing s with
  | done h => exact ⟨_, _, h⟩
  | atom more hact _ ih =>
    obtain ⟨r, acc, h⟩ := ih s hs (hact s hs).1
    exact ⟨r, _, h⟩

/-- A transaction appends what its run appends. -/
theorem Emits.atomic {l : ℓ} {abort : σ → σ → σ}
    (h : ∀ s, I s → ∃ more, I ((Prog.atomic l abort p).run s).2 ∧ out ((Prog.atomic l abort p).run s).2 = out s ++ more ∧
      P ((Prog.atomic l abort p).run s).1 more) : (Prog.atomic l abort p).Emits I out P := by
  refine .atom (fun s => (out ((Prog.atomic l abort p).run s).2).drop (out s).length) (fun s hs => ?_)
    fun s hs => .done ?_ <;> obtain ⟨more, hI, hout, hP⟩ := h s hs
  · refine ⟨hI, ?_⟩
    rw [hout, List.drop_left]
    exact hout
  · rw [hout, List.drop_left, List.append_nil]
    exact hP

/-- What comes before is quiet. -/
theorem Emits.bind_quiet {f : α → Prog σ ℓ ε β} {P' : Except ε β → List τ → Prop}
    (hp : Sat I (fun _ s s' => I s' ∧ out s' = out s) p) (hf : ∀ a, (f a).Emits I out P')
    (herror : ∀ e, P' (.error e) []) : (p >>= f).Emits I out P' := by
  refine (Emits.quiet hp).bind (fun a acc h => ?_) fun e acc h => ?_
  · subst h
    exact (hf a).mono fun _ _ h => h
  · subst h
    exact herror e

end Emits

end Prog

namespace Config

/-- What a list of lists holds, after one of them has grown. -/
private theorem flatten_set_perm {accs : List (List τ)} {i : ℕ} {acc more : List τ} (h : accs[i]? = some acc) :
    ((accs.set i (acc ++ more)).flatten).Perm (accs.flatten ++ more) := by
  induction accs generalizing i with
  | nil => simp at h
  | cons a accs ih =>
    cases i with
    | zero =>
      obtain rfl := Option.some.inj h
      simp only [List.set_cons_zero, List.flatten_cons, List.append_assoc]
      exact List.perm_append_comm.append_left a
    | succ i =>
      simp only [List.set_cons_succ, List.flatten_cons, List.append_assoc]
      exact (ih h).append_left a

/-- A run does not change the number of programs. -/
theorem length_exec (c : Config σ ℓ ε α) (sched : List ℕ) : (c.exec sched).procs.length = c.procs.length := by
  induction sched generalizing c with
  | nil => rfl
  | cons j js ih =>
    rw [exec_cons, ih]
    rcases c.step_cases j with ⟨hstep, -⟩ | ⟨l, act, k, -, -, hstep⟩ <;> rw [hstep]
    exact List.length_set

/-- **What a pool has written**: a permutation of what its programs have, each of which still has to account
for what it wrote. -/
theorem exec_emits {I : σ → Prop} {out : σ → List τ} {P : ℕ → Except ε α → List τ → Prop} {c : Config σ ℓ ε α}
    (hI : I c.state) (hemits : ∀ i (p : Prog σ ℓ ε α), c.procs[i]? = some p → p.Emits I out (P i)) (sched : List ℕ) :
    I (c.exec sched).state ∧ ∃ (accs : List (List τ)) (written : List τ), accs.length = c.procs.length ∧
      out (c.exec sched).state = out c.state ++ written ∧ written.Perm accs.flatten ∧
        ∀ i (p : Prog σ ℓ ε α), (c.exec sched).procs[i]? = some p →
          ∃ acc, accs[i]? = some acc ∧ p.Emits I out fun r rest => P i r (acc ++ rest) := by
  induction sched using List.reverseRecOn with
  | nil =>
    refine ⟨hI, c.procs.map fun _ => [], [], by simp, by simp, ?_, fun i p hp => ⟨[], ?_, ?_⟩⟩
    · rw [List.flatten_eq_nil_iff.mpr (by simp)]
    · change c.procs[i]? = some p at hp
      rw [List.getElem?_map, hp]
      rfl
    · exact (hemits i p hp).mono fun _ _ h => h
  | append_singleton sched j ih =>
    obtain ⟨hI', accs, written, hlen, hout, hperm, hprocs⟩ := ih
    have hexec : c.exec (sched ++ [j]) = (c.exec sched).step j := by
      rw [exec_append]
      rfl
    rw [hexec]
    rcases (c.exec sched).step_cases j with ⟨hstep, -⟩ | ⟨l, act, k, hj, -, hstep⟩
    · rw [hstep]
      exact ⟨hI', accs, written, hlen, hout, hperm, hprocs⟩
    obtain ⟨acc, hacc, hatom⟩ := hprocs j _ hj
    obtain ⟨hlt, -⟩ := List.getElem?_eq_some_iff.mp hj
    cases hatom with
    | atom more hact hk =>
      obtain ⟨hnext, happend⟩ := hact _ hI'
      rw [hstep]
      refine ⟨hnext, accs.set j (acc ++ more (c.exec sched).state), written ++ more (c.exec sched).state, by simpa using hlen,
        ?_, ?_, fun i p hp => ?_⟩
      · rw [happend, hout, List.append_assoc]
      · exact (hperm.append_right _).trans (flatten_set_perm hacc).symm
      · by_cases hij : i = j
        · subst hij
          rw [List.getElem?_set_self hlt] at hp
          obtain rfl := Option.some.inj hp
          obtain ⟨hlt', -⟩ := List.getElem?_eq_some_iff.mp hacc
          refine ⟨_, List.getElem?_set_self hlt', (hk _ hI').mono fun r rest h => ?_⟩
          rwa [List.append_assoc]
        · rw [List.getElem?_set_ne (Ne.symm hij)] at hp
          obtain ⟨acc', hacc', hp'⟩ := hprocs i p hp
          exact ⟨acc', by rwa [List.getElem?_set_ne (Ne.symm hij)], hp'⟩

/-- So what stands in the output is what the programs wrote, in some order. What a program has written begins what
it accounts for in the end; where it has finished, that is all it wrote. -/
theorem exec_output {I : σ → Prop} {out : σ → List τ} {P : ℕ → Except ε α → List τ → Prop} {c : Config σ ℓ ε α}
    (hI : I c.state) (hemits : ∀ i (p : Prog σ ℓ ε α), c.procs[i]? = some p → p.Emits I out (P i)) (sched : List ℕ) :
    I (c.exec sched).state ∧ ∃ (accs : List (List τ)) (written : List τ), accs.length = c.procs.length ∧
      out (c.exec sched).state = out c.state ++ written ∧ written.Perm accs.flatten ∧
        ∀ i acc, accs[i]? = some acc → ∃ r rest, P i r (acc ++ rest) ∧
          ∀ r', (c.exec sched).result i = some r' → r' = r ∧ rest = [] := by
  obtain ⟨hI', accs, written, hlen, hout, hperm, hprocs⟩ := exec_emits hI hemits sched
  refine ⟨hI', accs, written, hlen, hout, hperm, fun i acc hacc => ?_⟩
  have hlt : i < (c.exec sched).procs.length := by
    rw [length_exec, ← hlen]
    exact (List.getElem?_eq_some_iff.mp hacc).1
  obtain ⟨acc', hacc', hp⟩ := hprocs i _ (List.getElem?_eq_getElem hlt)
  obtain rfl := Option.some.inj (hacc.symm.trans hacc')
  cases hproc : (c.exec sched).procs[i] with
  | done r =>
    rw [hproc] at hp
    refine ⟨r, [], hp.result, fun r' hr' => ⟨?_, rfl⟩⟩
    have hdone := result_eq_some.mp hr'
    rw [List.getElem?_eq_getElem hlt, hproc] at hdone
    cases hdone
    rfl
  | atom l act k =>
    obtain ⟨r, rest, hP⟩ := hp.exists_result hI'
    refine ⟨r, rest, hP, fun r' hr' => ?_⟩
    have hdone := result_eq_some.mp hr'
    rw [List.getElem?_eq_getElem hlt, hproc] at hdone
    cases hdone

end Config

end MiniVault.Foundations
