import MiniVault.Foundations.Programs
import Mathlib.Order.Basic

/-!
# Programs that act alike

Two runs of one pool are compared: in the second some of the programs do not run. What the
others are answered is the same where the states of the two runs stay related, the programs
that stay act alike on related states, and those that are left out change nothing the
relation looks at.

## The model

* A relation `R i n` between states: `i` is what the two runs have agreed on so far, such as
  which identifier of the one is which of the other; it only grows. `n` is for how many more
  steps there is room.
* `Prog.Alike R V` — two programs that, begun in related states, take steps into related states
  and come to results related by `V`, or to the same error.
* `Prog.Lockstep I p q Q` — the same of two programs run alone, as the body of one step.
* `Prog.Aside R` — a program whose steps in the first run leave the states related.

## What is proved

* `Alike.bind`, `Alike.handle`, `Alike.look`, `Alike.attempt`, `Alike.atomic`, … — one rule for each way to make
  a program.
* `exec_alike` — in every schedule, the programs that stay are answered as in the schedule
  that is left without the turns of the others.
* `exec_turns` — what the steps of the programs that take turns preserve, a run preserves.
-/

namespace MiniVault.Foundations

variable {σ ℓ ε α β γ δ ι : Type} [Preorder ι]

namespace Prog

/-! ### Two programs -/

/-- From related states, the programs take steps together into related states and come to the same
error, or to values that `V` relates. -/
def Alike (R : ι → ℕ → σ → σ → Prop) (V : ι → α → β → Prop) : Prog σ ℓ ε α → Prog σ ℓ ε β → ι → Prop
  | .done (.ok a), .done (.ok b), i => V i a b
  | .done (.error e), .done (.error e'), _ => e = e'
  | .atom _ act k, .atom _ act' k', i => ∀ j, i ≤ j → ∀ n s t, R j (n + 1) s t →
      ∃ m, j ≤ m ∧ R m n (act s) (act' t) ∧ Alike R V (k s) (k' t) m
  | _, _, _ => False

section Alike

variable {R : ι → ℕ → σ → σ → Prop} {V : ι → α → β → Prop} {W : ι → γ → δ → Prop} {p : Prog σ ℓ ε α}
  {q : Prog σ ℓ ε β} {i j : ι}

theorem Alike.pure {a : α} {b : β} (h : V i a b) : Alike R V (pure a : Prog σ ℓ ε α) (pure b) i := h

theorem Alike.throw (e : ε) : Alike R V (throw e : Prog σ ℓ ε α) (throw e : Prog σ ℓ ε β) i := rfl

/-- What they have agreed on may grow before they begin. -/
theorem Alike.later (hV : ∀ {i j a b}, i ≤ j → V i a b → V j a b) (hij : i ≤ j) (h : Alike R V p q i) :
    Alike R V p q j := by
  rcases p with ⟨e | a⟩ | ⟨l, act, k⟩ <;> rcases q with ⟨e' | b⟩ | ⟨l', act', k'⟩ <;> try exact h
  · exact hV hij h
  · exact fun m hm n s t hR => h m (hij.trans hm) n s t hR

/-- **Sequences act alike** where their parts do. -/
theorem Alike.bind {f : α → Prog σ ℓ ε γ} {g : β → Prog σ ℓ ε δ} (h : Alike R V p q i)
    (hfg : ∀ j a b, i ≤ j → V j a b → Alike R W (f a) (g b) j) : Alike R W (p >>= f) (q >>= g) i := by
  induction p generalizing q i with
  | done r =>
    rcases r with e | a <;> rcases q with ⟨e' | b⟩ | ⟨l', act', k'⟩ <;> try cases h
    · exact rfl
    · exact hfg i a b le_rfl h
  | atom l act k ih =>
    rcases q with ⟨e' | b⟩ | ⟨l', act', k'⟩
    · cases h
    · cases h
    · intro j hj n s t hR
      obtain ⟨m, hm, hstep, hrest⟩ := h j hj n s t hR
      exact ⟨m, hm, hstep, ih s hrest fun m' a b hle => hfg m' a b ((hj.trans hm).trans hle)⟩

/-- An error is handled alike. -/
theorem Alike.handle {h : ε → Prog σ ℓ ε α} {h' : ε → Prog σ ℓ ε β} (hp : Alike R V p q i)
    (hh : ∀ j e, i ≤ j → Alike R V (h e) (h' e) j) : Alike R V (tryCatch p h) (tryCatch q h') i := by
  induction p generalizing q i with
  | done r =>
    rcases r with e | a <;> rcases q with ⟨e' | b⟩ | ⟨l', act', k'⟩ <;> try cases hp
    · exact hh i e le_rfl
    · exact hp
  | atom l act k ih =>
    rcases q with ⟨e' | b⟩ | ⟨l', act', k'⟩
    · cases hp
    · cases hp
    · intro j hj n s t hR
      obtain ⟨m, hm, hstep, hrest⟩ := hp j hj n s t hR
      exact ⟨m, hm, hstep, ih s hrest fun m' e hle => hh m' e ((hj.trans hm).trans hle)⟩

theorem Alike.ite {c : Prop} [Decidable c] {p' : Prog σ ℓ ε α} {q' : Prog σ ℓ ε β} (hp : c → Alike R V p q i)
    (hq : ¬ c → Alike R V p' q' i) : Alike R V (if c then p else p') (if c then q else q') i := by
  split
  · exact hp ‹_›
  · exact hq ‹_›

/-- The same computation without state. -/
theorem Alike.done {V : ι → α → α → Prop} {r : Except ε α} (h : ∀ a, r = .ok a → V i a a) :
    Alike R V (Prog.done r : Prog σ ℓ ε α) (Prog.done r) i := by
  rcases r with e | a
  · exact rfl
  · exact h a rfl

/-- A look at states that are related: it fails with the same error, or finds values that are. -/
theorem Alike.look (hroom : ∀ {i n s t}, R i (n + 1) s t → R i n s t) {l l' : ℓ} {f : σ → Except ε α}
    {g : σ → Except ε β}
    (h : ∀ j n s t, i ≤ j → R j n s t → Alike R V (Prog.done (f s) : Prog σ ℓ ε α) (Prog.done (g t)) j) :
    Alike R V (look l f) (look l' g) i :=
  fun j hj n s t hR => ⟨j, le_rfl, hroom hR, h j (n + 1) s t hj hR⟩

/-- A change after which the states are related. -/
theorem Alike.change {V : ι → Unit → Unit → Prop} {l l' : ℓ} {act act' : σ → σ}
    (h : ∀ j n s t, i ≤ j → R j (n + 1) s t → R j n (act s) (act' t)) (hV : ∀ j, V j () ()) :
    Alike R V (change l act : Prog σ ℓ ε Unit) (change l' act') i :=
  fun j hj n s t hR => ⟨j, le_rfl, h j n s t hj hR, hV j⟩

/-- An attempt in states that are related: it succeeds in both, or fails with the same error. -/
theorem Alike.attempt (hroom : ∀ {i n s t}, R i (n + 1) s t → R i n s t) {l l' : ℓ} {body : σ → Except ε (α × σ)}
    {body' : σ → Except ε (β × σ)}
    (h : ∀ j n s t, i ≤ j → R j (n + 1) s t →
      (∃ a b s' t', body s = .ok (a, s') ∧ body' t = .ok (b, t') ∧ V j a b ∧ R j n s' t') ∨
        ∃ e, body s = .error e ∧ body' t = .error e) :
    Alike R V (attempt l body) (attempt l' body') i := by
  intro j hj n s t hR
  rcases h j n s t hj hR with ⟨a, b, s', t', hs, ht, hV, hrest⟩ | ⟨e, hs, ht⟩
  · refine ⟨j, le_rfl, ?_, ?_⟩
    · simp only [hs, ht]
      exact hrest
    · simp only [hs, ht, Except.map]
      exact hV
  · refine ⟨j, le_rfl, ?_, ?_⟩
    · simp only [hs, ht]
      exact hroom hR
    · simp only [hs, ht, Except.map]
      exact rfl

/-! #### Inside one step -/

/-- Run alone in states related by `I`, the programs come to the same error, or to values and states related
by `Q`. -/
def Lockstep (I : σ → σ → Prop) (p : Prog σ ℓ ε α) (q : Prog σ ℓ ε β) (Q : α → β → σ → σ → Prop) : Prop :=
  ∀ s t, I s t → (∃ a b s' t', p.run s = (.ok a, s') ∧ q.run t = (.ok b, t') ∧ Q a b s' t') ∨
    ∃ e s' t', p.run s = (.error e, s') ∧ q.run t = (.error e, t')

section Lockstep

variable {I : σ → σ → Prop} {Q : α → β → σ → σ → Prop} {Q' : γ → δ → σ → σ → Prop}

theorem Lockstep.pure {a : α} {b : β} (h : ∀ s t, I s t → Q a b s t) :
    Lockstep I (pure a : Prog σ ℓ ε α) (pure b) Q :=
  fun s t hI => .inl ⟨a, b, s, t, rfl, rfl, h s t hI⟩

/-- The same computation without state. -/
theorem Lockstep.done {r : Except ε α} : Lockstep I (Prog.done r : Prog σ ℓ ε α) (Prog.done r)
    fun a b s t => a = b ∧ r = .ok a ∧ I s t := by
  intro s t hI
  rcases r with e | a
  · exact .inr ⟨e, s, t, rfl, rfl⟩
  · exact .inl ⟨a, a, s, t, rfl, rfl, rfl, rfl, hI⟩

/-- **Sequences stay in step** where their parts do. -/
theorem Lockstep.bind {f : α → Prog σ ℓ ε γ} {g : β → Prog σ ℓ ε δ} (h : Lockstep I p q Q)
    (hfg : ∀ a b, Lockstep (Q a b) (f a) (g b) Q') : Lockstep I (p >>= f) (q >>= g) Q' := by
  intro s t hI
  rcases h s t hI with ⟨a, b, s', t', hp, hq, hQ⟩ | ⟨e, s', t', hp, hq⟩
  · rw [run_bind_ok hp, run_bind_ok hq]
    exact hfg a b s' t' hQ
  · exact .inr ⟨e, s', t', run_bind_error hp f, run_bind_error hq g⟩

/-- What holds of the states they begin in may be used. -/
theorem Lockstep.assume {P : Prop} (hP : ∀ s t, I s t → P) (h : P → Lockstep I p q Q) : Lockstep I p q Q :=
  fun s t hI => h (hP s t hI) s t hI

/-- What is known to exist may be named. -/
theorem Lockstep.ofExists {κ : Type} {J : κ → σ → σ → Prop} (h : ∀ k, Lockstep (J k) p q Q) :
    Lockstep (fun s t => ∃ k, J k s t) p q Q :=
  fun s t ⟨k, hk⟩ => h k s t hk

theorem Lockstep.throw (e : ε) : Lockstep I (throw e : Prog σ ℓ ε α) (throw e : Prog σ ℓ ε β) Q :=
  fun s t _ => .inr ⟨e, s, t, rfl, rfl⟩

/-- The same change in both. -/
theorem Lockstep.change {l l' : ℓ} {act act' : σ → σ} {Q : Unit → Unit → σ → σ → Prop}
    (h : ∀ s t, I s t → Q () () (act s) (act' t)) :
    Lockstep I (Prog.change l act : Prog σ ℓ ε Unit) (Prog.change l' act') Q :=
  fun s t hI => .inl ⟨(), (), _, _, rfl, rfl, h s t hI⟩

/-- What the first program returns may be remembered. -/
theorem Lockstep.returns {P : α → Prop} (h : Lockstep I p q Q) (hP : ∀ s a s', p.run s = (.ok a, s') → P a) :
    Lockstep I p q fun a b s t => P a ∧ Q a b s t := by
  intro s t hI
  rcases h s t hI with ⟨a, b, s', t', hp, hq, hQ⟩ | hfail
  · exact .inl ⟨a, b, s', t', hp, hq, hP s a s' hp, hQ⟩
  · exact .inr hfail

theorem Lockstep.mono {I' : σ → σ → Prop} {Q₁ : α → β → σ → σ → Prop} (h : Lockstep I p q Q)
    (hI : ∀ s t, I' s t → I s t) (hQ : ∀ a b s t, Q a b s t → Q₁ a b s t) : Lockstep I' p q Q₁ := by
  intro s t hI'
  rcases h s t (hI s t hI') with ⟨a, b, s', t', hp, hq, hQ'⟩ | hfail
  · exact .inl ⟨a, b, s', t', hp, hq, hQ a b s' t' hQ'⟩
  · exact .inr hfail

end Lockstep

/-- **One step that runs a whole program**: where it fails, what is left is related as the states were. -/
theorem Alike.atomic {l l' : ℓ} {abort : σ → σ → σ}
    (h : ∀ j n, i ≤ j → Lockstep (R j (n + 1)) p q fun a b s t => ∃ m, j ≤ m ∧ V m a b ∧ R m n s t)
    (habort : ∀ j n s t, i ≤ j → R j (n + 1) s t → R j n (abort s (p.run s).2) (abort t (q.run t).2)) :
    Alike R V (atomic l abort p) (atomic l' abort q) i := by
  intro j hj n s t hR
  have hfail := habort j n s t hj hR
  rcases h j n hj s t hR with ⟨a, b, s', t', hp, hq, m, hm, hV, hrest⟩ | ⟨e, s', t', hp, hq⟩
  · refine ⟨m, hm, ?_, ?_⟩
    · simp only [hp, hq]
      exact hrest
    · simp only [hp, hq]
      exact hV
  · rw [hp, hq] at hfail
    refine ⟨j, le_rfl, ?_, ?_⟩
    · simp only [hp, hq]
      exact hfail
    · simp only [hp, hq]
      exact rfl

end Alike

/-! ### A program that is left out -/

section Sat

variable {I I' : σ → Prop} {G G' : ℓ → σ → σ → Prop} {p : Prog σ ℓ ε α}

/-- What each step does in one respect and in another, it does in both. -/
theorem Sat.both (h : p.Sat I G) (h' : p.Sat I' G') : p.Sat (fun s => I s ∧ I' s) fun l s s' => G l s s' ∧ G' l s s' := by
  induction h with
  | done r => exact .done r
  | atom hact hk ih =>
    cases h' with
    | atom hact' hk' => exact .atom (fun s hs => ⟨hact s hs.1, hact' s hs.2⟩) fun s hs => ih s hs.1 (hk' s hs.2)

/-- The steps of a sequence begin with those of its first part. -/
theorem Sat.of_bind {f : α → Prog σ ℓ ε γ} (h : (p >>= f).Sat I G) : p.Sat I G := by
  induction p with
  | done r => exact .done r
  | atom l act k ih =>
    cases h with
    | atom hact hk => exact .atom hact fun s hs => ih s (hk s hs)

end Sat

/-- Whatever step the program takes in the first of two related states, they stay related. -/
def Aside (R : ι → ℕ → σ → σ → Prop) (p : Prog σ ℓ ε α) : Prop :=
  p.Sat (fun _ => True) fun _ s s' => ∀ i n t, R i (n + 1) s t → R i n s' t

end Prog

/-! ### Two runs of a pool -/

namespace Config

/-- The two pools have the same programs to begin with: those that stay act alike, and those that are left out
stay aside. -/
structure Alike (R : ι → ℕ → σ → σ → Prop) (keep : ℕ → Prop) (i : ι) (c d : Config σ ℓ ε α) : Prop where
  /-- They have as many. -/
  length : c.procs.length = d.procs.length
  /-- What stays. -/
  kept : ∀ x, keep x → ∀ p q, c.procs[x]? = some p → d.procs[x]? = some q → p.Alike R (fun _ a b => a = b) q i
  /-- What is left out. -/
  aside : ∀ x, ¬ keep x → ∀ p, c.procs[x]? = some p → p.Aside R

variable {R : ι → ℕ → σ → σ → Prop} {keep : ℕ → Prop} {c d : Config σ ℓ ε α} {i : ι} {n x : ℕ}

/-- A turn of a program that is left out. -/
theorem Alike.step_aside (hroom : ∀ {i n s t}, R i (n + 1) s t → R i n s t) (h : c.Alike R keep i d)
    (hR : R i (n + 1) c.state d.state) (hx : ¬ keep x) :
    (c.step x).Alike R keep i d ∧ R i n (c.step x).state d.state := by
  rcases step_cases c x with ⟨heq, -⟩ | ⟨l, act, k, hp, -, heq⟩
  · rw [heq]
    exact ⟨h, hroom hR⟩
  · rw [heq]
    have hlt := (List.getElem?_eq_some_iff.mp hp).1
    cases h.aside x hx _ hp with
    | atom hact hk =>
      refine ⟨⟨by rw [List.length_set]; exact h.length, fun y hy p q hp' hq => ?_, fun y hy p hp' => ?_⟩,
        hact c.state trivial i n d.state hR⟩
      · rw [List.getElem?_set_ne (by rintro rfl; exact hx hy)] at hp'
        exact h.kept y hy p q hp' hq
      · by_cases hxy : x = y
        · subst hxy
          rw [List.getElem?_set_self hlt] at hp'
          exact Option.some.inj hp' ▸ hk c.state trivial
        · rw [List.getElem?_set_ne hxy] at hp'
          exact h.aside y hy p hp'

/-- A turn of a program that stays. -/
theorem Alike.step_kept (hroom : ∀ {i n s t}, R i (n + 1) s t → R i n s t) (h : c.Alike R keep i d)
    (hR : R i (n + 1) c.state d.state) (hx : keep x) :
    ∃ j, i ≤ j ∧ (c.step x).Alike R keep j (d.step x) ∧ R j n (c.step x).state (d.step x).state := by
  rcases hp : c.procs[x]? with - | p
  · have hq : d.procs[x]? = none := by
      rw [List.getElem?_eq_none_iff, ← h.length]
      exact List.getElem?_eq_none_iff.mp hp
    simp only [step, hp, hq]
    exact ⟨i, le_rfl, h, hroom hR⟩
  · have hlt := (List.getElem?_eq_some_iff.mp hp).1
    have hlt' : x < d.procs.length := h.length ▸ hlt
    have hq := List.getElem?_eq_getElem hlt'
    have hpq := h.kept x hx _ _ hp hq
    rcases p with ⟨e | a⟩ | ⟨l, act, k⟩ <;> rcases hqr : d.procs[x] with ⟨e' | b⟩ | ⟨l', act', k'⟩ <;>
      rw [hqr] at hpq hq <;> simp only [step, hp, hq] <;> try exact ⟨i, le_rfl, h, hroom hR⟩
    · cases hpq
    · cases hpq
    · cases hpq
    · cases hpq
    · obtain ⟨m, hm, hstep, hrest⟩ := hpq i le_rfl n _ _ hR
      refine ⟨m, hm, ⟨by simp only [List.length_set]; exact h.length, fun y hy p q hp' hq' => ?_,
        fun y hy p hp' => ?_⟩, hstep⟩
      · by_cases hxy : x = y
        · subst hxy
          rw [List.getElem?_set_self hlt] at hp'
          rw [List.getElem?_set_self hlt'] at hq'
          exact Option.some.inj hp' ▸ Option.some.inj hq' ▸ hrest
        · rw [List.getElem?_set_ne hxy] at hp' hq'
          exact (h.kept y hy p q hp' hq').later (fun _ heq => heq) hm
      · rw [List.getElem?_set_ne (by rintro rfl; exact hy hx)] at hp'
        exact h.aside y hy p hp'

/-- What the programs that stay are answered. -/
theorem Alike.result_eq (h : c.Alike R keep i d) (hx : keep x) : c.result x = d.result x := by
  unfold result
  rcases hp : c.procs[x]? with - | p
  · have hq : d.procs[x]? = none := by
      rw [List.getElem?_eq_none_iff, ← h.length]
      exact List.getElem?_eq_none_iff.mp hp
    rw [hq]
  · have hlt : x < d.procs.length := h.length ▸ (List.getElem?_eq_some_iff.mp hp).1
    have hq := List.getElem?_eq_getElem hlt
    have hpq := h.kept x hx _ _ hp hq
    rw [hq]
    rcases p with ⟨e | a⟩ | ⟨l, act, k⟩ <;> rcases hqr : d.procs[x] with ⟨e' | b⟩ | ⟨l', act', k'⟩ <;>
      rw [hqr] at hpq <;> first | exact hpq.elim | (cases hpq; rfl)

/-- **What is left out is not missed.** Where the two pools begin in related states, with room for the schedule, the
programs that stay are answered as in the schedule without the turns of the others. -/
theorem exec_alike (hroom : ∀ {i n s t}, R i (n + 1) s t → R i n s t) [DecidablePred keep] (sched : List ℕ)
    (h : c.Alike R keep i d) (hR : R i sched.length c.state d.state) (hx : keep x) :
    (c.exec sched).result x = (d.exec (sched.filter keep)).result x := by
  induction sched generalizing c d i with
  | nil => exact h.result_eq hx
  | cons y ys ih =>
    by_cases hy : keep y
    · obtain ⟨j, -, hstep, hrest⟩ := h.step_kept hroom hR hy
      rw [List.filter_cons_of_pos (by simpa using hy)]
      exact ih hstep hrest
    · obtain ⟨hstep, hrest⟩ := h.step_aside hroom hR hy
      rw [List.filter_cons_of_neg (by simpa using hy)]
      exact ih hstep hrest

/-! ### Turns of some of the programs -/

/-- A program keeps to its guarantee as the pool runs, in states as it needs them. -/
theorem step_sat_at {I : σ → Prop} {G : ℓ → σ → σ → Prop} (h : ∀ p, c.procs[x]? = some p → p.Sat I G) (hI : I c.state)
    (y : ℕ) : ∀ p, (c.step y).procs[x]? = some p → p.Sat I G := by
  intro p hp
  rcases step_cases c y with ⟨heq, -⟩ | ⟨l, act, k, hat, -, heq⟩
  · rw [heq] at hp
    exact h p hp
  · rw [heq] at hp
    have hlt := (List.getElem?_eq_some_iff.mp hat).1
    by_cases hxy : y = x
    · subst hxy
      rw [List.getElem?_set_self hlt] at hp
      cases h _ hat with
      | atom hact hk => exact Option.some.inj hp ▸ hk c.state hI
    · rw [List.getElem?_set_ne hxy] at hp
      exact h p hp

/-- So it does in every state of a run whose states are as it needs them. -/
theorem exec_sat_at {I : σ → Prop} {G : ℓ → σ → σ → Prop} (h : ∀ p, c.procs[x]? = some p → p.Sat I G) {sched : List ℕ}
    (hI : ∀ front back, sched = front ++ back → I (c.exec front).state) :
    ∀ p, (c.exec sched).procs[x]? = some p → p.Sat I G := by
  induction sched generalizing c with
  | nil => exact h
  | cons y ys ih =>
    apply ih (step_sat_at h (hI [] _ rfl) y)
    intro front back heq
    exact hI (y :: front) back (by rw [heq, List.cons_append])

/-- **The invariant rule where only some take turns**: what each of their steps preserves is preserved, as long as the
states are as they need them. -/
theorem exec_turns {J : σ → Prop} {I : ℕ → σ → Prop} {G : ℕ → ℓ → σ → σ → Prop} {sched : List ℕ}
    (hsat : ∀ y ∈ sched, ∀ p, c.procs[y]? = some p → p.Sat (I y) (G y))
    (hI : ∀ y ∈ sched, ∀ front back, sched = front ++ back → I y (c.exec front).state)
    (hG : ∀ y ∈ sched, ∀ l s s', J s → G y l s s' → J s') (hJ : J c.state) : J (c.exec sched).state := by
  induction sched generalizing c with
  | nil => exact hJ
  | cons y ys ih =>
    have hcons : ∀ {z}, z ∈ ys → z ∈ y :: ys := fun hz => List.mem_cons_of_mem y hz
    refine ih (fun z hz => step_sat_at (hsat z (hcons hz)) (hI z (hcons hz) [] _ rfl) y)
      (fun z hz front back heq => hI z (hcons hz) (y :: front) back (by rw [heq, List.cons_append]))
      (fun z hz => hG z (hcons hz)) ?_
    rcases step_cases c y with ⟨heq, -⟩ | ⟨l, act, k, hp, -, heq⟩
    · rw [heq]
      exact hJ
    · rw [heq]
      cases hsat y List.mem_cons_self _ hp with
      | atom hact hk => exact hG y List.mem_cons_self l _ _ hJ (hact c.state (hI y List.mem_cons_self [] _ rfl))

end Config

end MiniVault.Foundations
