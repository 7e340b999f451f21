import MiniVault.Foundations.Programs
import Mathlib.Data.List.Nodup

/-!
# Programs that take effect in one step

A program of many steps may still be one as far as the others can tell: it looks at
things that do not change, takes one step that does something, and then only has its
answer left. In a pool of such programs every interleaving is as good as running them
one after another, in the order in which they took effect.

## The model

* `Prog.Settled` — a program that has only its answer left.
* `Prog.ActsAs` — a program that takes effect in one step, as one of the behaviours
  that are allowed to it. A behaviour is a function of the state at that step; which
  of them the program chooses may depend on what it looked at before.
* `Serial` — behaviours one after another, with the programs they belong to and what
  these answer.
* `Linearization` — an order of the programs of a pool that explains a run.

## What is proved

* `exists_linearization` — every run of a pool of such programs has a linearization:
  it leads to the same state with the same answers, and a program that had finished
  before another began comes before it.
-/

namespace MiniVault.Foundations

variable {σ ℓ ε α β : Type}

/-- What a program does in one step: its answer, and the state it leaves. -/
abbrev Behaviour (σ ε α : Type) := σ → Except ε α × σ

/-- A behaviour whose value has an answer made of it. -/
def Behaviour.andThen (b : Behaviour σ ε α) (g : α → Except ε β) : Behaviour σ ε β :=
  fun s => ((b s).1.bind g, (b s).2)

namespace Prog

/-- `p.Settled I r`: `p` has only the answer `r` left, and its steps change nothing. -/
inductive Settled (I : σ → Prop) (r : Except ε α) : Prog σ ℓ ε α → Prop where
  /-- It has answered. -/
  | done : Settled I r (.done r)
  /-- The step changes nothing, and the answer does not depend on what it finds. -/
  | atom {l : ℓ} {act : σ → σ} {k : σ → Prog σ ℓ ε α} :
      (∀ s, I s → act s = s) → (∀ s, I s → Settled I r (k s)) → Settled I r (.atom l act k)

/-- `p.ActsAs I B`: in states that satisfy `I`, `p` takes effect in one step, as one of the
behaviours in `B`. -/
inductive ActsAs (I : σ → Prop) (B : Behaviour σ ε α → Prop) : Prog σ ℓ ε α → Prop where
  /-- It has answered, as a behaviour does that changes nothing. -/
  | done {r : Except ε α} (b : Behaviour σ ε α) : B b → (∀ s, I s → b s = (r, s)) → ActsAs I B (.done r)
  /-- The step only looks; the effect comes after it. -/
  | idle {l : ℓ} {act : σ → σ} {k : σ → Prog σ ℓ ε α} :
      (∀ s, I s → act s = s) → (∀ s, I s → ActsAs I B (k s)) → ActsAs I B (.atom l act k)
  /-- The step is the effect. -/
  | effect {l : ℓ} {act : σ → σ} {k : σ → Prog σ ℓ ε α} :
      (∀ s, I s → ∃ b r, B b ∧ b s = (r, act s) ∧ Settled I r (k s)) → ActsAs I B (.atom l act k)

variable {I : σ → Prop} {B B' : Behaviour σ ε α → Prop} {r : Except ε α}

/-- A program that has answered gave the answer it had left. -/
theorem Settled.answer {r' : Except ε α} (h : Settled I r (.done r' : Prog σ ℓ ε α)) : r' = r := by
  cases h
  rfl

/-- A program may be allowed more behaviours. -/
theorem ActsAs.mono {p : Prog σ ℓ ε α} (h : ActsAs I B p) (hB : ∀ b, B b → B' b) : ActsAs I B' p := by
  induction h with
  | done b hb hr => exact .done b (hB b hb) hr
  | idle hact _ ih => exact .idle hact ih
  | effect h =>
    refine .effect fun s hs => ?_
    obtain ⟨b, r, hb, hrun, hk⟩ := h s hs
    exact ⟨b, r, hB b hb, hrun, hk⟩

/-- What a settled program does when it is run. -/
theorem Settled.run {p : Prog σ ℓ ε α} (h : Settled I r p) {s : σ} (hs : I s) : p.run s = (r, s) := by
  induction h with
  | done => rfl
  | @atom l act k hact _ ih =>
    show (k s).run (act s) = (r, s)
    rw [hact s hs]
    exact ih s hs

/-- A look at what does not change. -/
theorem Settled.look {l : ℓ} {f : σ → Except ε α} (h : ∀ s, I s → f s = r) :
    Settled I r (Prog.look l f : Prog σ ℓ ε α) := by
  refine .atom (fun _ _ => rfl) fun s hs => ?_
  rw [h s hs]
  exact .done

theorem Settled.bind {p : Prog σ ℓ ε α} {f : α → Prog σ ℓ ε β} {a : α} {r : Except ε β} (hp : Settled I (.ok a) p)
    (hf : Settled I r (f a)) : Settled I r (p >>= f) := by
  generalize hr : (Except.ok a : Except ε α) = r' at hp
  induction hp with
  | done =>
    subst hr
    exact hf
  | atom hact _ ih => exact .atom hact ih

theorem Settled.bind_error {p : Prog σ ℓ ε α} {f : α → Prog σ ℓ ε β} {e : ε} (hp : Settled I (.error e) p) :
    Settled I (.error e) (p >>= f) := by
  generalize hr : (Except.error e : Except ε α) = r' at hp
  induction hp with
  | done =>
    subst hr
    exact .done
  | atom hact _ ih => exact .atom hact ih

/-- An error that is turned into another. -/
theorem Settled.handle {p : Prog σ ℓ ε α} {h : ε → Prog σ ℓ ε α} {g : ε → ε} (hp : Settled I r p)
    (hh : ∀ e, h e = throw (g e)) : Settled I (r.mapError g) (tryCatch p h) := by
  induction hp with
  | done =>
    cases r with
    | ok a => exact .done
    | error e =>
      show Settled I _ (h e)
      rw [hh e]
      exact .done
  | atom hact _ ih => exact .atom hact ih

/-- A program that has only an answer left acts as a behaviour that changes nothing. -/
theorem ActsAs.settled {p : Prog σ ℓ ε α} (h : Settled I r p) (b : Behaviour σ ε α) (hb : B b)
    (hrun : ∀ s, I s → b s = (r, s)) : ActsAs I B p := by
  induction h with
  | done => exact .done b hb hrun
  | atom hact _ ih => exact .idle hact ih

/-- What only looks may come before. -/
theorem ActsAs.bind_idle {p : Prog σ ℓ ε α} {f : α → Prog σ ℓ ε β} {B : Behaviour σ ε β → Prop} {a : α}
    (hp : Settled I (.ok a) p) (hf : ActsAs I B (f a)) : ActsAs I B (p >>= f) := by
  generalize hr : (Except.ok a : Except ε α) = r' at hp
  induction hp with
  | done =>
    subst hr
    exact hf
  | atom hact _ ih => exact .idle hact ih

/-- One step that runs a whole program. -/
theorem ActsAs.atomic (l : ℓ) (abort : σ → σ → σ) (p : Prog σ ℓ ε α) :
    ActsAs I (· = (atomic l abort p).run) (atomic l abort p) :=
  .effect fun s _ => ⟨_, (p.run s).1, rfl, rfl, .done⟩

/-- What only looks may come after it. -/
theorem ActsAs.andThen {p : Prog σ ℓ ε α} {f : α → Prog σ ℓ ε β} {g : α → Except ε β} (hp : ActsAs I B p)
    (hf : ∀ a, Settled I (g a) (f a)) : ActsAs I (fun b' => ∃ b, B b ∧ b' = Behaviour.andThen b g) (p >>= f) := by
  -- what is left of a settled program, with what follows it
  have hsettled : ∀ {r : Except ε α} {q : Prog σ ℓ ε α}, Settled I r q → Settled I (r.bind g) (q >>= f) := by
    intro r q hq
    cases r with
    | ok a => exact hq.bind (hf a)
    | error e => exact hq.bind_error
  induction hp with
  | @done r b hb hr =>
    refine .settled (hsettled .done) _ ⟨b, hb, rfl⟩ fun s hs => ?_
    simp only [Behaviour.andThen, hr s hs]
  | idle hact _ ih => exact .idle hact ih
  | effect h =>
    refine .effect fun s hs => ?_
    obtain ⟨b, r, hb, hrun, hk⟩ := h s hs
    exact ⟨_, r.bind g, ⟨b, hb, rfl⟩, by simp only [Behaviour.andThen, hrun], hsettled hk⟩

end Prog

/-! ### One after another -/

/-- Behaviours one after another: `B i` are those of program `i`. -/
inductive Serial (B : ℕ → Behaviour σ ε α → Prop) : σ → List (ℕ × Except ε α) → σ → Prop where
  /-- Nothing is run. -/
  | nil (s : σ) : Serial B s [] s
  /-- Program `i` is run, and then the others. -/
  | cons {i : ℕ} {b : Behaviour σ ε α} {s s' : σ} {rest : List (ℕ × Except ε α)} :
      B i b → Serial B (b s).2 rest s' → Serial B s ((i, (b s).1) :: rest) s'

section Serial

variable {B : ℕ → Behaviour σ ε α → Prop} {I : σ → Prop} {s s' s'' : σ} {order more : List (ℕ × Except ε α)}

theorem Serial.append (h : Serial B s order s') (h' : Serial B s' more s'') : Serial B s (order ++ more) s'' := by
  induction h with
  | nil => exact h'
  | cons hb _ ih => exact .cons hb (ih h')

/-- One more. -/
theorem Serial.concat (h : Serial B s order s') {i : ℕ} {b : Behaviour σ ε α} {r : Except ε α} (hb : B i b)
    (hrun : b s' = (r, s'')) : Serial B s (order ++ [(i, r)]) s'' := by
  apply h.append
  have hone := Serial.cons hb (Serial.nil (b s').2)
  rwa [hrun] at hone

/-- Programs that change nothing. -/
theorem Serial.idle (h : ∀ e ∈ order, ∃ b, B e.1 b ∧ b s = (e.2, s)) : Serial B s order s := by
  induction order using List.reverseRecOn with
  | nil => exact .nil s
  | append_singleton order e ih =>
    obtain ⟨b, hb, hrun⟩ := h e (by simp)
    exact (ih fun e' he' => h e' (List.mem_append_left _ he')).concat hb hrun

end Serial

/-! ### The order of a run -/

namespace Config

/-- The programs that have answered, with their answers. -/
def answers (c : Config σ ℓ ε α) : List (ℕ × Except ε α) :=
  (List.range c.procs.length).filterMap fun i => (c.result i).map fun r => (i, r)

theorem result_eq_some {c : Config σ ℓ ε α} {i : ℕ} {r : Except ε α} :
    c.result i = some r ↔ c.procs[i]? = some (.done r) := by
  unfold result
  constructor
  · intro h
    split at h
    · next r' hr => rw [hr, Option.some.inj h]
    · cases h
  · intro h
    rw [h]

theorem mem_answers {c : Config σ ℓ ε α} {e : ℕ × Except ε α} : e ∈ c.answers ↔ c.result e.1 = some e.2 := by
  constructor
  · intro h
    obtain ⟨i, -, hi⟩ := List.mem_filterMap.mp h
    obtain ⟨r, hr, rfl⟩ := Option.map_eq_some_iff.mp hi
    exact hr
  · intro h
    obtain ⟨hlt, -⟩ := List.getElem?_eq_some_iff.mp (result_eq_some.mp h)
    exact List.mem_filterMap.mpr ⟨e.1, List.mem_range.mpr hlt, by rw [h]; rfl⟩

theorem answers_nodup (c : Config σ ℓ ε α) : (c.answers.map Prod.fst).Nodup := by
  have hsub : (c.answers.map Prod.fst).Sublist (List.range c.procs.length) := by
    unfold answers
    induction List.range c.procs.length with
    | nil => exact .slnil
    | cons i is ih =>
      cases hr : c.result i with
      | none => simpa [hr] using ih.cons i
      | some r => simpa [hr] using ih.cons_cons i
  exact hsub.nodup List.nodup_range

end Config

/-- The order explains the run: programs one after another, to the same state and with the same answers. -/
structure Linearization (B : ℕ → Behaviour σ ε α → Prop) (c : Config σ ℓ ε α) (sched : List ℕ)
    (order : List (ℕ × Except ε α)) : Prop where
  /-- One after another, the programs lead to the state the run has come to. -/
  serial : Serial B c.state order (c.exec sched).state
  /-- Each is run once. -/
  once : (order.map Prod.fst).Nodup
  /-- They answer what they answered in the run. -/
  answered : ∀ i r, (c.exec sched).result i = some r → (i, r) ∈ order
  /-- They had begun, or had nothing to do. -/
  begun : ∀ e ∈ order, e.1 ∈ sched ∨ c.result e.1 = some e.2
  /-- At any moment of the run, the programs that have answered come before those that have not begun. -/
  realTime : ∀ before after, sched = before ++ after → ∃ pre post, order = pre ++ post ∧
    (∀ i r, (c.exec before).result i = some r → (i, r) ∈ pre) ∧
      ∀ e ∈ pre, e.1 ∈ before ∨ c.result e.1 = some e.2

/-- How far the programs of a pool are, where `order` is the order of those that took effect. -/
structure Underway (I : σ → Prop) (B : ℕ → Behaviour σ ε α → Prop) (order : List (ℕ × Except ε α))
    (c : Config σ ℓ ε α) : Prop where
  /-- The invariant holds. -/
  inv : I c.state
  /-- A program that took effect has its answer left; another is still to act. -/
  status : ∀ i (p : Prog σ ℓ ε α), c.procs[i]? = some p →
    (∃ r, (i, r) ∈ order ∧ p.Settled I r) ∨ (i ∉ order.map Prod.fst ∧ p.ActsAs I (B i) ∧ c.result i = none)

section Order

variable {I : σ → Prop} {B : ℕ → Behaviour σ ε α → Prop} {c : Config σ ℓ ε α} {order : List (ℕ × Except ε α)}

/-- **A turn**: it changes nothing, or one program takes effect. -/
theorem Underway.step (h : Underway I B order c) (hI : ∀ i b s, B i b → I s → I (b s).2) (i : ℕ) :
    ∃ more, Underway I B (order ++ more) (c.step i) ∧ (∀ e ∈ more, e.1 = i) ∧
      ((order.map Prod.fst).Nodup → ((order ++ more).map Prod.fst).Nodup) ∧
        ∀ s, Serial B s order c.state → Serial B s (order ++ more) (c.step i).state := by
  rcases c.step_cases i with ⟨hstep, -⟩ | ⟨l, act, k, hp, -, hstep⟩
  · rw [hstep]
    exact ⟨[], by rwa [List.append_nil], by simp, by simp, by simp⟩
  obtain ⟨hlt, -⟩ := List.getElem?_eq_some_iff.mp hp
  -- the programs whose turn it is not are where they were
  have hothers : ∀ {more : List (ℕ × Except ε α)}, (∀ e ∈ more, e.1 = i) → ∀ j p, j ≠ i →
      (c.procs.set i (k c.state))[j]? = some p →
        (∃ r, (j, r) ∈ order ++ more ∧ p.Settled I r) ∨
          (j ∉ (order ++ more).map Prod.fst ∧ p.ActsAs I (B j) ∧ (c.step i).result j = none) := by
    intro more hmore j p hj hpj
    have hsame : (c.step i).result j = c.result j := by
      rw [hstep]
      simp only [Config.result, List.getElem?_set_ne hj.symm]
    rw [List.getElem?_set_ne hj.symm] at hpj
    rcases h.status j p hpj with ⟨r, hr, hset⟩ | ⟨hnot, hacts, hnone⟩
    · exact .inl ⟨r, List.mem_append_left _ hr, hset⟩
    · refine .inr ⟨fun hmem => ?_, hacts, hsame.trans hnone⟩
      rw [List.map_append, List.mem_append] at hmem
      rcases hmem with hmem | hmem
      · exact hnot hmem
      · obtain ⟨e, he, rfl⟩ := List.mem_map.mp hmem
        exact hj (hmore e he)
  have hself : ∀ {p}, (c.procs.set i (k c.state))[i]? = some p → p = k c.state := by
    intro p hp
    rw [List.getElem?_set_self hlt] at hp
    exact (Option.some.inj hp).symm
  -- the program takes effect, as the behaviour `b`
  have heffect : ∀ {b : Behaviour σ ε α} {r : Except ε α}, i ∉ order.map Prod.fst → B i b →
      b c.state = (r, act c.state) → (k c.state).Settled I r →
        ∃ more, Underway I B (order ++ more) (c.step i) ∧ (∀ e ∈ more, e.1 = i) ∧
          ((order.map Prod.fst).Nodup → ((order ++ more).map Prod.fst).Nodup) ∧
            ∀ s, Serial B s order c.state → Serial B s (order ++ more) (c.step i).state := by
    intro b r hnot hb hrun hset
    refine ⟨[(i, r)], ⟨?_, fun j p hpj => ?_⟩, by simp, fun hnodup => ?_, fun s hs => ?_⟩
    · have := hI i b c.state hb h.inv
      rw [hrun] at this
      rw [hstep]
      exact this
    · by_cases hj : j = i
      · subst hj
        rw [hstep] at hpj
        exact .inl ⟨r, by simp, hself hpj ▸ hset⟩
      · rw [hstep] at hpj
        exact hothers (by simp) j p hj hpj
    · rw [List.map_append, List.map_singleton]
      exact List.nodup_append.mpr ⟨hnodup, List.nodup_singleton _, fun a ha b hb => by
        rintro rfl
        rw [List.mem_singleton.mp hb] at ha
        exact hnot ha⟩
    · rw [hstep]
      exact hs.concat hb hrun
  rcases h.status i _ hp with ⟨r, hr, hset⟩ | ⟨hnot, hacts, -⟩
  · -- it took effect before, and only looks
    cases hset with
    | atom hact hk =>
      have hstate : (c.step i).state = c.state := by
        rw [hstep]
        exact hact _ h.inv
      refine ⟨[], ⟨hstate ▸ h.inv, fun j p hpj => ?_⟩, by simp, by simp, by simp [hstate]⟩
      rw [hstep] at hpj
      by_cases hj : j = i
      · subst hj
        exact .inl ⟨r, by simpa using hr, hself hpj ▸ hk _ h.inv⟩
      · exact hothers (by simp) j p hj hpj
  · cases hacts with
    | effect heff =>
      obtain ⟨b, r, hb, hrun, hset⟩ := heff c.state h.inv
      exact heffect hnot hb hrun hset
    | idle hact hk =>
      -- it only looks; where this leaves it with an answer, that is its effect
      have hk' := hk c.state h.inv
      cases hnext : k c.state with
      | done r =>
        rw [hnext] at hk'
        cases hk' with
        | done b hb hr =>
          exact heffect hnot hb (by rw [hr _ h.inv, hact _ h.inv]) (by rw [hnext]; exact .done)
      | atom l' act' k' =>
        have hstate : (c.step i).state = c.state := by
          rw [hstep]
          exact hact _ h.inv
        refine ⟨[], ⟨hstate ▸ h.inv, fun j p hpj => ?_⟩, by simp, by simp, by simp [hstate]⟩
        by_cases hj : j = i
        · subst hj
          have hpj' : (c.step j).procs[j]? = some (k c.state) := by
            rw [hstep]
            exact List.getElem?_set_self hlt
          obtain rfl := Option.some.inj (hpj.symm.trans hpj')
          refine .inr ⟨by simpa using hnot, hk', ?_⟩
          simp only [Config.result, hpj, hnext]
        · rw [hstep] at hpj
          exact hothers (by simp) j p hj hpj

/-- Before the first turn. -/
theorem underway_start (hI : I c.state) (hacts : ∀ i (p : Prog σ ℓ ε α), c.procs[i]? = some p → p.ActsAs I (B i)) :
    Underway I B c.answers c ∧ Serial B c.state c.answers c.state := by
  refine ⟨⟨hI, fun i p hp => ?_⟩, .idle fun e he => ?_⟩
  · cases p with
    | done r => exact .inl ⟨r, Config.mem_answers.mpr (Config.result_eq_some.mpr hp), .done⟩
    | atom l act k =>
      have hnone : c.result i = none := by
        simp only [Config.result, hp]
      refine .inr ⟨fun hmem => ?_, hacts i _ hp, hnone⟩
      obtain ⟨e, he, rfl⟩ := List.mem_map.mp hmem
      rw [Config.mem_answers.mp he] at hnone
      cases hnone
  · have hdone := hacts _ _ (Config.result_eq_some.mp (Config.mem_answers.mp he))
    cases hdone with
    | done b hb hr => exact ⟨b, hb, hr _ hI⟩

/-- A program that has answered took effect. -/
theorem Underway.answered (h : Underway I B order c) {i : ℕ} {r : Except ε α} (hr : c.result i = some r) :
    (i, r) ∈ order := by
  rcases h.status i _ (Config.result_eq_some.mp hr) with ⟨r', hmem, hset⟩ | ⟨-, -, hnone⟩
  · rwa [hset.answer]
  · rw [hr] at hnone
    cases hnone

/-- **Every interleaving has an order**: where the programs of a pool take effect in one step each, and the
behaviours they are allowed keep the invariant, any run of the pool is explained by running them one after
another. -/
theorem exists_linearization (hI : ∀ i b s, B i b → I s → I (b s).2) (hstart : I c.state)
    (hacts : ∀ i (p : Prog σ ℓ ε α), c.procs[i]? = some p → p.ActsAs I (B i)) (sched : List ℕ) :
    ∃ order, Linearization B c sched order := by
  have hrun : ∃ order, Underway I B order (c.exec sched) ∧ Linearization B c sched order := by
    induction sched using List.reverseRecOn with
    | nil =>
      obtain ⟨hunder, hserial⟩ := underway_start hstart hacts
      refine ⟨c.answers, hunder, hserial, c.answers_nodup, fun i r hr => Config.mem_answers.mpr hr,
        fun e he => .inr (Config.mem_answers.mp he), fun before after hsplit => ?_⟩
      obtain ⟨rfl, rfl⟩ := List.append_eq_nil_iff.mp hsplit.symm
      exact ⟨c.answers, [], by simp, fun i r hr => Config.mem_answers.mpr hr,
        fun e he => .inr (Config.mem_answers.mp he)⟩
    | append_singleton sched i ih =>
      obtain ⟨order, hunder, hlin⟩ := ih
      obtain ⟨more, hunder', hmore, hnodup, hserial⟩ := hunder.step hI i
      have hexec : c.exec (sched ++ [i]) = (c.exec sched).step i := by
        rw [Config.exec_append]
        rfl
      rw [hexec]
      have hbegun : ∀ e ∈ order ++ more, e.1 ∈ sched ++ [i] ∨ c.result e.1 = some e.2 := by
        intro e he
        rcases List.mem_append.mp he with he | he
        · exact (hlin.begun e he).imp (List.mem_append_left _) id
        · exact .inl (by simp [hmore e he])
      have hanswered : ∀ j r, (c.exec (sched ++ [i])).result j = some r → (j, r) ∈ order ++ more := by
        intro j r hr
        rw [hexec] at hr
        exact hunder'.answered hr
      refine ⟨order ++ more, hunder', ?_, hnodup hlin.once, hanswered, hbegun, fun before after hsplit => ?_⟩
      · rw [hexec]
        exact hserial _ hlin.serial
      · rcases List.eq_nil_or_concat after with rfl | ⟨after, j, rfl⟩
        · -- at the last moment, all that took effect had begun
          obtain rfl : before = sched ++ [i] := by simpa using hsplit.symm
          exact ⟨order ++ more, [], by simp, hanswered, hbegun⟩
        · rw [List.concat_eq_append, ← List.append_assoc] at hsplit
          obtain ⟨hsched, -⟩ := List.append_inj' hsplit rfl
          obtain ⟨pre, post, hpre, hearly, hlate⟩ := hlin.realTime before after hsched
          exact ⟨pre, post ++ more, by rw [hpre, List.append_assoc], hearly, hlate⟩
  obtain ⟨order, -, hlin⟩ := hrun
  exact ⟨order, hlin⟩

end Order

end MiniVault.Foundations
