import Mathlib.Data.List.Basic
import Mathlib.Data.List.Induction
import Mathlib.Data.List.Sort

/-!
# Hash chains

A list whose every element is linked to the hash of the one before it. `link p x` is
the hash of `x` behind the hash `p`, where `x` can follow `p` at all, and `follow link g xs`
the hash of the last of `xs`, where they can be followed from the hash `g`.

## What is proved

* `follow_inj` — where linking is injective and never gives the hash the chain begins
  with, two lists that are followed to one hash are the same, whatever their lengths.
* `insertionSort_eq_reverse` — a list in strict order, sorted the other way round, is
  reversed: the last element comes first.
-/

namespace MiniVault.Foundations

variable {η ρ κ : Type} {link : η → ρ → Option η}

/-- The hash of the last element, where the elements can be followed from `g`. -/
def follow (link : η → ρ → Option η) : η → List ρ → Option η
  | g, [] => some g
  | g, x :: xs => (link g x).bind fun p => follow link p xs

@[simp] theorem follow_nil (g : η) : follow link g [] = some g := rfl

@[simp] theorem follow_cons (g : η) (x : ρ) (xs : List ρ) :
    follow link g (x :: xs) = (link g x).bind fun p => follow link p xs := rfl

theorem follow_append (g : η) (xs ys : List ρ) :
    follow link g (xs ++ ys) = (follow link g xs).bind fun p => follow link p ys := by
  induction xs generalizing g with
  | nil => rfl
  | cons x xs ih =>
    simp only [List.cons_append, follow_cons, Option.bind_assoc]
    congr 1
    funext p
    exact ih p

/-- A list followed to a hash is followed up to its last element, which gives the hash. -/
theorem follow_concat {g h : η} {xs : List ρ} {x : ρ} :
    follow link g (xs ++ [x]) = some h ↔ ∃ p, follow link g xs = some p ∧ link p x = some h := by
  rw [follow_append]
  simp [Option.bind_eq_some_iff]

/-- What holds of the first hash and of every link holds of the last. -/
theorem follow_good {P : η → Prop} {g h : η} {xs : List ρ} (hg : P g)
    (hlink : ∀ p x q, link p x = some q → P q) (hxs : follow link g xs = some h) : P h := by
  rcases xs.eq_nil_or_concat with rfl | ⟨xs, x, rfl⟩
  · rwa [← Option.some.inj hxs]
  · rw [List.concat_eq_append] at hxs
    obtain ⟨p, -, hx⟩ := follow_concat.mp hxs
    exact hlink p x h hx

/-- **The hash says it all.** Two lists that are followed to one hash have the same
contents, where equal links of their elements come from equal contents behind equal
hashes, and no link gives the hash the lists are followed from. Only hashes that are
`P` need be thought of. -/
theorem follow_inj {P : η → Prop} {g h : η} {xs ys : List ρ} (f : ρ → κ) (hg : P g)
    (hlink : ∀ p x q, link p x = some q → P q)
    (hinj : ∀ x ∈ xs, ∀ y ∈ ys, ∀ p q h, P p → P q → link p x = some h → link q y = some h →
      p = q ∧ f x = f y)
    (hgen : ∀ x, x ∈ xs ∨ x ∈ ys → ∀ p, link p x ≠ some g)
    (hxs : follow link g xs = some h) (hys : follow link g ys = some h) : xs.map f = ys.map f := by
  induction xs using List.reverseRecOn generalizing ys h with
  | nil =>
    obtain rfl := Option.some.inj hxs
    rcases ys.eq_nil_or_concat with rfl | ⟨ys, y, rfl⟩
    · rfl
    · rw [List.concat_eq_append] at hys hgen
      obtain ⟨p, -, hy⟩ := follow_concat.mp hys
      exact absurd hy (hgen y (.inr (by simp)) p)
  | append_singleton xs x ih =>
    obtain ⟨p, hxs, hx⟩ := follow_concat.mp hxs
    rcases ys.eq_nil_or_concat with rfl | ⟨ys, y, rfl⟩
    · obtain rfl := Option.some.inj hys
      exact absurd hx (hgen x (.inl (by simp)) p)
    · rw [List.concat_eq_append] at hys hgen hinj ⊢
      obtain ⟨q, hys, hy⟩ := follow_concat.mp hys
      have hp := follow_good hg hlink hxs
      have hq := follow_good hg hlink hys
      obtain ⟨rfl, hf⟩ := hinj x (by simp) y (by simp) p q h hp hq hx hy
      have hrest := ih
        (fun a ha b hb => hinj a (List.mem_append_left _ ha) b (List.mem_append_left _ hb))
        (fun a ha => hgen a (ha.imp (List.mem_append_left _) (List.mem_append_left _))) hxs hys
      rw [List.map_append, List.map_append, hrest, List.map_singleton, List.map_singleton, hf]

/-! ### Lists in strict order -/

theorem orderedInsert_eq_append {r : ρ → ρ → Prop} [DecidableRel r] {a : ρ} {l : List ρ}
    (h : ∀ b ∈ l, ¬ r a b) : l.orderedInsert r a = l ++ [a] := by
  induction l with
  | nil => rfl
  | cons b l ih =>
    rw [List.orderedInsert_cons, if_neg (h b (by simp)), ih fun c hc => h c (by simp [hc])]
    rfl

/-- A list in strict order, sorted the other way round, is reversed. -/
theorem insertionSort_eq_reverse {r : ρ → ρ → Prop} [DecidableRel r] {l : List ρ}
    (h : l.Pairwise fun a b => ¬ r a b) : l.insertionSort r = l.reverse := by
  induction l with
  | nil => rfl
  | cons a l ih =>
    obtain ⟨ha, hl⟩ := List.pairwise_cons.mp h
    rw [List.insertionSort_cons, ih hl, List.reverse_cons]
    exact orderedInsert_eq_append fun b hb => ha b (by simpa using hb)

end MiniVault.Foundations
