import Mathlib.Data.List.Forall2
import Mathlib.Data.List.Nodup
import Mathlib.Data.List.Sort

/-!
# Rows

Lists of rows: rows that a key tells apart, and two lists whose rows correspond, in order.

* `filter_eq_singleton` — a condition that one row alone meets selects it.
* `Corresponds.exists_left`, `Corresponds.exists_right` — a row has one that corresponds to it.
* `Corresponds.insertionSort` — what corresponds is sorted alike.
* `find?_shown`, `insertionSort_shown` — rows that show the same are found and sorted alike.
-/

namespace MiniVault.Foundations

variable {α β κ : Type}

/-- A condition that one row alone meets selects it. -/
theorem filter_eq_singleton {l : List α} {f : α → κ} (hkeys : (l.map f).Nodup) {a : α} (ha : a ∈ l) {p : α → Bool}
    (hpa : p a = true) (hp : ∀ b ∈ l, p b = true → f b = f a) : l.filter p = [a] := by
  induction l with
  | nil => cases ha
  | cons b l ih =>
    obtain ⟨hnot, hkeys⟩ := List.nodup_cons.mp hkeys
    rcases List.mem_cons.mp ha with rfl | ha
    · have hrest : l.filter p = [] := by
        refine List.filter_eq_nil_iff.mpr fun c hc hpc => hnot ?_
        rw [← hp c (List.mem_cons_of_mem _ hc) hpc]
        exact List.mem_map_of_mem hc
      rw [List.filter_cons_of_pos hpa, hrest]
    · have hpb : ¬ p b = true := by
        intro hpb
        apply hnot
        rw [hp b List.mem_cons_self hpb]
        exact List.mem_map_of_mem ha
      rw [List.filter_cons_of_neg hpb]
      exact ih hkeys ha fun c hc => hp c (List.mem_cons_of_mem _ hc)

/-- The rows correspond, in order. -/
abbrev Corresponds (R : α → β → Prop) (as : List α) (bs : List β) : Prop := List.Forall₂ R as bs

namespace Corresponds

variable {R : α → β → Prop} {as : List α} {bs : List β}

theorem exists_left (h : Corresponds R as bs) {a : α} (ha : a ∈ as) : ∃ b ∈ bs, R a b := by
  induction h with
  | nil => cases ha
  | cons hab _ ih =>
    rcases List.mem_cons.mp ha with rfl | ha
    · exact ⟨_, List.mem_cons_self, hab⟩
    · obtain ⟨b, hb, hR⟩ := ih ha
      exact ⟨b, List.mem_cons_of_mem _ hb, hR⟩

theorem exists_right (h : Corresponds R as bs) {b : β} (hb : b ∈ bs) : ∃ a ∈ as, R a b := by
  induction h with
  | nil => cases hb
  | cons hab _ ih =>
    rcases List.mem_cons.mp hb with rfl | hb
    · exact ⟨_, List.mem_cons_self, hab⟩
    · obtain ⟨a, ha, hR⟩ := ih hb
      exact ⟨a, List.mem_cons_of_mem _ ha, hR⟩

/-- Rows at one place correspond. -/
theorem getElem? (h : Corresponds R as bs) {i : ℕ} {a : α} {b : β} (ha : as[i]? = some a) (hb : bs[i]? = some b) : R a b := by
  induction h generalizing i with
  | nil => simp at ha
  | cons hab _ ih =>
    cases i with
    | zero =>
      obtain rfl := Option.some.inj ha
      obtain rfl := Option.some.inj hb
      exact hab
    | succ i => exact ih ha hb

/-- One more row on each side. -/
theorem append_singleton (h : Corresponds R as bs) {a : α} {b : β} (hab : R a b) : Corresponds R (as ++ [a]) (bs ++ [b]) := by
  induction h with
  | nil => exact .cons hab .nil
  | cons hcd _ ih => exact .cons hcd ih

/-- Both sides are changed so that what corresponded still does. -/
theorem map {S : α → β → Prop} {f : α → α} {g : β → β} (h : Corresponds R as bs)
    (hfg : ∀ a ∈ as, ∀ b ∈ bs, R a b → S (f a) (g b)) : Corresponds S (as.map f) (bs.map g) := by
  induction h with
  | nil => exact .nil
  | cons hab _ ih =>
    exact .cons (hfg _ List.mem_cons_self _ List.mem_cons_self hab) (ih fun a ha b hb =>
      hfg a (List.mem_cons_of_mem _ ha) b (List.mem_cons_of_mem _ hb))

/-- Conditions that agree on rows that correspond select rows that do. -/
theorem filter {p : α → Bool} {q : β → Bool} (h : Corresponds R as bs) (hpq : ∀ a b, R a b → p a = q b) :
    Corresponds R (as.filter p) (bs.filter q) := by
  induction h with
  | nil => exact .nil
  | @cons a b _ _ hab _ ih =>
    rw [List.filter_cons, List.filter_cons, hpq a b hab]
    split
    · exact .cons hab ih
    · exact ih

/-- Orders that agree on rows that correspond sort both sides alike. -/
theorem insertionSort {r : α → α → Prop} {q : β → β → Prop} [DecidableRel r] [DecidableRel q] (h : Corresponds R as bs)
    (hrq : ∀ a a' b b', R a b → R a' b' → (r a a' ↔ q b b')) :
    Corresponds R (as.insertionSort r) (bs.insertionSort q) := by
  have hinsert : ∀ {as bs} {a b}, Corresponds R as bs → R a b → Corresponds R (as.orderedInsert r a) (bs.orderedInsert q b) := by
    intro as bs a b h hab
    induction h with
    | nil => exact .cons hab .nil
    | @cons c d cs ds hcd hrest ih =>
      rw [List.orderedInsert_cons, List.orderedInsert_cons]
      by_cases hac : r a c
      · rw [if_pos hac, if_pos ((hrq a c b d hab hcd).mp hac)]
        exact .cons hab (.cons hcd hrest)
      · rw [if_neg hac, if_neg fun hbd => hac ((hrq a c b d hab hcd).mpr hbd)]
        exact .cons hcd ih
  induction h with
  | nil => exact .nil
  | cons hab _ ih => exact hinsert ih hab

end Corresponds

/-! ### Rows that show the same -/

section Shown

variable {γ : Type} {f : α → γ} {as bs : List α}

/-- Rows that show the same are found alike. -/
theorem find?_shown (h : as.map f = bs.map f) {p q : α → Bool} {r : γ → Bool} (hp : ∀ a, p a = r (f a))
    (hq : ∀ a, q a = r (f a)) : (as.find? p).map f = (bs.find? q).map f := by
  have hpr : p = r ∘ f := funext hp
  have hqr : q = r ∘ f := funext hq
  rw [hpr, hqr, ← List.find?_map, ← List.find?_map, h]

/-- Rows that show the same are sorted alike. -/
theorem insertionSort_shown (h : as.map f = bs.map f) {r : α → α → Prop} {s : γ → γ → Prop} [DecidableRel r] [DecidableRel s]
    (hrs : ∀ a b, r a b ↔ s (f a) (f b)) : (as.insertionSort r).map f = (bs.insertionSort r).map f := by
  rw [List.map_insertionSort r s f as fun a _ b _ => hrs a b, List.map_insertionSort r s f bs fun a _ b _ => hrs a b, h]

end Shown

end MiniVault.Foundations
