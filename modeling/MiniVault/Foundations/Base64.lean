import Mathlib.Data.List.Basic
import Mathlib.Tactic.Common

/-!
# Base 64

The standard alphabet with padding. `decode` accepts exactly the correctly
padded texts over the alphabet; it does not look at the low bits of the last
symbol before the padding, so several texts can stand for the same bytes.

## What is proved

* `decode_encode` — decoding undoes encoding.
* `mem_encode` — an encoded text is made of symbols of the alphabet and padding.
* `colon_notMem_of_decode` — so is, as far as colons go, whatever can be decoded.
-/

namespace MiniVault.Foundations.Base64

/-- The padding character. -/
def pad : Char := '='

/-- The symbol for a number below 64. -/
def symbol (n : ℕ) : Char :=
  if n < 26 then .ofNat (65 + n)
  else if n < 52 then .ofNat (97 + (n - 26))
  else if n < 62 then .ofNat (48 + (n - 52))
  else if n = 62 then '+' else '/'

/-- The number a symbol stands for. -/
def sextet (c : Char) : Option ℕ :=
  let n := c.toNat
  if 65 ≤ n ∧ n ≤ 90 then some (n - 65)
  else if 97 ≤ n ∧ n ≤ 122 then some (n - 97 + 26)
  else if 48 ≤ n ∧ n ≤ 57 then some (n - 48 + 52)
  else if c = '+' then some 62
  else if c = '/' then some 63
  else none

/-- Three bytes become four symbols; one or two left over are padded to four. -/
def encode : List UInt8 → List Char
  | [] => []
  | [a] => [symbol (a.toNat / 4), symbol (a.toNat % 4 * 16), pad, pad]
  | [a, b] => [symbol (a.toNat / 4), symbol (a.toNat % 4 * 16 + b.toNat / 16), symbol (b.toNat % 16 * 4), pad]
  | a :: b :: c :: bs =>
    symbol (a.toNat / 4) :: symbol (a.toNat % 4 * 16 + b.toNat / 16) ::
      symbol (b.toNat % 16 * 4 + c.toNat / 64) :: symbol (c.toNat % 64) :: encode bs

/-- Four symbols become three bytes; the last four may end in one or two padding
characters and then become two bytes or one. -/
def decode : List Char → Option (List UInt8)
  | [] => some []
  | w :: x :: y :: z :: cs =>
    match sextet w, sextet x, sextet y, sextet z with
    | some w, some x, some y, some z =>
      (decode cs).map fun bs =>
        .ofNat (w * 4 + x / 16) :: .ofNat (x % 16 * 16 + y / 4) :: .ofNat (y % 4 * 64 + z) :: bs
    | some w, some x, some y, none =>
      if z = pad ∧ cs = [] then some [.ofNat (w * 4 + x / 16), .ofNat (x % 16 * 16 + y / 4)] else none
    | some w, some x, none, none =>
      if y = pad ∧ z = pad ∧ cs = [] then some [.ofNat (w * 4 + x / 16)] else none
    | _, _, _, _ => none
  | _ => none

/-- A symbol stands for the number it was made for. -/
theorem sextet_symbol : ∀ n < 64, sextet (symbol n) = some n := by decide

/-- The padding character stands for no number. -/
@[simp] theorem sextet_pad : sextet pad = none := by decide

/-- A symbol is not the separator of a text that is cut at colons. -/
theorem symbol_ne_colon : ∀ n < 64, symbol n ≠ ':' := by decide

theorem symbol_ascii : ∀ n < 64, (symbol n).toNat < 128 := by decide

private theorem ofNat_eq {a : UInt8} {n : ℕ} (h : n = a.toNat) : UInt8.ofNat n = a := by
  rw [h, UInt8.ofNat_toNat]

/-- **Decoding undoes encoding.** -/
theorem decode_encode (bs : List UInt8) : decode (encode bs) = some bs := by
  induction bs using encode.induct with
  | case1 => rfl
  | case2 a =>
    have ha := a.toNat_lt
    simp only [encode, decode, sextet_symbol _ (show a.toNat / 4 < 64 by omega),
      sextet_symbol _ (show a.toNat % 4 * 16 < 64 by omega), sextet_pad]
    simp only [and_self, ↓reduceIte, Option.some.injEq, List.cons.injEq, and_true]
    exact ofNat_eq (by omega)
  | case3 a b =>
    have ha := a.toNat_lt
    have hb := b.toNat_lt
    simp only [encode, decode, sextet_symbol _ (show a.toNat / 4 < 64 by omega),
      sextet_symbol _ (show a.toNat % 4 * 16 + b.toNat / 16 < 64 by omega),
      sextet_symbol _ (show b.toNat % 16 * 4 < 64 by omega), sextet_pad]
    simp only [and_self, ↓reduceIte, Option.some.injEq, List.cons.injEq, and_true]
    exact ⟨ofNat_eq (by omega), ofNat_eq (by omega)⟩
  | case4 a b c bs ih =>
    have ha := a.toNat_lt
    have hb := b.toNat_lt
    have hc := c.toNat_lt
    simp only [encode, decode, sextet_symbol _ (show a.toNat / 4 < 64 by omega),
      sextet_symbol _ (show a.toNat % 4 * 16 + b.toNat / 16 < 64 by omega),
      sextet_symbol _ (show b.toNat % 16 * 4 + c.toNat / 64 < 64 by omega),
      sextet_symbol _ (show c.toNat % 64 < 64 by omega), ih, Option.map_some, Option.some.injEq,
      List.cons.injEq, and_true]
    exact ⟨ofNat_eq (by omega), ofNat_eq (by omega), ofNat_eq (by omega)⟩

/-- An encoded text is made of symbols of the alphabet and padding. -/
theorem mem_encode {bs : List UInt8} {c : Char} (h : c ∈ encode bs) : (∃ n < 64, c = symbol n) ∨ c = pad := by
  induction bs using encode.induct with
  | case1 => cases h
  | case2 a =>
    have ha := a.toNat_lt
    simp only [encode, List.mem_cons, List.not_mem_nil, or_false] at h
    rcases h with rfl | rfl | rfl | rfl
    · exact .inl ⟨_, by omega, rfl⟩
    · exact .inl ⟨_, by omega, rfl⟩
    · exact .inr rfl
    · exact .inr rfl
  | case3 a b =>
    have ha := a.toNat_lt
    have hb := b.toNat_lt
    simp only [encode, List.mem_cons, List.not_mem_nil, or_false] at h
    rcases h with rfl | rfl | rfl | rfl
    · exact .inl ⟨_, by omega, rfl⟩
    · exact .inl ⟨_, by omega, rfl⟩
    · exact .inl ⟨_, by omega, rfl⟩
    · exact .inr rfl
  | case4 a b c bs ih =>
    have ha := a.toNat_lt
    have hb := b.toNat_lt
    have hc := c.toNat_lt
    simp only [encode, List.mem_cons] at h
    rcases h with rfl | rfl | rfl | rfl | h
    · exact .inl ⟨_, by omega, rfl⟩
    · exact .inl ⟨_, by omega, rfl⟩
    · exact .inl ⟨_, by omega, rfl⟩
    · exact .inl ⟨_, by omega, rfl⟩
    · exact ih h

/-- Three bytes become four symbols. -/
theorem length_encode (bs : List UInt8) : (encode bs).length = 4 * ((bs.length + 2) / 3) := by
  induction bs using encode.induct with
  | case1 => rfl
  | case2 a => simp [encode]
  | case3 a b => simp [encode]
  | case4 a b c bs ih =>
    simp only [encode, List.length_cons, ih]
    omega

theorem colon_notMem_encode (bs : List UInt8) : ':' ∉ encode bs := by
  intro h
  rcases mem_encode h with ⟨n, hn, hc⟩ | hc
  · exact symbol_ne_colon n hn hc.symm
  · exact absurd hc (by decide)

theorem ascii_of_mem_encode {bs : List UInt8} {c : Char} (h : c ∈ encode bs) : c.toNat < 128 := by
  rcases mem_encode h with ⟨n, hn, rfl⟩ | rfl
  · exact symbol_ascii n hn
  · decide

/-- What can be decoded has no colon in it. -/
theorem colon_notMem_of_decode {cs : List Char} {bs : List UInt8} (h : decode cs = some bs) : ':' ∉ cs := by
  have hcolon : sextet ':' = none := by decide
  have hsextet : ∀ {c : Char} {n : ℕ}, sextet c = some n → ':' ≠ c := by
    rintro c n hc rfl
    rw [hcolon] at hc
    cases hc
  have hpad : ':' ≠ pad := by decide
  induction cs using decode.induct generalizing bs with
  | case1 => simp
  | case2 w x y z cs w' x' y' z' hz hy hx hw ih =>
    simp only [decode, hw, hx, hy, hz, Option.map_eq_some_iff] at h
    obtain ⟨rest, hrest, -⟩ := h
    simp only [List.mem_cons, not_or]
    exact ⟨hsextet hw, hsextet hx, hsextet hy, hsextet hz, ih hrest⟩
  | case3 w x y z cs w' x' y' hz hy hx hw hend =>
    obtain ⟨rfl, rfl⟩ := hend
    simp only [List.mem_cons, List.not_mem_nil, or_false, not_or]
    exact ⟨hsextet hw, hsextet hx, hsextet hy, hpad⟩
  | case5 w x y z cs w' x' hz hy hx hw hend =>
    obtain ⟨rfl, rfl, rfl⟩ := hend
    simp only [List.mem_cons, List.not_mem_nil, or_false, not_or]
    exact ⟨hsextet hw, hsextet hx, hpad, hpad⟩
  | case4 w x y z cs w' x' y' hz hy hx hw hend =>
    simp only [decode, hw, hx, hy, hz, hend, ↓reduceIte, reduceCtorEq] at h
  | case6 w x y z cs w' x' hz hy hx hw hend =>
    simp only [decode, hw, hx, hy, hz, hend, ↓reduceIte, reduceCtorEq] at h
  | case7 w x y z cs h₁ h₂ h₃ =>
    simp only [decode, reduceCtorEq] at h
  | case8 cs h₁ h₂ =>
    unfold decode at h
    split at h
    · exact (h₁ rfl).elim
    · exact (h₂ _ _ _ _ _ rfl).elim
    · cases h

end MiniVault.Foundations.Base64
