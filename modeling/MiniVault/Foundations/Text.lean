import Mathlib.Algebra.Order.Ring.Int
import Mathlib.Data.List.DropRight
import Mathlib.Data.List.Induction
import Mathlib.Data.List.Infix
import Mathlib.Tactic.Common

/-!
# Python text and bytes

Python's `str` is a sequence of code points. A code point need not be a
character: a lone surrogate is one too, and only when the text is written as
UTF-8 — to a database, to a cipher — does it turn out that it has no bytes. So
text here is a list of `PyChar`, a character or a lone surrogate, and
`utf8Encode` is partial.

## What is proved

* `utf8Decode_utf8Encode` — text that has UTF-8 bytes is read back from them, so
  `utf8Encode_inj`: different texts have different bytes.
* `append_sep_inj` and `append_sep_inj_left` — a text cut at the last, or the
  first, occurrence of a separator is cut in one way only. These say when a
  string built from fields can be taken apart.
* `decimal_inj` — different numbers are written differently, and `sep_notMem_decimal`
  says a number is written without separators.
-/

namespace MiniVault.Foundations

/-- A byte string. -/
abbrev Bytes := List UInt8

/-- A code point of a Python string. -/
inductive PyChar where
  /-- A Unicode scalar value. -/
  | scalar (c : Char)
  /-- A surrogate that is not half of a pair, by its place among the surrogates. -/
  | surrogate (k : Fin 2048)
  deriving DecidableEq

/-- A Python string. -/
abbrev PyStr := List PyChar

/-- The text of scalar values. -/
def ofChars (cs : List Char) : PyStr := cs.map .scalar

/-- A literal. -/
def py (s : String) : PyStr := ofChars s.toList

/-- The code point's number. -/
def PyChar.code : PyChar → ℕ
  | .scalar c => c.toNat
  | .surrogate k => 0xD800 + k

/-- The scalar value, where the code point is one. -/
def PyChar.scalar? : PyChar → Option Char
  | .scalar c => some c
  | .surrogate _ => none

/-- The text has UTF-8 bytes: it has no lone surrogate. -/
def Encodable (s : PyStr) : Prop := ∀ c ∈ s, c.scalar?.isSome

instance (s : PyStr) : Decidable (Encodable s) := inferInstanceAs (Decidable (∀ c ∈ s, _))

@[simp] theorem encodable_nil : Encodable [] := by simp [Encodable]

@[simp] theorem encodable_append (s t : PyStr) : Encodable (s ++ t) ↔ Encodable s ∧ Encodable t := by
  simp only [Encodable, List.mem_append, or_imp, forall_and]

@[simp] theorem encodable_ofChars (cs : List Char) : Encodable (ofChars cs) := by
  intro c hc
  obtain ⟨d, -, rfl⟩ := List.mem_map.mp hc
  rfl

@[simp] theorem encodable_py (s : String) : Encodable (py s) := encodable_ofChars _

/-- Text with UTF-8 bytes is text of scalar values. -/
theorem encodable_iff (s : PyStr) : Encodable s ↔ ∃ cs, s = ofChars cs := by
  constructor
  · intro h
    induction s with
    | nil => exact ⟨[], rfl⟩
    | cons c s ih =>
      obtain ⟨cs, rfl⟩ := ih fun d hd => h d (List.mem_cons_of_mem _ hd)
      have hc := h c List.mem_cons_self
      cases c with
      | scalar c => exact ⟨c :: cs, rfl⟩
      | surrogate k => simp [PyChar.scalar?] at hc
  · rintro ⟨cs, rfl⟩
    exact encodable_ofChars cs

theorem ofChars_inj {cs ds : List Char} (h : ofChars cs = ofChars ds) : cs = ds :=
  List.map_injective_iff.mpr (fun _ _ h => PyChar.scalar.inj h) h

/-! ### UTF-8 -/

/-- `str.encode("utf-8")`: `none` is a `UnicodeEncodeError`. -/
def utf8Encode : PyStr → Option Bytes
  | [] => some []
  | .scalar c :: s => (utf8Encode s).map (String.utf8EncodeChar c ++ ·)
  | .surrogate _ :: _ => none

/-- `utf8Decode` with at most `n` characters to read. -/
def utf8DecodeN : ℕ → Bytes → Option PyStr
  | _, [] => some []
  | 0, _ :: _ => none
  | n + 1, b :: bs =>
    match (b :: bs).toByteArray.utf8DecodeChar? 0 with
    | none => none
    | some c => (utf8DecodeN n ((b :: bs).drop c.utf8Size)).map (.scalar c :: ·)

/-- `bytes.decode("utf-8")`: `none` is a `UnicodeDecodeError`. -/
def utf8Decode (bs : Bytes) : Option PyStr := utf8DecodeN bs.length bs

theorem utf8Encode_ofChars (cs : List Char) : utf8Encode (ofChars cs) = some (cs.flatMap String.utf8EncodeChar) := by
  induction cs with
  | nil => rfl
  | cons c cs ih =>
    simp only [ofChars, List.map_cons] at ih ⊢
    simp [utf8Encode, ih]

theorem utf8Encode_eq_some_iff {s : PyStr} {b : Bytes} :
    utf8Encode s = some b ↔ ∃ cs, s = ofChars cs ∧ b = cs.flatMap String.utf8EncodeChar := by
  constructor
  · intro h
    have hs : Encodable s := by
      induction s generalizing b with
      | nil => exact encodable_nil
      | cons c s ih =>
        cases c with
        | scalar c =>
          simp only [utf8Encode, Option.map_eq_some_iff] at h
          obtain ⟨b', hb', -⟩ := h
          intro d hd
          rcases List.mem_cons.mp hd with rfl | hd
          · rfl
          · exact ih hb' d hd
        | surrogate k => simp [utf8Encode] at h
    obtain ⟨cs, rfl⟩ := (encodable_iff s).mp hs
    rw [utf8Encode_ofChars] at h
    exact ⟨cs, rfl, (Option.some.inj h).symm⟩
  · rintro ⟨cs, rfl, rfl⟩
    exact utf8Encode_ofChars cs

/-- The text has bytes exactly when it is `Encodable`. -/
theorem utf8Encode_isSome_iff (s : PyStr) : (utf8Encode s).isSome ↔ Encodable s := by
  rw [Option.isSome_iff_exists, encodable_iff]
  exact ⟨fun ⟨_, hb⟩ => (utf8Encode_eq_some_iff.mp hb).imp fun _ h => h.1,
    fun ⟨cs, hs⟩ => ⟨_, hs ▸ utf8Encode_ofChars cs⟩⟩

/-- The number of UTF-8 bytes of a code point; a surrogate would have three. -/
def PyChar.utf8Size : PyChar → ℕ
  | .scalar c => c.utf8Size
  | .surrogate _ => 3

/-- The number of UTF-8 bytes of a text. -/
def utf8Length (s : PyStr) : ℕ := (s.map PyChar.utf8Size).sum

@[simp] theorem utf8Length_append (s t : PyStr) : utf8Length (s ++ t) = utf8Length s + utf8Length t := by
  simp [utf8Length]

/-- `utf8Length` counts the bytes there are. -/
theorem length_utf8Encode {s : PyStr} {b : Bytes} (h : utf8Encode s = some b) : b.length = utf8Length s := by
  obtain ⟨cs, rfl, rfl⟩ := utf8Encode_eq_some_iff.mp h
  induction cs with
  | nil => rfl
  | cons c cs ih =>
    have hrest := ih (utf8Encode_ofChars cs)
    simp only [utf8Length, ofChars, List.map_cons, List.sum_cons, PyChar.utf8Size, List.flatMap_cons, List.length_append,
      String.length_utf8EncodeChar] at hrest ⊢
    rw [hrest]

/-- A code point has four bytes at most. -/
theorem utf8Length_le (s : PyStr) : utf8Length s ≤ 4 * s.length := by
  induction s with
  | nil => rfl
  | cons c s ih =>
    have hc : c.utf8Size ≤ 4 := by
      cases c with
      | scalar c => exact Char.utf8Size_le_four c
      | surrogate k => simp [PyChar.utf8Size]
    simp only [utf8Length, List.map_cons, List.sum_cons, List.length_cons] at ih ⊢
    omega

/-- Letters and digits have one byte each. -/
theorem utf8Length_ofChars {cs : List Char} (h : ∀ c ∈ cs, c.utf8Size = 1) : utf8Length (ofChars cs) = cs.length := by
  induction cs with
  | nil => rfl
  | cons c cs ih =>
    have hrest := ih fun d hd => h d (List.mem_cons_of_mem _ hd)
    simp only [utf8Length, ofChars, List.map_cons, List.sum_cons, List.length_cons, PyChar.utf8Size] at hrest ⊢
    rw [hrest, h c List.mem_cons_self, Nat.add_comm]

private theorem utf8DecodeN_flatMap (cs : List Char) :
    ∀ n, (cs.flatMap String.utf8EncodeChar).length ≤ n →
      utf8DecodeN n (cs.flatMap String.utf8EncodeChar) = some (ofChars cs) := by
  induction cs with
  | nil => intro n _; cases n <;> rfl
  | cons c cs ih =>
    intro n hn
    have hlen : (String.utf8EncodeChar c).length = c.utf8Size := String.length_utf8EncodeChar c
    have hpos := Char.utf8Size_pos c
    rw [List.flatMap_cons] at hn ⊢
    rw [List.length_append, hlen] at hn
    obtain ⟨b, bs, hb⟩ : ∃ b bs, String.utf8EncodeChar c = b :: bs := by
      rcases h : String.utf8EncodeChar c with _ | ⟨b, bs⟩
      · rw [h] at hlen
        simp only [List.length_nil] at hlen
        omega
      · exact ⟨b, bs, rfl⟩
    obtain ⟨m, rfl⟩ : ∃ m, n = m + 1 := ⟨n - 1, by omega⟩
    have hdec : (String.utf8EncodeChar c ++ cs.flatMap String.utf8EncodeChar).toByteArray.utf8DecodeChar? 0 = some c := by
      rw [List.toByteArray_append]
      exact ByteArray.utf8DecodeChar?_utf8EncodeChar_append
    have hdrop : (String.utf8EncodeChar c ++ cs.flatMap String.utf8EncodeChar).drop c.utf8Size =
        cs.flatMap String.utf8EncodeChar := by
      rw [← hlen, List.drop_left]
    rw [hb, List.cons_append] at hdec hdrop ⊢
    simp only [utf8DecodeN, hdec, hdrop, ih m (by omega), Option.map_some]
    rfl

/-- **Text is read back from its bytes.** -/
theorem utf8Decode_utf8Encode {s : PyStr} {b : Bytes} (h : utf8Encode s = some b) : utf8Decode b = some s := by
  obtain ⟨cs, rfl, rfl⟩ := utf8Encode_eq_some_iff.mp h
  exact utf8DecodeN_flatMap cs _ le_rfl

/-- Different texts have different bytes. -/
theorem utf8Encode_inj {s t : PyStr} {b : Bytes} (hs : utf8Encode s = some b) (ht : utf8Encode t = some b) :
    s = t :=
  Option.some.inj ((utf8Decode_utf8Encode hs).symm.trans (utf8Decode_utf8Encode ht))

/-- Texts with different beginnings have different bytes. -/
theorem utf8Encode_ne_of_prefix {s t p q : PyStr} {b c : Bytes} (hs : p <+: s) (ht : q <+: t)
    (hlen : p.length = q.length) (hne : p ≠ q) (hb : utf8Encode s = some b) (hc : utf8Encode t = some c) : b ≠ c := by
  rintro rfl
  obtain rfl := utf8Encode_inj hb hc
  exact hne ((List.prefix_of_prefix_length_le hs ht hlen.le).eq_of_length hlen)

/-! ### White space and prefixes -/

/-- The code points `str.strip` and `str.isspace` take for white space. -/
def PyChar.isSpace (c : PyChar) : Bool :=
  let n := c.code
  (9 ≤ n && n ≤ 13) || (28 ≤ n && n ≤ 32) || n == 0x85 || n == 0xA0 || n == 0x1680 ||
    (0x2000 ≤ n && n ≤ 0x200A) || n == 0x2028 || n == 0x2029 || n == 0x202F || n == 0x205F || n == 0x3000

/-- `str.strip()`. -/
def strip (s : PyStr) : PyStr := (s.dropWhile PyChar.isSpace).rdropWhile PyChar.isSpace

/-- `bad in text`. -/
def contains (text bad : PyStr) : Bool := decide (bad <:+: text)

theorem mem_of_mem_strip {s : PyStr} {c : PyChar} (h : c ∈ strip s) : c ∈ s :=
  (List.dropWhile_sublist _).mem ((List.rdropWhile_prefix PyChar.isSpace _).sublist.mem h)

theorem Encodable.strip {s : PyStr} (h : Encodable s) : Encodable (strip s) :=
  fun c hc => h c (mem_of_mem_strip hc)

/-! ### Separators -/

/-- `str.split(sep, n)` for a one-character separator: at most `n` cuts, from the
left. -/
def splitMax (sep : PyChar) : ℕ → PyStr → List PyStr
  | _, [] => [[]]
  | 0, s => [s]
  | n + 1, c :: s =>
    if c = sep then [] :: splitMax sep n s
    else
      match splitMax sep (n + 1) s with
      | [] => [[c]]
      | p :: ps => (c :: p) :: ps

/-- The ways to cut a text in two at an occurrence of a separator. -/
def cuts (sep : PyChar) : PyStr → List (PyStr × PyStr)
  | [] => []
  | c :: s => (if c = sep then [([], s)] else []) ++ (cuts sep s).map fun (a, b) => (c :: a, b)

theorem mem_cuts {sep : PyChar} {s a b : PyStr} : (a, b) ∈ cuts sep s ↔ s = a ++ sep :: b := by
  induction s generalizing a with
  | nil => simp [cuts]
  | cons c s ih =>
    simp only [cuts, List.mem_append, List.mem_map, Prod.mk.injEq, Prod.exists]
    constructor
    · rintro (h | ⟨a', b', h, rfl, rfl⟩)
      · split_ifs at h with hc
        · obtain ⟨rfl, rfl⟩ := Prod.mk.inj (List.mem_singleton.mp h)
          rw [hc, List.nil_append]
        · cases h
      · rw [ih.mp h, List.cons_append]
    · intro h
      cases a with
      | nil =>
        obtain ⟨rfl, rfl⟩ := List.cons.inj h
        exact .inl (by simp)
      | cons d a =>
        obtain ⟨rfl, hs⟩ := List.cons.inj h
        exact .inr ⟨a, b, ih.mpr hs, rfl, rfl⟩

theorem splitMax_of_notMem {sep : PyChar} {s : PyStr} (h : sep ∉ s) (n : ℕ) : splitMax sep n s = [s] := by
  induction s with
  | nil => cases n <;> rfl
  | cons c s ih =>
    cases n with
    | zero => rfl
    | succ n =>
      simp only [List.mem_cons, not_or] at h
      simp [splitMax, Ne.symm h.1, ih h.2]

theorem splitMax_append {sep : PyChar} {a : PyStr} (h : sep ∉ a) (n : ℕ) (b : PyStr) :
    splitMax sep (n + 1) (a ++ sep :: b) = a :: splitMax sep n b := by
  induction a with
  | nil => simp [splitMax]
  | cons c a ih =>
    simp only [List.mem_cons, not_or] at h
    simp [splitMax, Ne.symm h.1, ih h.2]

/-- There is always a part. -/
theorem splitMax_ne_nil (sep : PyChar) (n : ℕ) (s : PyStr) : splitMax sep n s ≠ [] := by
  cases s with
  | nil => cases n <;> simp [splitMax]
  | cons c s =>
    cases n with
    | zero => simp [splitMax]
    | succ n =>
      simp only [splitMax]
      split_ifs
      · simp
      · split <;> simp

/-- Where there is a cut, the part in front of it has no separator. -/
theorem splitMax_head {sep : PyChar} {n : ℕ} {s a : PyStr} {parts : List PyStr} (h : splitMax sep (n + 1) s = a :: parts) :
    sep ∉ a := by
  induction s generalizing a parts with
  | nil =>
    obtain rfl : a = [] := by simpa [splitMax] using (List.cons.inj h).1.symm
    simp
  | cons c s ih =>
    simp only [splitMax] at h
    split_ifs at h with hc
    · rw [← (List.cons.inj h).1]
      simp
    · rcases hs : splitMax sep (n + 1) s with - | ⟨q, qs⟩
      · exact absurd hs (splitMax_ne_nil sep (n + 1) s)
      · rw [hs] at h
        rw [← (List.cons.inj h).1, List.mem_cons, not_or]
        exact ⟨Ne.symm hc, ih hs⟩

/-- What a text that may be cut is cut into: it has no separator, or its first part ends at one. -/
theorem splitMax_succ (sep : PyChar) (n : ℕ) (s : PyStr) :
    (sep ∉ s ∧ splitMax sep (n + 1) s = [s]) ∨
      ∃ a b, sep ∉ a ∧ s = a ++ sep :: b ∧ splitMax sep (n + 1) s = a :: splitMax sep n b := by
  by_cases h : sep ∈ s
  · right
    obtain ⟨a, b, rfl, ha⟩ := List.eq_append_cons_of_mem h
    exact ⟨a, b, ha, rfl, splitMax_append ha n b⟩
  · exact .inl ⟨h, splitMax_of_notMem h _⟩

theorem splitMax_zero (sep : PyChar) (s : PyStr) : splitMax sep 0 s = [s] := by
  cases s <;> rfl

/-- A text cut at the last separator is cut in one way. -/
theorem append_sep_inj {γ : Type} {sep : γ} {a b x y : List γ} (hx : sep ∉ x) (hy : sep ∉ y)
    (h : a ++ sep :: x = b ++ sep :: y) : a = b ∧ x = y := by
  rcases List.append_eq_append_iff.mp h with ⟨m, rfl, hm⟩ | ⟨m, rfl, hm⟩
  · cases m with
    | nil =>
      simp only [List.nil_append, List.cons.injEq, true_and] at hm
      exact ⟨(List.append_nil a).symm, hm⟩
    | cons c m =>
      simp only [List.cons_append, List.cons.injEq] at hm
      exact absurd (hm.2 ▸ List.mem_append_right m List.mem_cons_self) hx
  · cases m with
    | nil =>
      simp only [List.nil_append, List.cons.injEq, true_and] at hm
      exact ⟨List.append_nil b, hm.symm⟩
    | cons c m =>
      simp only [List.cons_append, List.cons.injEq] at hm
      exact absurd (hm.2 ▸ List.mem_append_right m List.mem_cons_self) hy

/-- A text cut at the first separator is cut in one way. -/
theorem append_sep_inj_left {γ : Type} {sep : γ} {a b x y : List γ} (ha : sep ∉ a) (hb : sep ∉ b)
    (h : a ++ sep :: x = b ++ sep :: y) : a = b ∧ x = y := by
  rcases List.append_eq_append_iff.mp h with ⟨m, rfl, hm⟩ | ⟨m, rfl, hm⟩
  · cases m with
    | nil =>
      simp only [List.nil_append, List.cons.injEq, true_and] at hm
      exact ⟨(List.append_nil a).symm, hm⟩
    | cons c m =>
      simp only [List.cons_append, List.cons.injEq] at hm
      exact absurd (hm.1 ▸ List.mem_append_right a List.mem_cons_self) hb
  · cases m with
    | nil =>
      simp only [List.nil_append, List.cons.injEq, true_and] at hm
      exact ⟨List.append_nil b, hm.symm⟩
    | cons c m =>
      simp only [List.cons_append, List.cons.injEq] at hm
      exact absurd (hm.1 ▸ List.mem_append_right b List.mem_cons_self) ha

/-! ### Numbers -/

/-- The decimal digits of a natural number. -/
def natText (n : ℕ) : PyStr := ofChars (Nat.toDigits 10 n)

/-- `str(i)`. -/
def decimal : ℤ → PyStr
  | .ofNat n => natText n
  | .negSucc n => .scalar '-' :: natText (n + 1)

/-- `int(digits)`, for decimal digits. -/
def natOfDigits (s : PyStr) : ℕ := Nat.ofDigitChars 10 (s.filterMap PyChar.scalar?) 0

theorem filterMap_scalar?_ofChars (cs : List Char) : (ofChars cs).filterMap PyChar.scalar? = cs := by
  induction cs with
  | nil => rfl
  | cons c cs ih =>
    simp only [ofChars, List.map_cons] at ih ⊢
    simp [PyChar.scalar?, ih]

@[simp] theorem natOfDigits_natText (n : ℕ) : natOfDigits (natText n) = n := by
  rw [natOfDigits, natText, filterMap_scalar?_ofChars]
  exact Nat.ofDigitChars_ten_toDigits

theorem digitChar_of_isDigit {c : Char} (h : c.isDigit) : ∃ n < 10, c = Nat.digitChar n := by
  simp only [Char.isDigit, Bool.and_eq_true, decide_eq_true_eq, ge_iff_le] at h
  have hlow : 48 ≤ c.toNat := h.1
  have hhigh : c.toNat ≤ 57 := h.2
  refine ⟨c.toNat - 48, by omega, ?_⟩
  have hall : ∀ n < 58, 48 ≤ n → Char.ofNat n = Nat.digitChar (n - 48) := by decide
  rw [← hall c.toNat (by omega) hlow, Char.ofNat_toNat]

/-- Digits without a zero in front are those of the number they say. -/
theorem toDigits_ofDigitChars {ds : List Char} (hdigits : ∀ d ∈ ds, d.isDigit) (hnil : ds ≠ [])
    (hhead : ds.head? ≠ some '0') : Nat.toDigits 10 (Nat.ofDigitChars 10 ds 0) = ds ∧ 0 < Nat.ofDigitChars 10 ds 0 := by
  induction ds using List.reverseRecOn with
  | nil => exact absurd rfl hnil
  | append_singleton ds d ih =>
    obtain ⟨n, hn, rfl⟩ := digitChar_of_isDigit (hdigits d (by simp))
    have hlast : ∀ m, Nat.ofDigitChars 10 [n.digitChar] m = 10 * m + n := by
      intro m
      rw [Nat.ofDigitChars_cons_digitChar_of_lt_ten hn, Nat.ofDigitChars_nil]
    rw [Nat.ofDigitChars_append, hlast]
    by_cases hds : ds = []
    · subst hds
      have hpos : n ≠ 0 := by
        rintro rfl
        exact hhead rfl
      simp only [Nat.ofDigitChars_nil, Nat.mul_zero, Nat.zero_add, List.nil_append]
      exact ⟨Nat.toDigits_of_lt_base hn, by omega⟩
    · have hhead' : ds.head? ≠ some '0' := by
        rwa [List.head?_append_of_ne_nil _ hds] at hhead
      obtain ⟨hold, hpos⟩ := ih (fun d hd => hdigits d (List.mem_append_left _ hd)) hds hhead'
      refine ⟨?_, by omega⟩
      rw [← Nat.toDigits_append_toDigits (by omega) hpos hn, hold, Nat.toDigits_of_lt_base hn]

theorem natText_inj {m n : ℕ} (h : natText m = natText n) : m = n := by
  rw [← natOfDigits_natText m, h, natOfDigits_natText]

/-- A number's digits are digits. -/
theorem isDigit_of_mem_natText {n : ℕ} {c : PyChar} (h : c ∈ natText n) : ∃ d, c = .scalar d ∧ d.isDigit := by
  obtain ⟨d, hd, rfl⟩ := List.mem_map.mp h
  exact ⟨d, rfl, Nat.isDigit_of_mem_toDigits (by omega) (by omega) hd⟩

/-- Only the number zero begins with the digit zero. -/
theorem natText_head {n : ℕ} (h : 0 < n) : ∃ d ds, natText n = .scalar d :: ds ∧ d ≠ '0' := by
  induction n using Nat.strongRecOn with
  | ind n ih =>
    by_cases hsmall : n < 10
    · refine ⟨n.digitChar, [], by rw [natText, Nat.toDigits_of_lt_base hsmall]; rfl, ?_⟩
      have hdigit : ∀ m < 10, 0 < m → m.digitChar ≠ '0' := by decide
      exact hdigit n hsmall h
    · obtain ⟨d, ds, hd, hne⟩ := ih (n / 10) (by omega) (by omega)
      refine ⟨d, ds ++ ofChars [(n % 10).digitChar], ?_, hne⟩
      rw [natText, Nat.toDigits_of_base_le (by omega) (by omega), ofChars, List.map_append]
      show natText (n / 10) ++ _ = _
      rw [hd]
      rfl

@[simp] theorem encodable_decimal (i : ℤ) : Encodable (decimal i) := by
  cases i with
  | ofNat n => exact encodable_ofChars _
  | negSucc n => exact encodable_ofChars ('-' :: Nat.toDigits 10 (n + 1))

/-- A number is written without a character that is neither a digit nor a minus sign. -/
theorem sep_notMem_decimal {c : Char} (hd : c.isDigit = false) (hm : c ≠ '-') (i : ℤ) :
    PyChar.scalar c ∉ decimal i := by
  have hnat : ∀ n, PyChar.scalar c ∉ natText n := by
    intro n h
    obtain ⟨d, hcd, hdig⟩ := isDigit_of_mem_natText h
    rw [PyChar.scalar.inj hcd, hdig] at hd
    cases hd
  cases i with
  | ofNat n => exact hnat n
  | negSucc n =>
    intro h
    rcases List.mem_cons.mp h with h | h
    · exact hm (PyChar.scalar.inj h)
    · exact hnat _ h

/-- Different numbers are written differently. -/
theorem decimal_inj {i j : ℤ} (h : decimal i = decimal j) : i = j := by
  have hne : ∀ m n, natText m ≠ .scalar '-' :: natText n := by
    intro m n h
    obtain ⟨d, hcd, hdig⟩ := isDigit_of_mem_natText (c := .scalar '-') (h ▸ List.mem_cons_self)
    rw [← PyChar.scalar.inj hcd] at hdig
    exact absurd hdig (by decide)
  cases i with
  | ofNat m =>
    cases j with
    | ofNat n => rw [natText_inj h]
    | negSucc n => exact absurd h (hne _ _)
  | negSucc m =>
    cases j with
    | ofNat n => exact absurd h.symm (hne _ _)
    | negSucc n =>
      simp only [decimal, List.cons.injEq, true_and] at h
      rw [Nat.succ_injective (natText_inj h)]

end MiniVault.Foundations
