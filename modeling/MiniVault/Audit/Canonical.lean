import MiniVault.Audit.Log

/-!
# The canonical encoding of an audit entry

An entry is hashed as a JSON object with its members in a fixed order and without
blanks. What the columns hold can be read back from it: text stands between quotation
marks and escapes those inside, numbers have only digits and a sign, a float shows a
point or an exponent.

## What is proved

* `canonical_inj` — two entries with one encoding are the same, where the columns of the
  first hold text, integers or nothing, as the code puts there.
* `hashMaterial_inj` — the same for what is hashed, with the hash in front.
-/

namespace MiniVault

open Foundations

/-! ### Strings -/

/-- The number a hexadecimal digit stands for. -/
def hexValue : PyChar → ℕ
  | .scalar c => if c.toNat < 58 then c.toNat - 48 else c.toNat - 87
  | .surrogate _ => 0

/-- The first code point of the inside of a JSON string, and the rest. -/
def unescape : PyStr → Option (PyChar × PyStr)
  | [] => none
  | c :: s =>
    if c = .scalar '\\' then
      match s with
      | .scalar 'n' :: s => some (.scalar '\n', s)
      | .scalar 'r' :: s => some (.scalar '\r', s)
      | .scalar 't' :: s => some (.scalar '\t', s)
      | .scalar 'f' :: s => some (.scalar (.ofNat 12), s)
      | .scalar 'b' :: s => some (.scalar (.ofNat 8), s)
      | .scalar 'u' :: _ :: _ :: h :: l :: s => some (.scalar (.ofNat (16 * hexValue h + hexValue l)), s)
      | d :: s => some (d, s)
      | [] => none
    else some (c, s)

theorem hexValue_hexDigit : ∀ n < 32, 16 * hexValue (.scalar (hexDigit (n / 16))) +
    hexValue (.scalar (hexDigit (n % 16))) = n := by
  decide

/-- An escaped code point is read back. -/
theorem unescape_jsonEscape (c : PyChar) (s : PyStr) : unescape (jsonEscape c ++ s) = some (c, s) := by
  cases c with
  | surrogate k => simp [jsonEscape, unescape]
  | scalar c =>
    simp only [jsonEscape]
    split_ifs with h1 h2 h3 h4 h5 h6 h7 h8
    · subst h1
      rfl
    · subst h2
      rfl
    · subst h3
      rfl
    · subst h4
      rfl
    · subst h5
      rfl
    · have hc : c = .ofNat 12 := by rw [← h6, Char.ofNat_toNat]
      subst hc
      rfl
    · have hc : c = .ofNat 8 := by rw [← h7, Char.ofNat_toNat]
      subst hc
      rfl
    · show some (PyChar.scalar (.ofNat (16 * hexValue (.scalar (hexDigit (c.toNat / 16))) +
        hexValue (.scalar (hexDigit (c.toNat % 16))))), s) = _
      rw [hexValue_hexDigit _ h8, Char.ofNat_toNat]
    · simp [unescape, h2]

/-- An escaped code point does not begin with a quotation mark. -/
theorem quote_ne_head_jsonEscape (c : PyChar) (s t : PyStr) : .scalar '"' :: s ≠ jsonEscape c ++ t := by
  intro h
  have hread := unescape_jsonEscape c t
  rw [← h] at hread
  have hc : c = .scalar '"' := by
    simp only [unescape, PyChar.scalar.injEq, Char.reduceEq, ↓reduceIte, Option.some.injEq, Prod.mk.injEq] at hread
    exact hread.1.symm
  subst hc
  cases h

/-- The inside of a JSON string, with its closing mark, is read in one way. -/
theorem flatMap_jsonEscape_inj {a b s t : PyStr}
    (h : a.flatMap jsonEscape ++ .scalar '"' :: s = b.flatMap jsonEscape ++ .scalar '"' :: t) : a = b ∧ s = t := by
  induction a generalizing b with
  | nil =>
    cases b with
    | nil => exact ⟨rfl, (List.cons.inj h).2⟩
    | cons d b =>
      rw [List.flatMap_cons, List.append_assoc] at h
      exact absurd h (quote_ne_head_jsonEscape d s _)
  | cons c a ih =>
    cases b with
    | nil =>
      rw [List.flatMap_cons, List.append_assoc] at h
      exact absurd h.symm (quote_ne_head_jsonEscape c t _)
    | cons d b =>
      rw [List.flatMap_cons, List.flatMap_cons, List.append_assoc, List.append_assoc] at h
      have hread := congrArg unescape h
      rw [unescape_jsonEscape, unescape_jsonEscape] at hread
      obtain ⟨rfl, hrest⟩ := Prod.mk.inj (Option.some.inj hread)
      obtain ⟨rfl, hst⟩ := ih hrest
      exact ⟨rfl, hst⟩

/-! ### Cells -/

section Cells

/-- A cell that the code puts into the log: text, an integer or nothing. -/
def Value.Plain : Value → Prop
  | .none => True
  | .int _ => True
  | .str _ => True
  | _ => False

variable [Platform]

omit [Platform] in
/-- A decimal number is not empty. -/
theorem decimal_ne_nil (i : ℤ) : decimal i ≠ [] := by
  intro h
  cases i with
  | negSucc n => cases h
  | ofNat n =>
    have hdigits : Nat.toDigits 10 n = [] := List.map_eq_nil_iff.mp h
    exact Nat.toDigits_ne_nil hdigits

/-- The text of a float has a character that no decimal number has, and none that a
string or an object is delimited by. -/
theorem jsonFloat_spec (x : PyFloat) :
    (∃ c : Char, PyChar.scalar c ∈ jsonFloat x ∧ c.isDigit = false ∧ c ≠ '-') ∧ jsonFloat x ≠ py "null" ∧
      ∀ c : Char, c = '"' ∨ c = ',' ∨ c = '\x7d' → PyChar.scalar c ∉ jsonFloat x := by
  unfold jsonFloat
  split_ifs
  · exact ⟨⟨'N', by decide, by decide, by decide⟩, by decide, by rintro c (rfl | rfl | rfl) <;> decide⟩
  · exact ⟨⟨'I', by decide, by decide, by decide⟩, by decide, by rintro c (rfl | rfl | rfl) <;> decide⟩
  · exact ⟨⟨'I', by decide, by decide, by decide⟩, by decide, by rintro c (rfl | rfl | rfl) <;> decide⟩
  · obtain ⟨text, hall, c, hc, hpoint⟩ := Platform.floatRepr x
    have hmem : ∀ d : Char, PyChar.scalar d ∈ ofChars text ↔ d ∈ text := by
      intro d
      simp [ofChars]
    refine ⟨⟨c, (hmem c).mpr hc, ?_, ?_⟩, fun hnull => ?_, ?_⟩
    · revert hpoint
      simp only [String.reduceToList, List.mem_cons, List.not_mem_nil, or_false]
      rintro (rfl | rfl | rfl) <;> decide
    · rintro rfl
      exact absurd hpoint (by decide)
    · have hu : PyChar.scalar 'u' ∈ ofChars text := by
        rw [hnull]
        decide
      exact absurd (hall 'u' ((hmem 'u').mp hu)) (by decide)
    · rintro d hd hdmem
      have := hall d ((hmem d).mp hdmem)
      rcases hd with rfl | rfl | rfl <;> exact absurd this (by decide)

/-- A cell that is not text is written without quotation marks and delimiters, and is not
written as nothing. -/
theorem dumpsValue_bare {v : Value} {t : PyStr} (h : dumpsValue v = .ok t) (hv : ∀ s, v ≠ .str s) :
    t ≠ [] ∧ ∀ c : Char, c = '"' ∨ c = ',' ∨ c = '\x7d' → PyChar.scalar c ∉ t := by
  cases v with
  | none =>
    obtain rfl := Except.ok.inj h
    exact ⟨by decide, by rintro c (rfl | rfl | rfl) <;> decide⟩
  | int i =>
    obtain rfl := intRepr_eq_ok h
    refine ⟨decimal_ne_nil i, ?_⟩
    rintro c (rfl | rfl | rfl) <;> exact sep_notMem_decimal (by decide) (by decide) i
  | real x =>
    obtain rfl := Except.ok.inj h
    obtain ⟨⟨c, hc, -⟩, -, hno⟩ := jsonFloat_spec x
    exact ⟨List.ne_nil_of_mem hc, hno⟩
  | str s => exact absurd rfl (hv s)
  | undecodable b | blob b => cases h

/-- Cells that are not text, the first of them plain, are written differently. -/
theorem dumpsValue_bare_inj {v v' : Value} {t : PyStr} (hplain : v.Plain) (hv : ∀ s, v ≠ .str s)
    (hv' : ∀ s, v' ≠ .str s) (h : dumpsValue v = .ok t) (h' : dumpsValue v' = .ok t) : v = v' := by
  have hdecimal : ∀ i, decimal i ≠ py "null" := by
    intro i hi
    have : PyChar.scalar 'n' ∉ decimal i := sep_notMem_decimal (by decide) (by decide) i
    rw [hi] at this
    exact this (by decide)
  cases v with
  | none =>
    obtain rfl := Except.ok.inj h
    cases v' with
    | none => rfl
    | int i => exact absurd (intRepr_eq_ok h').symm (hdecimal i)
    | real x => exact absurd (Except.ok.inj h') (jsonFloat_spec x).2.1
    | str s => exact absurd rfl (hv' s)
    | undecodable b | blob b => cases h'
  | int i =>
    obtain rfl := intRepr_eq_ok h
    cases v' with
    | none => exact absurd (Except.ok.inj h').symm (hdecimal i)
    | int j => rw [decimal_inj (intRepr_eq_ok h')]
    | real x =>
      obtain ⟨c, hc, hd, hm⟩ := (jsonFloat_spec x).1
      rw [show jsonFloat x = decimal i from Except.ok.inj h'] at hc
      exact absurd hc (sep_notMem_decimal hd hm i)
    | str s => exact absurd rfl (hv' s)
    | undecodable b | blob b => cases h'
  | str s => exact absurd rfl (hv s)
  | real x => exact absurd hplain id
  | undecodable b | blob b => exact absurd hplain id

omit [Platform] in
theorem jsonString_append (u s : PyStr) :
    jsonString u ++ s = .scalar '"' :: (u.flatMap jsonEscape ++ .scalar '"' :: s) := by
  simp [jsonString, py, ofChars]

/-- **A cell is read back**: of two texts that begin with a cell and a delimiter and are the
same, the cells are, and so are the rests. -/
theorem dumpsValue_inj {v v' : Value} {t t' s s' : PyStr} {c : Char} (hc : c = ',' ∨ c = '\x7d')
    (hplain : v.Plain) (h : dumpsValue v = .ok t) (h' : dumpsValue v' = .ok t')
    (heq : t ++ .scalar c :: s = t' ++ .scalar c :: s') : v = v' ∧ s = s' := by
  have hquote : ∀ {t u x y : PyStr}, t ≠ [] → PyChar.scalar '"' ∉ t →
      t ++ x ≠ jsonString u ++ y := by
    intro t u x y hne hno heq
    cases t with
    | nil => exact hne rfl
    | cons d t =>
      have hd : d = .scalar '"' := (List.cons.inj heq).1
      exact hno (by simp [hd])
  by_cases hv : ∃ u, v = .str u
  · obtain ⟨u, rfl⟩ := hv
    obtain rfl := Except.ok.inj h
    by_cases hv' : ∃ u, v' = .str u
    · obtain ⟨u', rfl⟩ := hv'
      obtain rfl := Except.ok.inj h'
      rw [jsonString_append, jsonString_append, List.cons.injEq] at heq
      obtain ⟨rfl, hs⟩ := flatMap_jsonEscape_inj heq.2
      exact ⟨rfl, (List.cons.inj hs).2⟩
    · obtain ⟨hne, hno⟩ := dumpsValue_bare h' (not_exists.mp hv')
      exact absurd heq.symm (hquote hne (hno _ (.inl rfl)))
  · obtain ⟨hne, hno⟩ := dumpsValue_bare h (not_exists.mp hv)
    by_cases hv' : ∃ u, v' = .str u
    · obtain ⟨u, rfl⟩ := hv'
      obtain rfl := Except.ok.inj h'
      exact absurd heq (hquote hne (hno _ (.inl rfl)))
    · obtain ⟨-, hno'⟩ := dumpsValue_bare h' (not_exists.mp hv')
      obtain ⟨rfl, hs⟩ := append_sep_inj_left (hno c (.inr hc)) (hno' c (.inr hc)) heq
      exact ⟨dumpsValue_bare_inj hplain (not_exists.mp hv) (not_exists.mp hv') h h', hs⟩

/-! ### Entries -/

/-- The columns of the entry are plain. -/
def Entry.Plain (entry : Entry) : Prop := ∀ m ∈ entry.members, m.2.Plain

/-- The members of flat objects with the same keys are read back. -/
theorem dumpsFlat_inj {ms ms' : List (String × Value)} {t t' s s' : PyStr}
    (hkeys : ms.map Prod.fst = ms'.map Prod.fst) (hplain : ∀ m ∈ ms, m.2.Plain) (h : dumpsFlat ms = .ok t)
    (h' : dumpsFlat ms' = .ok t') (heq : t ++ .scalar '\x7d' :: s = t' ++ .scalar '\x7d' :: s') : ms = ms' := by
  induction ms generalizing ms' t t' with
  | nil =>
    cases ms' with
    | nil => rfl
    | cons _ _ => cases hkeys
  | cons m ms ih =>
    cases ms' with
    | nil => cases hkeys
    | cons m' ms' =>
      obtain ⟨k, v⟩ := m
      obtain ⟨k', v'⟩ := m'
      simp only [List.map_cons, List.cons.injEq] at hkeys
      obtain ⟨rfl, hkeys⟩ := hkeys
      simp only [dumpsFlat, bind_eq_ok, pure_eq_ok, Except.ok.injEq] at h h'
      obtain ⟨tv, hv, ts, hts, rfl⟩ := h
      obtain ⟨tv', hv', ts', hts', rfl⟩ := h'
      have hcell : v.Plain := hplain (k, v) (by simp)
      have hrest : ∀ m ∈ ms, m.2.Plain := fun m hm => hplain m (by simp [hm])
      simp only [List.append_assoc, List.append_cancel_left_eq] at heq
      -- the cell is followed by a comma, unless it is the last one
      cases ms with
      | nil =>
        obtain rfl : ms' = [] := List.map_eq_nil_iff.mp hkeys.symm
        obtain rfl := Except.ok.inj hts
        obtain rfl := Except.ok.inj hts'
        rw [(dumpsValue_inj (.inr rfl) hcell hv hv' heq).1]
      | cons m ms =>
        cases ms' with
        | nil => cases hkeys
        | cons m' ms' =>
          obtain ⟨rfl, hts_eq⟩ := dumpsValue_inj (.inl rfl) hcell hv hv' heq
          rw [ih hkeys hrest hts hts' hts_eq]

/-- **The encoding is unambiguous.** -/
theorem canonical_inj {e e' : Entry} {t : PyStr} (hplain : e.Plain) (h : canonical e = .ok t)
    (h' : canonical e' = .ok t) : e = e' := by
  unfold canonical at h h'
  cases hm : dumpsFlat e.members with
  | error x => simp [hm, Except.map] at h
  | ok m =>
    cases hm' : dumpsFlat e'.members with
    | error x => simp [hm', Except.map] at h'
    | ok m' =>
      simp only [hm, hm', Except.map, Except.ok.injEq] at h h'
      rw [← h', List.append_assoc, List.append_assoc, List.append_cancel_left_eq] at h
      have hmembers : e.members = e'.members := dumpsFlat_inj rfl hplain hm hm' h
      simp only [Entry.members, List.cons.injEq, Prod.mk.injEq, true_and, and_true] at hmembers
      obtain ⟨ha, hc, hr, hres, hs, ht, htt⟩ := hmembers
      cases e
      cases e'
      simp_all

/-- What is hashed is unambiguous too: where the hashes in front have no bar, they are the
same, and the entries are. -/
theorem hashMaterial_inj {e e' : Entry} {p p' : PyStr} {m : Bytes} (hplain : e.Plain)
    (hp : PyChar.scalar '|' ∉ p) (hp' : PyChar.scalar '|' ∉ p') (h : hashMaterial (.str p) e = .ok m)
    (h' : hashMaterial (.str p') e' = .ok m) : p = p' ∧ e = e' := by
  have htext : ∀ {p : PyStr} {e : Entry}, hashMaterial (.str p) e = .ok m →
      ∃ t, canonical e = .ok t ∧ utf8Encode (p ++ .scalar '|' :: t) = some m := by
    intro p e h
    obtain ⟨t, ht, h⟩ := bind_eq_ok.mp h
    refine ⟨t, ht, ?_⟩
    have hform : formatValue (.str p) ++ py "|" ++ t = p ++ .scalar '|' :: t := by simp [py, ofChars]
    rw [hform] at h
    cases hm : utf8Encode (p ++ .scalar '|' :: t) with
    | none => simp [hm] at h
    | some b => simpa [hm] using h
  obtain ⟨t, ht, hm⟩ := htext h
  obtain ⟨t', ht', hm'⟩ := htext h'
  obtain ⟨hpp, rfl⟩ := append_sep_inj_left hp hp' (utf8Encode_inj hm hm')
  exact ⟨hpp, canonical_inj hplain ht ht'⟩

end Cells

end MiniVault
