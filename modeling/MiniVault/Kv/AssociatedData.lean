import MiniVault.Core.Vault
import MiniVault.Kv.Operations

/-!
# The associated data of the key-value store

`KvService._aad` writes owner, path and version into one text. The owner may contain
colons, and so may the path; but the owner is the first segment of the path, which
has no slash, and the path begins with `secret/`, so the first slash says where the
owner ends.

## What is proved

* `aadText_inj` — for owners of their paths, the text determines owner, path and
  version.
* `aad_ne_dekWrapAad` — nothing is bound to what the vault's key is bound to.
-/

namespace MiniVault

open Foundations

variable [Platform]

/-- Lowercasing brings no slash into a text. -/
def LowerKeepsSlash : Prop := ∀ s : PyStr, PyChar.scalar '/' ∉ s → PyChar.scalar '/' ∉ Platform.lower s

/-- A path with an owner begins with the prefix, and the owner has no slash. -/
theorem extractOwnerEmailFromPath_eq_ok (hlower : LowerKeepsSlash) {owner path : PyStr}
    (h : extractOwnerEmailFromPath path = .ok owner) :
    (∃ rest, path = pathPrefix ++ rest) ∧ PyChar.scalar '/' ∉ owner := by
  unfold extractOwnerEmailFromPath at h
  split_ifs at h with hprefix
  · simp only [ne_eq, Decidable.not_not] at hprefix
    refine ⟨⟨path.drop pathPrefix.length, ?_⟩, ?_⟩
    · conv_lhs => rw [← List.take_append_drop pathPrefix.length path, hprefix]
    · split at h
      · next segment rest hsplit =>
        split_ifs at h
        · rw [← Except.ok.inj h]
          exact hlower _ fun hmem => splitMax_head hsplit (mem_of_mem_strip hmem)
      · cases h

omit [Platform] in
/-- A capital ASCII letter is moved by 32, and every other character stays. -/
theorem toLower_cases (c : Char) : (('A'.val ≤ c.val ∧ c.val ≤ 'Z'.val) ∧ c.toLower.val = c.val + 32) ∨
    (¬ ('A'.val ≤ c.val ∧ c.val ≤ 'Z'.val) ∧ c.toLower = c) := by
  by_cases h : 'A'.val ≤ c.val ∧ c.val ≤ 'Z'.val
  · exact .inl ⟨h, congrArg Char.val (dif_pos h)⟩
  · exact .inr ⟨h, dif_neg h⟩

omit [Platform] in
/-- The sample platform lowercases ASCII letters only. -/
theorem samplePlatform_lowerKeepsSlash : @LowerKeepsSlash samplePlatform := by
  intro s hs hmem
  obtain ⟨c, hc, heq⟩ := List.mem_map.mp hmem
  cases c with
  | surrogate k => cases heq
  | scalar c =>
    apply hs
    have hlow : c.toLower = '/' := PyChar.scalar.inj heq
    have hc' : c = '/' := by
      rcases toLower_cases c with ⟨hrange, hmoved⟩ | ⟨-, hstays⟩
      · -- no letter is 32 below a slash
        have hval : (c.val.toNat + 32) % 2 ^ 32 = 47 := by
          rw [hlow] at hmoved
          exact (congrArg UInt32.toNat hmoved).symm
        have hge : 65 ≤ c.val.toNat := hrange.1
        have hle : c.val.toNat ≤ 90 := hrange.2
        omega
      · exact hstays.symm.trans hlow
    rwa [hc'] at hc

namespace KvService

/-- **The associated data is unambiguous**: for owners of their paths it determines
owner, path and version. -/
theorem aadText_inj (hlower : LowerKeepsSlash) {u u' p p' : PyStr} {n n' : ℤ}
    (h : extractOwnerEmailFromPath p = .ok u) (h' : extractOwnerEmailFromPath p' = .ok u')
    (heq : aadText u p n = aadText u' p' n') : u = u' ∧ p = p' ∧ n = n' := by
  obtain ⟨⟨r, rfl⟩, hu⟩ := extractOwnerEmailFromPath_eq_ok hlower h
  obtain ⟨⟨r', rfl⟩, hu'⟩ := extractOwnerEmailFromPath_eq_ok hlower h'
  -- the version stands behind the last `v`
  have hv : ∀ m : ℤ, PyChar.scalar 'v' ∉ decimal m := sep_notMem_decimal (by decide) (by decide)
  have hcut : ∀ (x y : PyStr) (m : ℤ), aadText x (pathPrefix ++ y) m =
      (py "kv:" ++ (x ++ py ":secret") ++ .scalar '/' :: (y ++ py ":")) ++ .scalar 'v' :: decimal m := by
    intro x y m
    simp only [aadText, pathPrefix, py, ofChars, List.append_assoc, List.cons_append, List.map_cons, List.map_nil,
      List.nil_append, String.reduceToList]
  rw [hcut, hcut] at heq
  obtain ⟨hfront, hn⟩ := append_sep_inj (hv n) (hv n') heq
  -- the owner ends before the first slash
  have hslash : ∀ x : PyStr, PyChar.scalar '/' ∉ x → PyChar.scalar '/' ∉ py "kv:" ++ (x ++ py ":secret") := by
    intro x hx hmem
    simp only [List.mem_append] at hmem
    rcases hmem with hmem | hmem | hmem
    · exact absurd hmem (by decide)
    · exact hx hmem
    · exact absurd hmem (by decide)
  obtain ⟨howner, hrest⟩ := append_sep_inj_left (hslash u hu) (hslash u' hu') hfront
  have hu_eq : u = u' := List.append_cancel_right (List.append_cancel_left howner)
  have hr_eq : r = r' := List.append_cancel_right hrest
  exact ⟨hu_eq, by rw [hr_eq], decimal_inj hn⟩

/-- The same for the bytes. -/
theorem aad_inj (hlower : LowerKeepsSlash) {u u' p p' : PyStr} {n n' : ℤ} {b : Bytes}
    (h : extractOwnerEmailFromPath p = .ok u) (h' : extractOwnerEmailFromPath p' = .ok u')
    (hb : aad u p n = .ok b) (hb' : aad u' p' n' = .ok b) : u = u' ∧ p = p' ∧ n = n' := by
  unfold aad at hb hb'
  cases he : utf8Encode (aadText u p n) with
  | none => simp [he] at hb
  | some c =>
    cases he' : utf8Encode (aadText u' p' n') with
    | none => simp [he'] at hb'
    | some c' =>
      simp only [he, he', Except.ok.injEq] at hb hb'
      subst hb hb'
      exact aadText_inj hlower h h' (utf8Encode_inj he he')

omit [Platform] in
/-- What a version is bound to, the vault's key is not. -/
theorem aad_ne_dekWrapAad {u p : PyStr} {n : ℤ} {b : Bytes} (h : aad u p n = .ok b) : b ≠ VaultService.dekWrapAad := by
  unfold aad at h
  split at h
  · next c hc =>
    obtain rfl := Except.ok.inj h
    exact utf8Encode_ne_of_prefix (p := py "k") (q := py "m")
      ⟨py "v:" ++ u ++ py ":" ++ p ++ py ":v" ++ decimal n, by simp [aadText, py, ofChars]⟩
      ⟨py "ini-vault:dek-wrap:v1", by decide⟩ (by decide) (by decide) hc VaultService.utf8Encode_dekWrapAad
  · cases h

end KvService

end MiniVault
