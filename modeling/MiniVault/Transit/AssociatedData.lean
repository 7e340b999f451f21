import MiniVault.Transit.Service

/-!
# The associated data of the named keys

`TransitService._data_aad` writes owner, name and version into one text, and
`TransitService._key_aad` owner, name, usage, algorithm and version. An owner may contain
colons; a name may not, and neither do usage, algorithm and version. So the texts are cut
from the right, at their last colons.

## What is proved

* `dataAad_inj` — the associated data of a ciphertext determines owner, name and version.
* `keyAad_inj` — that of a wrapped material determines owner, name, usage, algorithm and
  version, if the algorithm has no colon.
* `dataAad_ne_keyAad`, `dataAad_ne_dekWrapAad`, `keyAad_ne_dekWrapAad` — what one purpose
  writes, no other does.
-/

namespace MiniVault

open Foundations

namespace TransitService

/-- `:v` and a version, behind the last colon. -/
theorem append_version_inj {a b : PyStr} {n n' : ℤ}
    (h : a ++ py ":v" ++ decimal n = b ++ py ":v" ++ decimal n') : a = b ∧ n = n' := by
  have hv : ∀ m : ℤ, PyChar.scalar ':' ∉ PyChar.scalar 'v' :: decimal m := by
    intro m
    rw [List.mem_cons, not_or]
    exact ⟨by decide, sep_notMem_decimal (by decide) (by decide) m⟩
  have hcut : ∀ (x : PyStr) (m : ℤ), x ++ py ":v" ++ decimal m = x ++ .scalar ':' :: (.scalar 'v' :: decimal m) := by
    intro x m
    simp [py, ofChars]
  rw [hcut, hcut] at h
  obtain ⟨hfront, hn⟩ := append_sep_inj (hv n) (hv n') h
  exact ⟨hfront, decimal_inj (List.cons_injective hn)⟩

/-- A text without colons, behind the last one. -/
theorem append_colon_inj {a b x y : PyStr} (hx : PyChar.scalar ':' ∉ x) (hy : PyChar.scalar ':' ∉ y)
    (h : a ++ py ":" ++ x = b ++ py ":" ++ y) : a = b ∧ x = y := by
  have hcut : ∀ x y : PyStr, x ++ py ":" ++ y = x ++ .scalar ':' :: y := by
    intro x y
    simp [py, ofChars]
  rw [hcut, hcut] at h
  exact append_sep_inj hx hy h

/-- **The associated data of a ciphertext is unambiguous**: for names of keys it determines
owner, name and version. -/
theorem dataAadText_inj {u u' k k' : PyStr} {n n' : ℤ} (hk : keyNamePattern k) (hk' : keyNamePattern k')
    (h : dataAadText u k n = dataAadText u' k' n') : u = u' ∧ k = k' ∧ n = n' := by
  unfold dataAadText at h
  obtain ⟨hfront, hn⟩ := append_version_inj h
  obtain ⟨howner, hname⟩ := append_colon_inj (colon_notMem_keyName hk) (colon_notMem_keyName hk') hfront
  exact ⟨List.append_cancel_left howner, hname, hn⟩

/-- Encoded associated data is the encoding of its text. -/
theorem dataAad_eq_ok {u k : PyStr} {n : ℤ} {b : Bytes} (h : dataAad u k n = .ok b) :
    utf8Encode (dataAadText u k n) = some b := by
  unfold dataAad at h
  split at h
  · next b' hb => rw [hb, Except.ok.inj h]
  · cases h

/-- The same for the bytes. -/
theorem dataAad_inj {u u' k k' : PyStr} {n n' : ℤ} {b : Bytes} (hk : keyNamePattern k) (hk' : keyNamePattern k')
    (h : dataAad u k n = .ok b) (h' : dataAad u' k' n' = .ok b) : u = u' ∧ k = k' ∧ n = n' :=
  dataAadText_inj hk hk' (utf8Encode_inj (dataAad_eq_ok h) (dataAad_eq_ok h'))

variable [Platform]

/-- Encoded associated data is the encoding of its text. -/
theorem keyAad_eq_ok {u k usage algorithm : Value} {n : ℤ} {b : Bytes} (h : keyAad u k usage algorithm n = .ok b) :
    utf8Encode (keyAadText u k usage algorithm n) = some b := by
  unfold keyAad at h
  split at h
  · next b' hb => rw [hb, Except.ok.inj h]
  · cases h

/-- What the text has for the algorithm. -/
def algorithmText (algorithm : Value) : PyStr := if algorithm.falsy then py "-" else formatValue algorithm

/-- Usage and algorithm of a kind of key have no colon. -/
theorem colon_notMem_kind (kind : KeyKind) :
    PyChar.scalar ':' ∉ kind.usage ∧ PyChar.scalar ':' ∉ algorithmText kind.algorithm := by
  cases kind with
  | aes =>
    have htext : algorithmText KeyKind.aes.algorithm = py "-" := rfl
    rw [htext]
    decide
  | ed25519 =>
    have htext : algorithmText KeyKind.ed25519.algorithm = MiniVault.ed25519 := rfl
    rw [htext]
    decide

/-- **The associated data of a material is unambiguous**: for names of keys, and for usages
and algorithms without colons, it determines owner, name, usage, algorithm and version. -/
theorem keyAad_inj {u u' k k' usage usage' : PyStr} {algorithm algorithm' : Value} {n n' : ℤ} {b : Bytes}
    (hk : keyNamePattern k) (hk' : keyNamePattern k') (husage : PyChar.scalar ':' ∉ usage)
    (husage' : PyChar.scalar ':' ∉ usage') (halg : PyChar.scalar ':' ∉ algorithmText algorithm)
    (halg' : PyChar.scalar ':' ∉ algorithmText algorithm')
    (h : keyAad (.str u) (.str k) (.str usage) algorithm n = .ok b)
    (h' : keyAad (.str u') (.str k') (.str usage') algorithm' n' = .ok b) :
    u = u' ∧ k = k' ∧ usage = usage' ∧ algorithmText algorithm = algorithmText algorithm' ∧ n = n' := by
  have heq := utf8Encode_inj (keyAad_eq_ok h) (keyAad_eq_ok h')
  obtain ⟨hfront, hn⟩ := append_version_inj heq
  obtain ⟨hfront, halgorithm⟩ := append_colon_inj halg halg' hfront
  obtain ⟨hfront, husages⟩ := append_colon_inj husage husage' hfront
  obtain ⟨howner, hname⟩ := append_colon_inj (colon_notMem_keyName hk) (colon_notMem_keyName hk') hfront
  exact ⟨List.append_cancel_left howner, hname, husages, halgorithm, hn⟩

/-! ### The three purposes -/

/-- What a ciphertext is bound to, no material is. -/
theorem dataAad_ne_keyAad {u k : PyStr} {o name usage algorithm : Value} {n m : ℤ} {b c : Bytes}
    (h : dataAad u k n = .ok b) (h' : keyAad o name usage algorithm m = .ok c) : b ≠ c := by
  refine utf8Encode_ne_of_prefix (p := py "transit-d") (q := py "transit-k") ?_ ?_ (by decide) (by decide)
    (dataAad_eq_ok h) (keyAad_eq_ok h')
  · exact ⟨py "ata:" ++ u ++ py ":" ++ k ++ py ":v" ++ decimal n, by simp [dataAadText, py, ofChars]⟩
  · exact ⟨_, by
      simp only [keyAadText, List.append_assoc]
      rw [show py "transit-key:" = py "transit-k" ++ py "ey:" by decide, List.append_assoc]⟩

omit [Platform] in
/-- What a ciphertext is bound to, the vault's key is not. -/
theorem dataAad_ne_dekWrapAad {u k : PyStr} {n : ℤ} {b : Bytes} (h : dataAad u k n = .ok b) :
    b ≠ VaultService.dekWrapAad :=
  utf8Encode_ne_of_prefix (p := py "t") (q := py "m")
    ⟨py "ransit-data:" ++ u ++ py ":" ++ k ++ py ":v" ++ decimal n, by simp [dataAadText, py, ofChars]⟩
    ⟨py "ini-vault:dek-wrap:v1", by decide⟩ (by decide) (by decide) (dataAad_eq_ok h) VaultService.utf8Encode_dekWrapAad

/-- What a material is bound to, the vault's key is not. -/
theorem keyAad_ne_dekWrapAad {u k usage algorithm : Value} {n : ℤ} {b : Bytes}
    (h : keyAad u k usage algorithm n = .ok b) : b ≠ VaultService.dekWrapAad := by
  refine utf8Encode_ne_of_prefix (p := py "t") (q := py "m") ?_ ⟨py "ini-vault:dek-wrap:v1", by decide⟩ (by decide)
    (by decide) (keyAad_eq_ok h) VaultService.utf8Encode_dekWrapAad
  exact ⟨_, by
    simp only [keyAadText, List.append_assoc]
    rw [show py "transit-key:" = py "t" ++ py "ransit-key:" by decide, List.append_assoc]⟩

end TransitService

end MiniVault
