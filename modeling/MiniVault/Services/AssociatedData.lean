import MiniVault.Core.Sample
import MiniVault.Kv.AssociatedData
import MiniVault.Transit.AssociatedData

/-!
# One text for one purpose

Everything is encrypted under keys that one vault keeps, so what tells two ciphertexts
apart is their associated data. Three functions write it: one of the key-value store and
two of the named keys.

## What is proved

* `Purpose.eq_of_bytes` — no two calls that the services can make write the same bytes.
-/

namespace MiniVault

open Foundations

/-- A call of a function that writes associated data. -/
inductive Purpose where
  /-- `KvService._aad`. -/
  | record (owner path : PyStr) (version : ℤ)
  /-- `TransitService._key_aad`, for a key of a kind. -/
  | material (owner keyName : PyStr) (kind : KeyKind) (version : ℤ)
  /-- `TransitService._data_aad`. -/
  | data (owner keyName : PyStr) (version : ℤ)

namespace Purpose

variable [Platform]

/-- What it writes. -/
def bytes : Purpose → Except Exc Bytes
  | record owner path version => KvService.aad owner path version
  | material owner keyName kind version =>
    TransitService.keyAad (.str owner) (.str keyName) (.str kind.usage) kind.algorithm version
  | data owner keyName version => TransitService.dataAad owner keyName version

/-- The services make the call only for the owner of a path, for the name of a key, and for
versions counted from one. -/
def Passed : Purpose → Prop
  | record owner path version => extractOwnerEmailFromPath path = .ok owner ∧ 1 ≤ version
  | material _ keyName _ version => keyNamePattern keyName ∧ 1 ≤ version
  | data _ keyName version => keyNamePattern keyName ∧ 1 ≤ version

omit [Platform] in
/-- What a record is bound to begins otherwise than what a key or its ciphertexts are bound to. -/
theorem record_ne_of_prefix {owner path text : PyStr} {version : ℤ} {b c : Bytes}
    (h : KvService.aad owner path version = .ok b) (htext : utf8Encode text = some c) (hstart : py "t" <+: text) :
    b ≠ c := by
  unfold KvService.aad at h
  split at h
  · next b' hb =>
    rw [← Except.ok.inj h]
    refine utf8Encode_ne_of_prefix (p := py "k") (q := py "t") ?_ hstart (by decide) (by decide) hb htext
    exact ⟨py "v:" ++ owner ++ py ":" ++ path ++ py ":v" ++ decimal version, by simp [KvService.aadText, py, ofChars]⟩
  · cases h

/-- A record and a key. -/
theorem record_ne_material {owner path : PyStr} {o name usage algorithm : Value} {version version' : ℤ} {b c : Bytes}
    (h : KvService.aad owner path version = .ok b)
    (h' : TransitService.keyAad o name usage algorithm version' = .ok c) : b ≠ c := by
  exact record_ne_of_prefix h (TransitService.keyAad_eq_ok h') ⟨_, by
    simp only [TransitService.keyAadText, List.append_assoc]
    rw [show py "transit-key:" = py "t" ++ py "ransit-key:" by decide, List.append_assoc]⟩

omit [Platform] in
/-- A record and a ciphertext. -/
theorem record_ne_data {owner path o name : PyStr} {version version' : ℤ} {b c : Bytes}
    (h : KvService.aad owner path version = .ok b) (h' : TransitService.dataAad o name version' = .ok c) : b ≠ c :=
  record_ne_of_prefix h (TransitService.dataAad_eq_ok h')
    ⟨py "ransit-data:" ++ o ++ py ":" ++ name ++ py ":v" ++ decimal version', by
      simp [TransitService.dataAadText, py, ofChars]⟩

/-- **Associated data is unambiguous**: two calls that the services can make write the same
bytes only if they are the same call. -/
theorem eq_of_bytes (hlower : LowerKeepsSlash) {call call' : Purpose} (hcall : call.Passed) (hcall' : call'.Passed)
    {b : Bytes} (h : call.bytes = .ok b) (h' : call'.bytes = .ok b) : call = call' := by
  cases call with
  | record owner path version =>
    cases call' with
    | record owner' path' version' =>
      obtain ⟨rfl, rfl, rfl⟩ := KvService.aad_inj hlower hcall.1 hcall'.1 h h'
      rfl
    | material owner' keyName' kind' version' => exact absurd rfl (record_ne_material h h')
    | data owner' keyName' version' => exact absurd rfl (record_ne_data h h')
  | material owner keyName kind version =>
    cases call' with
    | record owner' path' version' => exact absurd rfl (record_ne_material h' h)
    | material owner' keyName' kind' version' =>
      obtain ⟨husage, halgorithm⟩ := TransitService.colon_notMem_kind kind
      obtain ⟨husage', halgorithm'⟩ := TransitService.colon_notMem_kind kind'
      obtain ⟨rfl, rfl, hkind, -, rfl⟩ :=
        TransitService.keyAad_inj hcall.1 hcall'.1 husage husage' halgorithm halgorithm' h h'
      rw [KeyKind.usage_inj hkind]
    | data owner' keyName' version' => exact absurd rfl (TransitService.dataAad_ne_keyAad h' h)
  | data owner keyName version =>
    cases call' with
    | record owner' path' version' => exact absurd rfl (record_ne_data h' h)
    | material owner' keyName' kind' version' => exact absurd rfl (TransitService.dataAad_ne_keyAad h h')
    | data owner' keyName' version' =>
      obtain ⟨rfl, rfl, rfl⟩ := TransitService.dataAad_inj hcall.1 hcall'.1 h h'
      rfl

end Purpose

section Sample

attribute [local instance] samplePlatform

/-- An owner that ends like a name and a version is told from the one it begins with. -/
theorem Purpose.eq_of_bytes_sample :
    (Purpose.data (py "a:k:v1") (py "k") 1).bytes ≠ (Purpose.data (py "a") (py "k") 1).bytes := by
  intro h
  have hpassed : ∀ owner, (Purpose.data owner (py "k") 1).Passed := fun _ => ⟨by decide, by decide⟩
  have hbytes : ∃ b, (Purpose.data (py "a") (py "k") 1).bytes = .ok b := ⟨_, rfl⟩
  obtain ⟨b, hb⟩ := hbytes
  have hsame := Purpose.eq_of_bytes samplePlatform_lowerKeepsSlash (hpassed _) (hpassed _) (h.trans hb) hb
  exact absurd (Purpose.data.inj hsame).1 (by decide)

end Sample

end MiniVault
