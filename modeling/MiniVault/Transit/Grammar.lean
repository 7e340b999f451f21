import MiniVault.Transit.Ciphertext

/-!
# The grammar of Transit ciphertexts

What the documentation of `transit/ciphertext.py` says a ciphertext looks like, and what
`parse_ciphertext` accepts.

## The model

`Reading` is one way to read a token: which of the two shapes it has, the name of the key
and the payload. A reading carries the proof that its parts are what the grammar asks for.

## What is proved

* `Reading.token_inj` — no token has two readings.
* `parseCiphertext_eq_ok_iff` — `parse_ciphertext` accepts the tokens that have one, and
  returns what it says.
* `parseCiphertext_grammar` — the two together, and that all others are malformed.
* `parse_format_iff` — what `format_ciphertext` makes is parsed to what it was made of,
  exactly up to the largest version that the grammar has digits for.
-/

namespace MiniVault

open Foundations

/-- A reading of a token: `vault:<name>:<payload>`, or `vault:v<N>:<name>:<payload>`. -/
structure Reading where
  /-- The number of the version, where the token has one. -/
  version : Option ℕ
  /-- The name of the key. -/
  keyName : PyStr
  /-- The payload as it is written. -/
  payloadB64 : PyStr
  /-- The bytes of the payload. -/
  payload : Bytes
  /-- A version has no more than nine digits and is not zero. -/
  version_range : ∀ n ∈ version, 1 ≤ n ∧ n ≤ 999999999
  /-- The name is one of a key. -/
  keyName_pattern : keyNamePattern keyName
  /-- The payload is Base 64. -/
  decodes : decodeB64 (.str payloadB64) = .ok payload
  /-- It has room for a nonce and a tag. -/
  long : 28 ≤ payload.length

namespace Reading

/-- The token that is read. -/
def token (r : Reading) : PyStr :=
  match r.version with
  | none => py "vault:" ++ r.keyName ++ py ":" ++ r.payloadB64
  | some n => py "vault:v" ++ natText n ++ py ":" ++ r.keyName ++ py ":" ++ r.payloadB64

/-- What the reading says the token is: nonce, ciphertext and tag are the parts of the payload. -/
def Says (r : Reading) (c : TransitCiphertext) : Prop :=
  c.keyName = r.keyName ∧ c.keyVersion = r.version.getD 1 ∧ c.blob.nonce.length = 12 ∧ c.blob.tag.length = 16 ∧
    c.blob.ciphertext.length = r.payload.length - 28 ∧ c.blob.payload = r.payload

end Reading

/-! ### The parts of a token -/

/-- Text that can be decoded has no colon. -/
theorem colon_notMem_of_decodeB64 {s : PyStr} {b : Bytes} (h : decodeB64 (.str s) = .ok b) : PyChar.scalar ':' ∉ s := by
  intro hmem
  unfold decodeB64 at h
  dsimp only at h
  split_ifs at h
  split at h
  · next hdecode => exact Base64.colon_notMem_of_decode hdecode (List.mem_filterMap.mpr ⟨_, hmem, rfl⟩)
  · cases h

/-- A digit of a text is a character that is one. -/
theorem isDigit_of_isDecimalDigit {c : PyChar} (h : isDecimalDigit c) : ∃ d : Char, c = .scalar d ∧ d.isDigit := by
  simp only [isDecimalDigit, Bool.and_eq_true, decide_eq_true_eq] at h
  cases c with
  | scalar d =>
    refine ⟨d, rfl, ?_⟩
    simp only [Char.isDigit, Bool.and_eq_true, decide_eq_true_eq]
    exact h
  | surrogate k =>
    have hk := k.2
    simp only [PyChar.code] at h
    omega

/-- A text of digits is made of characters that are digits. -/
theorem exists_digits {ds : PyStr} (h : ∀ e ∈ ds, isDecimalDigit e) :
    ∃ cs : List Char, (∀ e ∈ cs, e.isDigit) ∧ ds = ofChars cs := by
  induction ds with
  | nil => exact ⟨[], by simp, rfl⟩
  | cons d ds ih =>
    simp only [List.mem_cons, forall_eq_or_imp] at h
    obtain ⟨c, rfl, hc⟩ := isDigit_of_isDecimalDigit h.1
    obtain ⟨cs, hcs, rfl⟩ := ih h.2
    refine ⟨c :: cs, ?_, rfl⟩
    simp only [List.mem_cons, forall_eq_or_imp]
    exact ⟨hc, hcs⟩

/-- What the pattern of a version accepts: the letter and the digits of a number in range. -/
theorem versionPattern_eq_some_iff {segment digits : PyStr} : versionPattern segment = some digits ↔
    ∃ n, 1 ≤ n ∧ n ≤ 999999999 ∧ digits = natText n ∧ segment = .scalar 'v' :: natText n := by
  constructor
  · intro h
    unfold versionPattern at h
    split at h
    · next v d ds =>
      split_ifs at h with hc
      obtain ⟨rfl, hd, hzero, hlen, hall⟩ := hc
      obtain rfl := Option.some.inj h
      rw [List.all_eq_true] at hall
      have hdigits : ∀ e ∈ d :: ds, isDecimalDigit e := by
        simp only [List.mem_cons, forall_eq_or_imp]
        exact ⟨hd, hall⟩
      obtain ⟨cs, hcs, heq⟩ := exists_digits hdigits
      have hlength : cs.length = ds.length + 1 := by
        simpa [ofChars] using (congrArg List.length heq).symm
      have hnil : cs ≠ [] := by
        rintro rfl
        cases heq
      have hhead : cs.head? ≠ some '0' := by
        intro hhead
        obtain ⟨rest, rfl⟩ := List.head?_eq_some_iff.mp hhead
        exact hzero (List.cons.inj heq).1
      obtain ⟨hback, hpos⟩ := toDigits_ofDigitChars hcs hnil hhead
      have hmax := (Nat.length_toDigits_le_iff (n := Nat.ofDigitChars 10 cs 0) (k := 9) (b := 10) (by omega) (by omega)).mp
        (by rw [hback]; omega)
      refine ⟨Nat.ofDigitChars 10 cs 0, hpos, by omega, ?_, ?_⟩
      · rw [natText, hback, heq]
      · rw [natText, hback, heq]
    · cases h
  · rintro ⟨n, hpos, hmax, rfl, rfl⟩
    exact versionPattern_natText (by omega) hmax

/-- The parts of a token: it has the shape of a reading, up to what its name and its payload are. -/
theorem tokenParts_eq_ok {token start keyName payloadB64 : PyStr} {version : ℤ}
    (h : tokenParts token = .ok (start, keyName, version, payloadB64)) :
    (token = start ++ .scalar ':' :: (keyName ++ .scalar ':' :: payloadB64) ∧ version = 1) ∨
      ∃ n : ℕ, 1 ≤ n ∧ n ≤ 999999999 ∧ version = n ∧
        token = start ++ .scalar ':' :: ((.scalar 'v' :: natText n) ++ .scalar ':' :: (keyName ++ .scalar ':' :: payloadB64)) := by
  unfold tokenParts at h
  rcases splitMax_succ (.scalar ':') 2 token with ⟨-, hone⟩ | ⟨a, t, -, rfl, htwo⟩
  · simp [hone] at h
  rcases splitMax_succ (.scalar ':') 1 t with ⟨-, hone⟩ | ⟨b, u, -, rfl, hthree⟩
  · simp [htwo, hone] at h
  rcases splitMax_succ (.scalar ':') 0 u with ⟨-, hone⟩ | ⟨c, v, -, rfl, hfour⟩
  · -- three parts: the first version
    simp only [htwo, hthree, hone, Except.ok.injEq, Prod.mk.injEq] at h
    obtain ⟨rfl, rfl, rfl, rfl⟩ := h
    exact .inl ⟨rfl, rfl⟩
  · -- four parts: the second one is a version
    simp only [htwo, hthree, hfour, splitMax_zero] at h
    split at h
    · cases h
    · next digits hdigits =>
      simp only [Except.ok.injEq, Prod.mk.injEq] at h
      obtain ⟨rfl, rfl, rfl, rfl⟩ := h
      obtain ⟨n, hpos, hmax, rfl, rfl⟩ := versionPattern_eq_some_iff.mp hdigits
      exact .inr ⟨n, hpos, hmax, by rw [natOfDigits_natText], rfl⟩

/-! ### Readings -/

namespace Reading

/-- The parts of a payload that is long enough, and that they make it up. -/
theorem splitPayload_spec {payload : Bytes} (h : 28 ≤ payload.length) :
    (splitPayload payload).nonce.length = 12 ∧ (splitPayload payload).tag.length = 16 ∧
      (splitPayload payload).ciphertext.length = payload.length - 28 ∧ (splitPayload payload).payload = payload := by
  simp only [splitPayload, EncryptedBlob.payload, gcmNonceLength, gcmTagLength, List.length_take, List.length_drop]
  refine ⟨by omega, by omega, by omega, ?_⟩
  have htake : payload.take 12 = (payload.take (payload.length - 16)).take 12 := by
    rw [List.take_take, Nat.min_eq_left (by omega)]
  rw [htake, List.take_append_drop, List.take_append_drop]

/-- What a reading says is one ciphertext: the blob is the payload cut where it says. -/
theorem says_iff (r : Reading) (c : TransitCiphertext) :
    r.Says c ↔ c = ⟨r.keyName, r.version.getD 1, splitPayload r.payload⟩ := by
  obtain ⟨hn, ht, hc, hp⟩ := splitPayload_spec r.long
  constructor
  · rintro ⟨hname, hversion, hnonce, htag, -, hpayload⟩
    cases c with
    | mk keyName keyVersion blob =>
      simp only at hname hversion hnonce htag hpayload
      rw [hname, hversion, ← hpayload, splitPayload_payload hnonce htag]
  · rintro rfl
    exact ⟨rfl, rfl, hn, ht, hc, hp⟩

/-- A token as its parts with colons between them. -/
theorem token_eq (r : Reading) : r.token = ciphertextPrefix ++ .scalar ':' ::
    match r.version with
    | none => r.keyName ++ .scalar ':' :: r.payloadB64
    | some n => (.scalar 'v' :: natText n) ++ .scalar ':' :: (r.keyName ++ .scalar ':' :: r.payloadB64) := by
  unfold token
  cases r.version <;> simp [py, ofChars, ciphertextPrefix]

/-- A version has no colon. -/
theorem colon_notMem_version (n : ℕ) : PyChar.scalar ':' ∉ PyChar.scalar 'v' :: natText n := by
  rw [List.mem_cons, not_or]
  exact ⟨by decide, sep_notMem_decimal (by decide) (by decide) n⟩

/-- The parts of a token that is read. -/
theorem tokenParts_token (r : Reading) :
    tokenParts r.token = .ok (ciphertextPrefix, r.keyName, ((r.version.getD 1 : ℕ) : ℤ), r.payloadB64) := by
  have hstart : PyChar.scalar ':' ∉ ciphertextPrefix := by decide
  have hname := colon_notMem_keyName r.keyName_pattern
  have hpayload := colon_notMem_of_decodeB64 r.decodes
  unfold tokenParts
  rw [token_eq, splitMax_append hstart]
  cases hversion : r.version with
  | none =>
    rw [splitMax_append hname, splitMax_of_notMem hpayload]
    rfl
  | some n =>
    obtain ⟨hpos, hmax⟩ := r.version_range n hversion
    rw [splitMax_append (colon_notMem_version n), splitMax_append hname, splitMax_zero]
    simp only [versionPattern_natText (show 0 < n by omega) hmax, natOfDigits_natText, Option.getD_some]

/-- **A token has one reading.** -/
theorem token_inj {r r' : Reading} (h : r.token = r'.token) : r = r' := by
  have hname := colon_notMem_keyName r.keyName_pattern
  have hname' := colon_notMem_keyName r'.keyName_pattern
  have hparts := r.tokenParts_token.symm.trans (h ▸ r'.tokenParts_token)
  simp only [Except.ok.injEq, Prod.mk.injEq, true_and] at hparts
  obtain ⟨hkey, -, hpayload⟩ := hparts
  have hbytes : r.payload = r'.payload := Except.ok.inj (r.decodes.symm.trans (hpayload ▸ r'.decodes))
  have hversion : r.version = r'.version := by
    rw [token_eq, token_eq, hkey, hpayload] at h
    have hrest := (List.cons.inj (List.append_cancel_left h)).2
    rcases hv : r.version with - | n <;> rcases hv' : r'.version with - | n' <;> rw [hv, hv'] at hrest
    · -- a payload has no colon, so the first shape is not the second
      exact absurd (append_sep_inj_left hname' (colon_notMem_version n') hrest).2 fun hmem =>
        colon_notMem_of_decodeB64 r'.decodes (hmem ▸ by simp)
    · exact absurd (append_sep_inj_left (colon_notMem_version n) hname' hrest).2 fun hmem =>
        colon_notMem_of_decodeB64 r'.decodes (hmem ▸ by simp)
    · have hdigits := List.cons_injective (append_sep_inj_left (colon_notMem_version n) (colon_notMem_version n') hrest).1
      rw [natText_inj hdigits]
  cases r
  cases r'
  simp only at hkey hpayload hbytes hversion
  subst hkey hpayload hbytes hversion
  rfl

end Reading

/-- **What `parse_ciphertext` accepts**: the tokens that have a reading. -/
theorem parseCiphertext_eq_ok_iff {token : PyStr} {c : TransitCiphertext} :
    parseCiphertext token = .ok c ↔ ∃ r : Reading, r.token = token ∧ r.Says c := by
  constructor
  · intro hparse
    obtain ⟨⟨start, keyName, keyVersion, payloadB64⟩, hparts, h⟩ := bind_eq_ok.mp hparse
    dsimp only at h
    split_ifs at h with hprefix
    rw [not_or, not_not, Bool.not_eq_true, Bool.not_eq_false'] at hprefix
    obtain ⟨rfl, hname⟩ := hprefix
    split at h
    · cases h
    · next payload hdecode =>
      split_ifs at h with hshort
      simp only [gcmNonceLength, gcmTagLength, not_lt] at hshort
      rcases tokenParts_eq_ok hparts with ⟨rfl, rfl⟩ | ⟨n, hpos, hmax, rfl, rfl⟩
      · let r : Reading := ⟨none, keyName, payloadB64, payload, by simp, hname, hdecode, hshort⟩
        exact ⟨r, r.token_eq, (r.says_iff c).mpr (Except.ok.inj h).symm⟩
      · let r : Reading :=
          ⟨some n, keyName, payloadB64, payload, by simp [hpos, hmax], hname, hdecode, hshort⟩
        exact ⟨r, r.token_eq, (r.says_iff c).mpr (Except.ok.inj h).symm⟩
  · rintro ⟨r, rfl, hsays⟩
    have hlong := r.long
    have hshort : ¬ r.payload.length < gcmNonceLength + gcmTagLength := by
      simp only [gcmNonceLength, gcmTagLength]
      omega
    rw [(r.says_iff c).mp hsays]
    unfold parseCiphertext
    simp only [r.tokenParts_token, ok_bind, ne_eq, not_true_eq_false, r.keyName_pattern, Bool.not_true, Bool.false_eq_true,
      or_self, ↓reduceIte, r.decodes, hshort]

/-- The number of the version a token names fits into a cell. -/
theorem parseCiphertext_fits {token : PyStr} {c : TransitCiphertext} (h : parseCiphertext token = .ok c) :
    Fits c.keyVersion := by
  obtain ⟨r, -, -, hversion, -⟩ := parseCiphertext_eq_ok_iff.mp h
  rw [hversion]
  rcases hn : r.version with - | n
  · decide
  · have hrange := r.version_range n hn
    simp only [Option.getD_some]
    unfold Fits
    omega


/-- Whatever `parse_ciphertext` raises is `MalformedCiphertextError`. -/
theorem parseCiphertext_eq_error {token : PyStr} {e : Exc} (h : parseCiphertext token = .error e) :
    e = .malformedCiphertextError := by
  have hparts : ∀ {e' : Exc}, tokenParts token = .error e' → e' = .malformedCiphertextError := by
    intro e' h'
    unfold tokenParts at h'
    split at h'
    · cases h'
    · split at h'
      · exact (Except.error.inj h').symm
      · cases h'
    · exact (Except.error.inj h').symm
  unfold parseCiphertext at h
  rcases htoken : tokenParts token with e' | ⟨start, keyName, keyVersion, payloadB64⟩
  · rw [htoken, error_bind, Except.error.injEq] at h
    rw [← h, hparts htoken]
  · rw [htoken, ok_bind] at h
    dsimp only at h
    split_ifs at h
    · exact (Except.error.inj h).symm
    · split at h
      · exact (Except.error.inj h).symm
      · split_ifs at h
        exact (Except.error.inj h).symm

/-- **The grammar of ciphertexts**: `parse_ciphertext` returns for the tokens that have a reading, which
is the only one they have, and returns what it says; for all others it raises
`MalformedCiphertextError`. -/
theorem parseCiphertext_grammar (token : PyStr) :
    (∀ c, parseCiphertext token = .ok c ↔ ∃ r : Reading, r.token = token ∧ r.Says c) ∧
      (∀ r r' : Reading, r.token = token → r'.token = token → r = r') ∧
        ((¬ ∃ r : Reading, r.token = token) → parseCiphertext token = .error .malformedCiphertextError) := by
  refine ⟨fun c => parseCiphertext_eq_ok_iff, fun r r' h h' => Reading.token_inj (h.trans h'.symm), fun hnone => ?_⟩
  rcases hparse : parseCiphertext token with e | c
  · rw [parseCiphertext_eq_error hparse]
  · obtain ⟨r, hr, -⟩ := parseCiphertext_eq_ok_iff.mp hparse
    exact absurd ⟨r, hr⟩ hnone

/-! ### What is formatted -/

/-- **What `format_ciphertext` makes is read back** where the grammar has digits for the
version, and only there. -/
theorem parse_format_iff {keyName token : PyStr} {keyVersion : ℤ} {blob : EncryptedBlob}
    (h : formatCiphertext keyName keyVersion blob = .ok token) (hnonce : blob.nonce.length = 12)
    (htag : blob.tag.length = 16) :
    parseCiphertext token = .ok ⟨keyName, keyVersion, blob⟩ ↔ keyVersion ≤ 999999999 := by
  constructor
  · intro hparse
    obtain ⟨r, -, -, hversion, -⟩ := parseCiphertext_eq_ok_iff.mp hparse
    dsimp only at hversion
    rw [hversion]
    cases hn : r.version with
    | none => decide
    | some n =>
      obtain ⟨-, hmax⟩ := r.version_range n hn
      simp only [Option.getD_some]
      omega
  · intro hmax
    exact parse_format h hmax hnonce htag

/-- A blob of zeros. -/
def sampleBlob : EncryptedBlob := ⟨List.replicate 12 0, [], List.replicate 16 0⟩

/-- A token of the first version is read back. -/
theorem parse_format_sample : ∃ token, formatCiphertext (py "v2") 1 sampleBlob = .ok token ∧
    (parseCiphertext token = .ok ⟨py "v2", 1, sampleBlob⟩ ↔ (1 : ℤ) ≤ 999999999) :=
  ⟨_, rfl, parse_format_iff rfl rfl rfl⟩

/-- One of the version after the last is formatted, and not read back. -/
theorem parse_format_late_sample :
    ¬ ∀ token, formatCiphertext (py "k") 1000000000 sampleBlob = .ok token →
      parseCiphertext token = .ok ⟨py "k", 1000000000, sampleBlob⟩ := by
  intro hall
  have hparse := hall ((formatCiphertext (py "k") 1000000000 sampleBlob).toOption.getD []) (by decide +kernel)
  exact absurd hparse (by decide +kernel)

end MiniVault
