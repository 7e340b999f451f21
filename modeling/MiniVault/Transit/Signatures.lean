import Mathlib.Order.Bounds.Basic
import MiniVault.Transit.Tokens

/-!
# Signatures over a run

What `verify` reports of a signature, while the key is rotated, revoked and made again.

## The model

A signature was issued (`Issued`) on a digest at a version if a call of `sign` on the key
returned it and the key was not revoked since. The signatures are ideal (`IdealSignature`)
in what they verify: a signature verifies under the public half of a material drawn in the
run only if it was made with the material, and what is made with a material verifies.

## What is proved

* `matchedVersion_rows` — the loop of `verify` finds the newest row that accepts the
  signature.
* `verify_issued` — `verify` reports a signature as valid exactly if it was issued, with the
  newest version it was issued at; pinned to a version, exactly if it was issued at that
  version.
-/

namespace MiniVault

open Foundations

section Signatures

variable [Platform]

namespace TransitService

/-! ### The newest row that accepts -/

/-- The versions whose rows accept the signature. -/
def acceptedAt (rows : List NamedKeyVersion) (signature digest : Bytes) : Set ℤ :=
  {v | ∃ (i : ℕ) (row : NamedKeyVersion), v = i + 1 ∧ rows[i]? = some row ∧ accepts row signature digest}

/-- **The loop finds the newest row** that accepts the signature; text that is not Base 64 no
row accepts. -/
theorem matchedVersion_rows {rows : List NamedKeyVersion}
    (hnumber : ∀ (i : ℕ) row, rows[i]? = some row → row.version = .int (i + 1)) (signatureB64 : PyStr) (digest : Bytes) :
    ∃ matched, matchedVersion rows.reverse signatureB64 digest = .ok matched ∧
      (matched.isSome ↔ ∃ signature, decodeB64 (.str signatureB64) = .ok signature ∧
        (acceptedAt rows signature digest).Nonempty) ∧
      ∀ v, matched = some v ↔ ∃ signature, decodeB64 (.str signatureB64) = .ok signature ∧
        IsGreatest (acceptedAt rows signature digest) v := by
  unfold matchedVersion
  cases hdec : decodeB64 (.str signatureB64) with
  | error e => exact ⟨none, rfl, by simp, by simp⟩
  | ok signature =>
    cases hfind : rows.reverse.find? fun row => accepts row signature digest with
    | none =>
      have hempty : ¬ (acceptedAt rows signature digest).Nonempty := by
        rintro ⟨v, i, row, -, hrow, haccepts⟩
        exact List.find?_eq_none.mp hfind row (List.mem_reverse.mpr (List.mem_of_getElem? hrow)) haccepts
      refine ⟨none, by simp only [hfind], by simpa using hempty, fun v => ?_⟩
      simp only [reduceCtorEq, Except.ok.injEq, exists_eq_left', false_iff]
      exact fun hgreatest => hempty hgreatest.nonempty
    | some row =>
      obtain ⟨i, hi, haccepts, hlast⟩ := find?_reverse_eq_some.mp hfind
      have hgreatest : IsGreatest (acceptedAt rows signature digest) (i + 1) := by
        refine ⟨⟨i, row, rfl, hi, haccepts⟩, ?_⟩
        rintro v ⟨j, y, rfl, hj, hy⟩
        by_contra hlt
        exact hlast j y (by omega) hj hy
      refine ⟨some (i + 1), by simp [hfind, hnumber i row hi, Except.map], by simpa using hgreatest.nonempty, fun v => ?_⟩
      simp only [Option.some.injEq, Except.ok.injEq, exists_eq_left']
      exact ⟨fun h => h ▸ hgreatest, hgreatest.unique⟩

/-- Pinned to one row, the loop finds it if it accepts the signature. -/
theorem matchedVersion_singleton {row : NamedKeyVersion} {n : ℤ} (hnumber : row.version = .int n) (signatureB64 : PyStr)
    (digest : Bytes) :
    ∃ matched, matchedVersion [row] signatureB64 digest = .ok matched ∧
      ∀ v, matched = some v ↔ v = n ∧ ∃ signature, decodeB64 (.str signatureB64) = .ok signature ∧
        accepts row signature digest := by
  unfold matchedVersion
  cases hdec : decodeB64 (.str signatureB64) with
  | error e => exact ⟨none, rfl, by simp⟩
  | ok signature =>
    cases haccepts : accepts row signature digest with
    | false => exact ⟨none, by simp [haccepts], by simp [haccepts]⟩
    | true =>
      refine ⟨some n, by simp [haccepts, hnumber, Except.map], fun v => ⟨fun h => ?_, fun h => by rw [h.1]⟩⟩
      exact ⟨(Option.some.inj h).symm, signature, rfl, haccepts⟩

/-- What the loop finds is a row that accepts the signature. -/
theorem matchedVersion_eq_some {rows : List NamedKeyVersion} {signatureB64 : PyStr} {digest : Bytes} {v : ℤ}
    (h : matchedVersion rows signatureB64 digest = .ok (some v)) :
    ∃ signature row, decodeB64 (.str signatureB64) = .ok signature ∧ row ∈ rows ∧ accepts row signature digest := by
  unfold matchedVersion at h
  split at h
  · cases h
  · next signature hsignature =>
    split at h
    · cases h
    · next row hfind =>
      exact ⟨signature, row, hsignature, List.mem_of_find?_eq_some hfind,
        List.find?_some (p := fun row => accepts row signature digest) hfind⟩

/-- A row that accepts has a public key under which the signature verifies. -/
theorem accepts_eq_true {row : NamedKeyVersion} {signature digest : Bytes} (h : accepts row signature digest) :
    ∃ publicKey, decodeB64 row.publicKeyB64 = .ok publicKey ∧ publicKey.length = 32 ∧
      Platform.ed25519Verify publicKey signature digest := by
  unfold accepts at h
  rw [Bool.and_eq_true] at h
  obtain ⟨-, h⟩ := h
  split at h
  · cases h
  · next publicKey hpublic =>
    rw [Bool.and_eq_true] at h
    exact ⟨publicKey, hpublic, of_decide_eq_true h.1, h.2⟩

/-- A row with a public key accepts what verifies under it. -/
theorem accepts_publicKey {row : NamedKeyVersion} {publicKey : Bytes} (hrow : row.publicKeyB64 = .str (encodeB64 publicKey))
    (hlen : publicKey.length = 32) (signature digest : Bytes) :
    accepts row signature digest = Platform.ed25519Verify publicKey signature digest := by
  have hne : encodeB64 publicKey ≠ [] := by
    intro hnil
    have hempty := decodeB64_encodeB64 publicKey
    rw [hnil, ← show encodeB64 [] = [] from rfl, decodeB64_encodeB64] at hempty
    rw [← Except.ok.inj hempty] at hlen
    cases hlen
  simp [accepts, hrow, Value.falsy, hne, hlen, ed25519KeyLength]

/-! ### The rows that are tried -/

section Rows

variable {owner name : PyStr} {w : World} {dek : Key} {K : Keyring} {r : NamedKey} {key : KeyKind × List Key}

/-- Without a version every row is tried, newest first. -/
theorem run_candidates_none (h : KeysFit w.db) (hr : w.db.keyAt owner name = some r) :
    (candidates r none).run w = (.ok (w.db.keyVersionsAt owner name).reverse, w) := by
  have hid : Fits r.id := h.ids r (Database.keyAt_mem hr).1
  have hrows : ∀ rows, (∀ row ∈ rows, row ∈ w.db.keyVersionsAt owner name) →
      (candidateRows r rows).run w = (.ok rows, w) := by
    intro rows
    induction rows with
    | nil => exact fun _ => rfl
    | cons row rows ih =>
      intro hmem
      simp only [List.mem_cons, forall_eq_or_imp] at hmem
      obtain ⟨i, hi, hget⟩ := List.getElem_of_mem hmem.1
      have hat : (w.db.keyVersionsAt owner name)[i]? = some row := by rw [List.getElem?_eq_getElem hi, hget]
      have hversion := Database.keyVersionsAt_number h.sound hat
      have hfits : Fits ((i : ℤ) + 1) := by
        have hall := h.numbers owner name
        unfold Fits at hall ⊢
        omega
      have hselect := (Database.selectKeyVersion_eq_some h.sound hr).mpr ⟨i, rfl, hat⟩
      have hfound : (keyVersion r ((i : ℤ) + 1)).run w = (.ok row, w) :=
        run_keyVersion_eq_ok.mpr ⟨hid, hfits, h.sound.versionCells row (List.mem_of_find?_eq_some hselect), hselect, rfl⟩
      simp only [candidateRows, Prog.run_bind, Prog.run_done, hversion, pyInt_int, hfound, ih hmem.2, Prog.run_pure]
  simp only [candidates, Prog.run_bind, run_listVersions hid h.sound, Database.selectKeyVersions_eq h.sound hr]
  exact hrows _ fun row hrow => List.mem_reverse.mp hrow

/-- The rows that are tried are rows of the key. -/
theorem candidates_mem {version : Option ℤ} {rows : List NamedKeyVersion} {w' : World}
    (h : (candidates r version).run w = (.ok rows, w')) :
    ∀ row ∈ rows, row ∈ w.db.namedKeyVersions.rows ∧ row.keyId.sqlEq (.int r.id) := by
  have hselect : ∀ {n : ℤ} {row : NamedKeyVersion}, w.db.selectKeyVersion r.id n = some row →
      row ∈ w.db.namedKeyVersions.rows ∧ row.keyId.sqlEq (.int r.id) := by
    intro n row hrow
    have hfound := List.find?_some hrow
    simp only [Bool.and_eq_true] at hfound
    exact ⟨List.mem_of_find?_eq_some hrow, hfound.1⟩
  have hrows : ∀ found rows, (candidateRows r found).run w = (.ok rows, w') →
      ∀ row ∈ rows, row ∈ w.db.namedKeyVersions.rows ∧ row.keyId.sqlEq (.int r.id) := by
    intro found
    induction found with
    | nil =>
      intro rows hrun
      simp only [candidateRows, Prog.run_pure, Prod.mk.injEq, Except.ok.injEq] at hrun
      simp [← hrun.1]
    | cons first found ih =>
      intro rows hrun
      obtain ⟨n, _, hdone, hrun⟩ := Prog.run_bind_eq_ok.mp hrun
      obtain ⟨-, rfl⟩ := Prog.run_done_eq_ok.mp hdone
      obtain ⟨row, _, hfound, hrun⟩ := Prog.run_bind_eq_ok.mp hrun
      obtain ⟨-, -, -, hrow, rfl⟩ := run_keyVersion_eq_ok.mp hfound
      obtain ⟨more, _, hmore, hrun⟩ := Prog.run_bind_eq_ok.mp hrun
      simp only [Prog.run_pure, Prod.mk.injEq, Except.ok.injEq] at hrun
      obtain ⟨rfl, rfl⟩ := hrun
      intro x hx
      rcases List.mem_cons.mp hx with rfl | hx
      · exact hselect hrow
      · exact ih more hmore x hx
  cases version with
  | some n =>
    obtain ⟨row, _, hfound, hrun⟩ := Prog.run_bind_eq_ok.mp h
    obtain ⟨-, -, -, hrow, rfl⟩ := run_keyVersion_eq_ok.mp hfound
    simp only [Prog.run_pure, Prod.mk.injEq, Except.ok.injEq] at hrun
    obtain ⟨rfl, -⟩ := hrun
    intro x hx
    obtain rfl := List.mem_singleton.mp hx
    exact hselect hrow
  | none =>
    obtain ⟨found, _, hlist, hrun⟩ := Prog.run_bind_eq_ok.mp h
    obtain ⟨-, -, -, rfl⟩ := run_query_eq_ok.mp (run_connection_eq_ok.mp hlist)
    exact hrows _ rows hrun

/-- The rows that accept are those of the materials under whose public halves the signature
verifies. -/
theorem mem_acceptedAt (h : Stores dek w.db K) (hr : w.db.keyAt owner name = some r) {materials : List Key}
    (hK : K owner name = some (.ed25519, materials)) {signature digest : Bytes}
    (hlen : ∀ m ∈ materials, (Platform.ed25519Public m).length = 32) (v : ℤ) :
    v ∈ acceptedAt (w.db.keyVersionsAt owner name) signature digest ↔ ∃ (i : ℕ) (m : Key), v = i + 1 ∧
      materials[i]? = some m ∧ Platform.ed25519Verify (Platform.ed25519Public m) signature digest := by
  constructor
  · rintro ⟨i, row, rfl, hrow, haccepts⟩
    have hselect := (Database.selectKeyVersion_eq_some h.sound hr).mpr ⟨i, rfl, hrow⟩
    obtain ⟨j, m, hj, hm, -, -, hpublic⟩ := h.opened hr hK hselect
    obtain rfl : i = j := by omega
    rw [accepts_publicKey hpublic (hlen m (List.mem_of_getElem? hm))] at haccepts
    exact ⟨i, m, rfl, hm, haccepts⟩
  · rintro ⟨i, m, rfl, hm, hverify⟩
    rcases h.selectKeyVersion hr hK i with ⟨row, m', hrow, hm', -, -, hpublic⟩ | ⟨-, hnone⟩
    · obtain rfl : m = m' := Option.some.inj (hm.symm.trans hm')
      obtain ⟨j, hj, hget⟩ := (Database.selectKeyVersion_eq_some h.sound hr).mp hrow
      obtain rfl : i = j := by omega
      refine ⟨i, row, rfl, hget, ?_⟩
      rwa [accepts_publicKey hpublic (hlen m (List.mem_of_getElem? hm))]
    · rw [hm] at hnone
      cases hnone

/-- **What `verify` does** where it answers: it looks for a match among the rows it tries. -/
theorem run_verify_eq_ok {messageB64 messageType signatureB64 signingAlgorithm : PyStr} {version : Option ℤ}
    {result : VerifyResult} {w' : World} :
    (verify owner name messageB64 messageType signatureB64 signingAlgorithm version).run w = (.ok result, w') ↔
      keyNamePattern name ∧ Bindable owner ∧ ∃ dek r digest rows matched, w.dek = some dek ∧
        w.db.keyAt owner name = some r ∧ Fetchable r.cells ∧ r.keyUsage = .str signVerify ∧
          r.signingAlgorithm = .str (Platform.upper signingAlgorithm) ∧ messageDigest messageB64 messageType = .ok digest ∧
            (candidates r version).run w = (.ok rows, w') ∧ matchedVersion rows signatureB64 digest = .ok matched ∧
              result = ⟨name, matched, r.signingAlgorithm, matched.isSome⟩ := by
  unfold verify
  constructor
  · intro h
    obtain ⟨r, _, howned, h⟩ := Prog.run_bind_eq_ok.mp h
    obtain ⟨hname, howner, hfetch, hrow, rfl⟩ := run_ownedKey_eq_ok.mp howned
    by_cases husage : r.keyUsage = .str signVerify
    · simp only [husage, ne_eq, not_true_eq_false, ↓reduceIte] at h
      obtain ⟨_, _, hvalid, h⟩ := Prog.run_bind_eq_ok.mp h
      obtain ⟨halg, rfl⟩ := run_validateAlgorithm_eq_ok.mp hvalid
      obtain ⟨dek, _, hget, h⟩ := Prog.run_bind_eq_ok.mp h
      obtain ⟨hdek, rfl⟩ := run_getDek_eq_ok.mp hget
      obtain ⟨digest, _, hdone, h⟩ := Prog.run_bind_eq_ok.mp h
      obtain ⟨hdigest, rfl⟩ := Prog.run_done_eq_ok.mp hdone
      obtain ⟨rows, _, hrows, h⟩ := Prog.run_bind_eq_ok.mp h
      obtain ⟨matched, _, hdone, h⟩ := Prog.run_bind_eq_ok.mp h
      obtain ⟨hmatched, rfl⟩ := Prog.run_done_eq_ok.mp hdone
      simp only [Prog.run_pure, Prod.mk.injEq, Except.ok.injEq] at h
      obtain ⟨rfl, rfl⟩ := h
      exact ⟨hname, howner, dek, r, digest, rows, matched, hdek, hrow, hfetch, husage, halg, hdigest, hrows, hmatched, rfl⟩
    · simp [husage] at h
  · rintro ⟨hname, howner, dek, r, digest, rows, matched, hdek, hrow, hfetch, husage, halg, hdigest, hrows, hmatched, rfl⟩
    have howned := run_ownedKey_eq_ok.mpr ⟨hname, howner, hfetch, hrow, rfl⟩
    have hvalid : (validateAlgorithm r signingAlgorithm).run w = (.ok (), w) := run_validateAlgorithm_eq_ok.mpr ⟨halg, rfl⟩
    have hget := run_getDek_eq_ok.mpr ⟨hdek, rfl⟩
    simp only [Prog.run_bind, howned, husage, ne_eq, not_true_eq_false, ↓reduceIte, hvalid, hget, Prog.run_done, hdigest,
      hrows, hmatched, Prog.run_pure]

/-- With an algorithm that is not the key's `verify` raises, whatever the signature. -/
theorem run_verify_other_algorithm (howned : (ownedKey owner name).run w = (.ok r, w)) (husage : r.keyUsage = .str signVerify)
    {signingAlgorithm : PyStr} (h : r.signingAlgorithm ≠ .str (Platform.upper signingAlgorithm))
    (messageB64 messageType signatureB64 : PyStr) (version : Option ℤ) :
    (verify owner name messageB64 messageType signatureB64 signingAlgorithm version).run w =
      (.error .invalidSigningAlgorithmError, w) := by
  have hne : .str (Platform.upper signingAlgorithm) ≠ r.signingAlgorithm := Ne.symm h
  simp [verify, Prog.run_bind, howned, husage, validateAlgorithm, hne]

end Rows

end TransitService

/-! ### What was issued -/

/-- The signature was issued on the digest at the version: a call of `sign` returned it, and
the key was not revoked since. -/
def Issued (t : TransitTrace) (owner name : PyStr) (digest signature : Bytes) (version : ℤ) : Prop :=
  ∃ before messageB64 messageType algorithm r after,
    t = before ++ (.sign owner name messageB64 messageType algorithm, .ok (.signed r)) :: after ∧
      (∀ e ∈ after, ¬ Revokes owner name e) ∧
        TransitService.messageDigest messageB64 messageType = .ok digest ∧
          decodeB64 (.str r.signatureB64) = .ok signature ∧ r.keyVersion = version

/-- The signatures under the materials are ideal, in the signature and the digest: with a
public key of the length the code takes, what is made verifies, and what verifies was made. -/
structure IdealSignature (w : World) (materials : List Key) (digest signature : Bytes) : Prop where
  /-- A public key has 32 bytes. -/
  length : ∀ m ∈ materials, (Platform.ed25519Public m).length = 32
  /-- What is made verifies. -/
  correct : ∀ m ∈ materials,
    Platform.ed25519Verify (Platform.ed25519Public m) (Platform.ed25519Sign m digest) digest
  /-- What verifies was made. -/
  unforgeable : ∀ m ∈ materials, Platform.ed25519Verify (Platform.ed25519Public m) signature digest →
    ⟨m, digest, signature⟩ ∈ w.signed

section Issued

variable {passphrase : PyStr} {dek : Key} {t : TransitTrace} {w : World} {owner name : PyStr} {digest signature : Bytes}

omit [Platform] in
/-- The materials of a key were drawn by calls of the run. -/
theorem drawn_of_keyring {kind : KeyKind} {materials : List Key} (hK : keyring t owner name = some (kind, materials)) :
    ∀ m ∈ materials, m ∈ (t.map Prod.fst).filterMap TransitOp.drawn := by
  intro m hm
  have hdrawn := (keyring_drawn [] hK (.inl rfl)).subset hm
  exact (drawnFor_sublist _ _ _).subset hdrawn

/-- **What was issued is what verifies**: at a version, under the public half of its
material. -/
theorem Recorded.issued_iff (h : Recorded t w) (hfresh : Fresh (t.map Prod.fst)) {materials : List Key}
    (hK : keyring t owner name = some (.ed25519, materials))
    (hideal : IdealSignature w ((t.map Prod.fst).filterMap TransitOp.drawn) digest signature) (v : ℤ) :
    Issued t owner name digest signature v ↔ ∃ (i : ℕ) (m : Key), v = i + 1 ∧ materials[i]? = some m ∧
      Platform.ed25519Verify (Platform.ed25519Public m) signature digest := by
  have hdrawn := drawn_of_keyring hK
  constructor
  · rintro ⟨before, message, type, algorithm, r, after, rfl, hkeep, hdigest, hsignature, rfl⟩
    obtain ⟨r', s, hr', ⟨ms, m, hK', hlast, hversion, hkey⟩, hdigest', hmade, htext⟩ := h.genuine _ _ _ rfl
    obtain rfl : r = r' := TransitAnswer.signed.inj hr'
    -- the material is still there, and it made the signature
    obtain ⟨more, hmore⟩ := keyring_extends _ (_ :: after) h.genuine hK' (by
      intro e he
      rcases List.mem_cons.mp he with rfl | he
      · rintro ⟨a, ha⟩
        cases ha
      · exact hkeep e he)
    obtain rfl : materials = ms ++ more := (Prod.mk.inj (Option.some.inj (hK.symm.trans hmore))).2
    rw [List.getLast?_eq_getElem?] at hlast
    have hlt := (List.getElem?_eq_some_iff.mp hlast).1
    have hat : (ms ++ more)[ms.length - 1]? = some m := by rw [List.getElem?_append_left hlt, hlast]
    obtain rfl : digest = s.digest := Except.ok.inj (hdigest.symm.trans hdigest')
    obtain rfl : signature = s.signature := by
      rw [htext, decodeB64_encodeB64] at hsignature
      exact (Except.ok.inj hsignature).symm
    refine ⟨ms.length - 1, m, by omega, hat, ?_⟩
    rw [hmade, hkey]
    exact hideal.correct m (hdrawn m (List.mem_of_getElem? hat))
  · rintro ⟨i, m, rfl, hm, hverify⟩
    -- what verifies was made, by a call of `sign` on a key whose latest material it was
    have hsigned := hideal.unforgeable m (hdrawn m (List.mem_of_getElem? hm)) hverify
    obtain ⟨before, ⟨op, e | a⟩, after, hrun, hby⟩ := h.signed _ hsigned
    · cases op <;> cases hby
    cases op with
    | sign u k message type algorithm =>
      cases a with
      | signed r =>
        obtain ⟨⟨ms, material, hK', hlast, hversion, hkey⟩, hdigest, -, htext⟩ := hby
        obtain rfl : m = material := Subtype.ext hkey
        have hexplained := h.genuine
        rw [hrun] at hK hfresh hexplained
        obtain ⟨rfl, rfl, -, hlen, hkeep⟩ := hfresh.latest hexplained hK' hlast hK hm
        refine ⟨before, message, type, algorithm, r, after, hrun, fun e he => hkeep e (List.mem_cons_of_mem _ he), hdigest,
          ?_, ?_⟩
        · rw [htext, decodeB64_encodeB64]
        · rw [hversion, hlen]
          push_cast
          rfl
      | _ => cases hby
    | _ => cases hby

/-- A row accepts a signature exactly if it was issued at its version. -/
theorem Recorded.acceptedAt_eq (h : Recorded t w) (hfresh : Fresh (t.map Prod.fst)) (hrows : Stores dek w.db (keyring t))
    {row : NamedKey} (hrow : w.db.keyAt owner name = some row) {materials : List Key}
    (hK : keyring t owner name = some (.ed25519, materials))
    (hideal : IdealSignature w ((t.map Prod.fst).filterMap TransitOp.drawn) digest signature) :
    TransitService.acceptedAt (w.db.keyVersionsAt owner name) signature digest =
      {v | Issued t owner name digest signature v} := by
  have hlength : ∀ m ∈ materials, (Platform.ed25519Public m).length = 32 := fun m hm =>
    hideal.length m (drawn_of_keyring hK m hm)
  ext v
  rw [TransitService.mem_acceptedAt hrows hrow hK hlength, Set.mem_ofPred_eq]
  exact (h.issued_iff hfresh hK hideal v).symm

end Issued

/-- What `verify` reports is what was issued. -/
structure VerifiesIssued (t : TransitTrace) (w : World)
    (owner name messageB64 messageType signatureB64 signingAlgorithm : PyStr) (digest : Bytes) (row : NamedKey) : Prop where
  /-- Without a version: whether the signature was issued, and the newest version it was issued at. -/
  newest : ∃ matched,
    (TransitService.verify owner name messageB64 messageType signatureB64 signingAlgorithm none).run w =
        (.ok ⟨name, matched, row.signingAlgorithm, matched.isSome⟩, w) ∧
      (matched.isSome ↔ ∃ signature v, decodeB64 (.str signatureB64) = .ok signature ∧
        Issued t owner name digest signature v) ∧
      ∀ v, matched = some v ↔ ∃ signature, decodeB64 (.str signatureB64) = .ok signature ∧
        IsGreatest {v | Issued t owner name digest signature v} v
  /-- Pinned to a version that there is: whether the signature was issued at that version. -/
  pinned : ∀ n, w.db.selectKeyVersion row.id n ≠ none → ∃ matched,
    (TransitService.verify owner name messageB64 messageType signatureB64 signingAlgorithm (some n)).run w =
        (.ok ⟨name, matched, row.signingAlgorithm, matched.isSome⟩, w) ∧
      ∀ v, matched = some v ↔ v = n ∧ ∃ signature, decodeB64 (.str signatureB64) = .ok signature ∧
        Issued t owner name digest signature n

section Reports

variable {dek : Key} {K : Keyring} {t : TransitTrace} {w : World} {digest : Bytes} {row : NamedKey}
  {owner name messageB64 messageType signatureB64 signingAlgorithm : PyStr}

/-- What a call of `verify` finds before it tries the rows: the key, unlocked, with the algorithm
of the call, and a payload that has a digest. -/
structure Verifiable (w : World) (dek : Key) (row : NamedKey)
    (owner name messageB64 messageType signingAlgorithm : PyStr) (digest : Bytes) : Prop where
  /-- The name has the pattern. -/
  named : keyNamePattern name
  /-- The owner can be looked up. -/
  bindable : Bindable owner
  /-- The vault is unlocked. -/
  unlocked : w.dek = some dek
  /-- There is the key. -/
  found : w.db.keyAt owner name = some row
  /-- It is one that signs. -/
  usage : row.keyUsage = .str signVerify
  /-- The call names its algorithm. -/
  algorithm : row.signingAlgorithm = .str (Platform.upper signingAlgorithm)
  /-- The payload has the digest. -/
  digested : TransitService.messageDigest messageB64 messageType = .ok digest

/-- The report of a call of `verify` is what the rows it tries match. -/
theorem Verifiable.run_verify (h : Verifiable w dek row owner name messageB64 messageType signingAlgorithm digest)
    (hs : w.db.KeySound) {version : Option ℤ} {rows : List NamedKeyVersion} {matched : Option ℤ}
    (hrows : (TransitService.candidates row version).run w = (.ok rows, w))
    (hmatched : TransitService.matchedVersion rows signatureB64 digest = .ok matched) :
    (TransitService.verify owner name messageB64 messageType signatureB64 signingAlgorithm version).run w =
      (.ok ⟨name, matched, row.signingAlgorithm, matched.isSome⟩, w) :=
  TransitService.run_verify_eq_ok.mpr ⟨h.named, h.bindable, dek, row, digest, rows, matched, h.unlocked, h.found,
    hs.fetchable_keyAt _ h.found, h.usage, h.algorithm, h.digested, hrows, hmatched, rfl⟩

/-- **Where the rows accept what was issued, `verify` reports it.** -/
theorem Verifiable.verifiesIssued (h : Verifiable w dek row owner name messageB64 messageType signingAlgorithm digest)
    (hstores : Stores dek w.db K)
    (haccepts : ∀ signature, decodeB64 (.str signatureB64) = .ok signature →
      TransitService.acceptedAt (w.db.keyVersionsAt owner name) signature digest =
        {v | Issued t owner name digest signature v}) :
    VerifiesIssued t w owner name messageB64 messageType signatureB64 signingAlgorithm digest row where
  newest := by
    obtain ⟨matched, hmatched, hsome, hgreatest⟩ := TransitService.matchedVersion_rows
      (fun i row hi => Database.keyVersionsAt_number hstores.sound hi) signatureB64 digest
    refine ⟨matched, h.run_verify hstores.sound (TransitService.run_candidates_none hstores.keysFit h.found) hmatched, ?_,
      fun v => ?_⟩
    · rw [hsome]
      constructor
      · rintro ⟨signature, hsignature, v, hv⟩
        rw [haccepts signature hsignature] at hv
        exact ⟨signature, v, hsignature, hv⟩
      · rintro ⟨signature, v, hsignature, hv⟩
        refine ⟨signature, hsignature, v, ?_⟩
        rwa [haccepts signature hsignature]
    · rw [hgreatest]
      constructor
      · rintro ⟨signature, hsignature, hv⟩
        rw [haccepts signature hsignature] at hv
        exact ⟨signature, hsignature, hv⟩
      · rintro ⟨signature, hsignature, hv⟩
        refine ⟨signature, hsignature, ?_⟩
        rwa [haccepts signature hsignature]
  pinned n hn := by
    obtain ⟨versionRow, hselect⟩ := Option.ne_none_iff_exists'.mp hn
    obtain ⟨i, hi, hget⟩ := (Database.selectKeyVersion_eq_some hstores.sound h.found).mp hselect
    have hnumber : versionRow.version = .int n := by rw [Database.keyVersionsAt_number hstores.sound hget, hi]
    have hfits : Fits n := by
      have hall := hstores.numbers owner name
      have hlt := (List.getElem?_eq_some_iff.mp hget).1
      unfold Fits at hall ⊢
      omega
    have hfound := TransitService.run_keyVersion_eq_ok.mpr
      ⟨hstores.fits row (Database.keyAt_mem h.found).1, hfits,
        hstores.sound.versionCells versionRow (List.mem_of_find?_eq_some hselect), hselect, rfl⟩
    have htried : (TransitService.candidates row (some n)).run w = (.ok [versionRow], w) := by
      simp only [TransitService.candidates, Prog.run_bind, hfound, Prog.run_pure]
    obtain ⟨matched, hmatched, hvalid⟩ := TransitService.matchedVersion_singleton hnumber signatureB64 digest
    refine ⟨matched, h.run_verify hstores.sound htried hmatched, fun v => ?_⟩
    rw [hvalid]
    refine and_congr_right fun _ => exists_congr fun signature => and_congr_right fun hsignature => ?_
    show _ ↔ n ∈ {v | Issued t owner name digest signature v}
    rw [← haccepts signature hsignature]
    constructor
    · exact fun hrowAccepts => ⟨i, versionRow, hi, hget, hrowAccepts⟩
    · rintro ⟨j, row', hj, hget', hrowAccepts⟩
      obtain rfl : i = j := by omega
      obtain rfl : versionRow = row' := Option.some.inj (hget.symm.trans hget')
      exact hrowAccepts

end Reports

/-- **Signatures verify exactly as issued.** In a run that begins with an empty database and a
vault that has just been initialized, with ideal signatures and materials that are all
different, a call of `verify` on a signing key raises where the algorithm is not `ED25519`, whatever
the signature; with this algorithm and a payload that `_message_digest` accepts it reports a signature
as valid exactly if it was issued on the digest, with the newest version it was issued at; and a
message and the digest of it have one digest. -/
theorem verify_issued (hgcm : GcmCorrect) (environ : PyStr → Option PyStr) (passphrase : PyStr)
    (coins : VaultService.InitCoins) (ops : List TransitOp)
    (owner name messageB64 messageType signatureB64 signingAlgorithm : PyStr) (row : NamedKey) :
    let start := (VaultService.initializeVault passphrase coins).run (.fresh environ)
    let run := transitSession passphrase start.2 ops
    start.1.isOk → Fresh ops → run.2.dek ≠ none → run.2.db.keyAt owner name = some row →
      row.keyUsage = .str signVerify →
        (Platform.upper signingAlgorithm ≠ ed25519 → ∀ version,
          (TransitService.verify owner name messageB64 messageType signatureB64 signingAlgorithm version).run run.2 =
            (.error .invalidSigningAlgorithmError, run.2)) ∧
        (Platform.upper signingAlgorithm = ed25519 → ∀ digest,
          TransitService.messageDigest messageB64 messageType = .ok digest →
            (∀ signature, decodeB64 (.str signatureB64) = .ok signature →
              IdealSignature run.2 (ops.filterMap TransitOp.drawn) digest signature) →
              VerifiesIssued run.1 run.2 owner name messageB64 messageType signatureB64 signingAlgorithm digest row) ∧
        ∀ (message : Bytes) (raw digested : PyStr), Platform.upper raw = py "RAW" →
          Platform.upper digested = py "DIGEST" → (Platform.sha256 message).length = sha256DigestLength →
            TransitService.messageDigest (encodeB64 message) raw =
              TransitService.messageDigest (encodeB64 (Platform.sha256 message)) digested := by
  intro start run hinit hfresh hunlocked hrow husage
  obtain ⟨hstart, hnothing⟩ := KeysRefine.start hgcm hinit
  obtain ⟨hrefines, hrecorded⟩ := hstart.session hgcm hnothing ops
  change KeysRefine passphrase coins.dek run.1 run.2 at hrefines
  change Recorded run.1 run.2 at hrecorded
  have hops : run.1.map Prod.fst = ops := Prog.session_map_fst _ _ _
  obtain ⟨k, hk⟩ := Option.ne_none_iff_exists'.mp hunlocked
  obtain rfl := hrefines.memory k hk
  obtain ⟨⟨kind, materials⟩, hK, hold⟩ := hrefines.stores.holdsKey hrow
  obtain rfl : kind = .ed25519 := KeyKind.usage_inj (Value.str.inj (hold.usage.symm.trans husage))
  obtain ⟨hname, howner⟩ := keyring_nameable hrecorded.genuine (u := owner) (k := name) (by rw [hK]; simp)
  have hrows := hrefines.stores
  have howned : (TransitService.ownedKey owner name).run run.2 = (.ok row, run.2) :=
    TransitService.run_ownedKey_eq_ok.mpr ⟨hname, howner, hrows.sound.fetchable_keyAt _ hrow, hrow, rfl⟩
  refine ⟨fun hother version => ?_, fun halg digest hdigest hideal => ?_, fun message raw digested hraw hdig hlen => ?_⟩
  · have hne : row.signingAlgorithm ≠ .str (Platform.upper signingAlgorithm) := by
      rw [hold.algorithm]
      exact fun h => hother (Value.str.inj h).symm
    exact TransitService.run_verify_other_algorithm howned husage hne _ _ _ _
  swap
  · have hne : py "DIGEST" ≠ py "RAW" := by decide
    simp [TransitService.messageDigest, TransitService.decodePayload, hraw, hdig, hlen, hne]
  have halgorithm : row.signingAlgorithm = .str (Platform.upper signingAlgorithm) := by
    rw [hold.algorithm, halg]
    rfl
  have hverifiable : Verifiable run.2 coins.dek row owner name messageB64 messageType signingAlgorithm digest :=
    ⟨hname, howner, hk, hrow, husage, halgorithm, hdigest⟩
  apply hverifiable.verifiesIssued hrows
  intro signature hsignature
  have hideal' := hideal signature hsignature
  rw [← hops] at hideal' hfresh
  exact hrecorded.acceptedAt_eq hfresh hrows hrow hK hideal'

end Signatures

/-! ### A run on the sample platform -/

section Sample

attribute [local instance] samplePlatform

/-- What comes before the signature in the sample run. -/
def sampleSigningBefore : List TransitOp :=
  [.unlock, .createSigningKey sampleOwner sampleKeyName (py "ed25519") (sampleKeyCoins 21)]

/-- The signature. -/
def sampleSigning : TransitOp := .sign sampleOwner sampleKeyName samplePayload (py "raw") (py "ed25519")

/-- What comes after it: a rotation. -/
def sampleSigningAfter : List TransitOp := [.rotateKey sampleOwner sampleKeyName (sampleKeyCoins 23)]

/-- The sample run. -/
def sampleSigned : TransitTrace × World :=
  transitSession samplePassphrase sampleStart.2 (sampleSigningBefore ++ sampleSigning :: sampleSigningAfter)

/-- The digest that is signed; the sample digest is the message. -/
def sampleDigest : Bytes := [104, 105]

/-- The signature that is made. -/
def sampleSignature : Bytes := (sampleKey 21).1 ++ sampleDigest

/-- What the call of `sign` returns. -/
def sampleSignResult : SignResult := ⟨sampleKeyName, 1, .str ed25519, encodeB64 sampleSignature⟩

attribute [local irreducible] Prog.session

/-- The row of the key at the end of the run. -/
theorem sampleSigned_row : ∃ row, sampleSigned.2.db.keyAt sampleOwner sampleKeyName = some row ∧
    row.keyUsage = .str signVerify := by
  have husage : (sampleSigned.2.db.keyAt sampleOwner sampleKeyName).map NamedKey.keyUsage = some (.str signVerify) := by
    decide +kernel
  exact Option.map_eq_some_iff.mp husage

/-- The sample signature verifies under the material that made it only. -/
theorem sampleSigned_ideal {signature : Bytes} (h : decodeB64 (.str (encodeB64 sampleSignature)) = .ok signature) :
    IdealSignature sampleSigned.2
      ((sampleSigningBefore ++ sampleSigning :: sampleSigningAfter).filterMap TransitOp.drawn) sampleDigest signature := by
  rw [decodeB64_encodeB64] at h
  obtain rfl := Except.ok.inj h
  exact ⟨by decide +kernel, by decide +kernel, by decide +kernel⟩

/-- A signature verifies after a rotation on the sample platform. -/
theorem verify_issued_sample : ∃ row, VerifiesIssued sampleSigned.1 sampleSigned.2 sampleOwner sampleKeyName samplePayload
    (py "raw") (encodeB64 sampleSignature) (py "Ed25519") sampleDigest row := by
  obtain ⟨row, hrow, husage⟩ := sampleSigned_row
  exact ⟨row, (verify_issued samplePlatform_gcmCorrect (fun _ => none) samplePassphrase sampleCoins
    (sampleSigningBefore ++ sampleSigning :: sampleSigningAfter) sampleOwner sampleKeyName samplePayload (py "raw")
    (encodeB64 sampleSignature) (py "Ed25519") row (by decide +kernel) (by decide +kernel) (by decide +kernel)
    hrow husage).2.1 (by decide +kernel) sampleDigest (by decide +kernel) fun _ h => sampleSigned_ideal h⟩

/-- A signature that was issued is not reported as valid where `verify` is called with an
algorithm that is not the key's: the call raises. -/
theorem verify_other_algorithm_sample :
    (∃ row, sampleSigned.2.db.keyAt sampleOwner sampleKeyName = some row ∧ row.keyUsage = .str signVerify) ∧
      TransitService.messageDigest samplePayload (py "raw") = .ok sampleDigest ∧
        Issued sampleSigned.1 sampleOwner sampleKeyName sampleDigest sampleSignature 1 ∧
          ((TransitService.verify sampleOwner sampleKeyName samplePayload (py "raw") (encodeB64 sampleSignature) (py "RSA")
            none).run sampleSigned.2).1 = .error .invalidSigningAlgorithmError := by
  refine ⟨sampleSigned_row, by decide +kernel, ?_, by decide +kernel⟩
  obtain ⟨after, hafter, hcut⟩ := Prog.session_cut (TransitOp.exec samplePassphrase) sampleStart.2 sampleSigningBefore
    sampleSigning sampleSigningAfter
  have hsigned : ((sampleSigning.exec samplePassphrase).run
      (Prog.session (TransitOp.exec samplePassphrase) sampleStart.2 sampleSigningBefore).2).1 =
        .ok (.signed sampleSignResult) := by decide +kernel
  rw [hsigned] at hcut
  refine ⟨_, samplePayload, py "raw", py "ed25519", sampleSignResult, after, hcut, ?_, by decide +kernel,
    decodeB64_encodeB64 _, rfl⟩
  rintro e he ⟨a, rfl⟩
  have hop : TransitOp.deleteKey sampleOwner sampleKeyName ∈ sampleSigningAfter := by
    rw [← hafter]
    exact List.mem_map_of_mem (f := Prod.fst) he
  simp [sampleSigningAfter] at hop

end Sample

end MiniVault
