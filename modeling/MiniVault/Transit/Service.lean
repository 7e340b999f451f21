import MiniVault.Audit.Log
import MiniVault.Transit.Ciphertext

/-!
# Encryption and signing as a service

`transit/repository.py` and `transit/service.py`: named keys of a user, made by the
server, wrapped with the vault's key before they are stored and unwrapped for one
operation. A key is rotated by storing another version of it.

## The model

What an operation draws at random — the material of a key and the nonces — is among its
arguments. `rotate_key` takes these steps, between which other requests may come: the
look at `named_keys`, the look at the key in memory, the transaction that allocates the
version, wraps for it and stores it, and the looks that make up the answer. The
transaction is labelled by the usage its wrapper was chosen for.
-/

namespace MiniVault

open Foundations

/-! ### The repository -/

/-- What a wrapper returns: nonce, wrapped material, tag and public key. -/
structure Wrapped where
  /-- `nonce_b64`. -/
  nonceB64 : PyStr
  /-- `encrypted_key_material_b64`. -/
  materialB64 : PyStr
  /-- `tag_b64`. -/
  tagB64 : PyStr
  /-- `public_key_b64`. -/
  publicKeyB64 : Value

/-- `WrapForVersion`, with the usage of the keys it wraps. -/
structure WrapForVersion where
  /-- The usage, which labels the transaction. -/
  usage : PyStr
  /-- The function. -/
  wrap : ℤ → Act Wrapped

namespace NamedKeyRepository

/-- `NamedKeyRepository.get_owned`. -/
def getOwned (ownerEmail keyName : PyStr) : Act (Option NamedKey) :=
  connection .transaction <| query [.str ownerEmail, .str keyName] (fetchone NamedKey.cells) fun db =>
    db.selectKey ownerEmail keyName

/-- `NamedKeyRepository._insert_version`. -/
def insertVersion (keyId version : ℤ) (wrap : WrapForVersion) (now : PyStr) : Act Unit := do
  let wrapped ← wrap.wrap version
  execute
    [.int keyId, .int version, .str wrapped.nonceB64, .str wrapped.materialB64, .str wrapped.tagB64,
      wrapped.publicKeyB64, .str now]
    fun db => (db.insertKeyVersion keyId version wrapped.nonceB64 wrapped.materialB64 wrapped.tagB64
      wrapped.publicKeyB64 now).map fun db => ((), db)

/-- The transaction of `create`. -/
def createBody (ownerEmail keyName keyUsage : PyStr) (signingAlgorithm : Value) (wrap : WrapForVersion)
    (now : PyStr) : Act Unit := do
  let keyId ← execute [.str ownerEmail, .str keyName, .str keyUsage, signingAlgorithm, .str now, .str now]
    fun db => db.insertKey ownerEmail keyName keyUsage signingAlgorithm now
  insertVersion keyId 1 wrap now

/-- `NamedKeyRepository.create`. -/
def create (ownerEmail keyName keyUsage : PyStr) (signingAlgorithm : Value) (wrap : WrapForVersion) :
    Act NamedKey := do
  let now ← now
  mapExc (· = .integrityError) .keyAlreadyExistsError <|
    connection .transaction (createBody ownerEmail keyName keyUsage signingAlgorithm wrap now)
  let row ← getOwned ownerEmail keyName
  match row with
  | none => throw (.runtimeError "Created key could not be read")
  | some row => return row

/-- The transaction of `rotate`: whether there was a key. -/
def rotateBody [Platform] (ownerEmail keyName : PyStr) (wrap : WrapForVersion) (now : PyStr) : Act Bool := do
  let row ← query [.str ownerEmail, .str keyName] (fetchone NamedKey.pointerCells) fun db => db.selectKey ownerEmail keyName
  match row with
  | none => return false
  | some row =>
    let latest ← Prog.done (pyInt row.latestVersion)
    let version := latest + 1
    insertVersion row.id version wrap now
    execute [.int version, .str now, .int row.id] fun db => .ok ((), db.updateKey version now row.id)
    return true

/-- `NamedKeyRepository.rotate`. -/
def rotate [Platform] (ownerEmail keyName : PyStr) (wrap : WrapForVersion) : Act (Option NamedKey) := do
  let now ← now
  let rotated ← connection (.rotate ownerEmail keyName wrap.usage) (rotateBody ownerEmail keyName wrap now)
  if rotated then getOwned ownerEmail keyName else return none

/-- `NamedKeyRepository.get_version`. -/
def getVersion (keyId version : ℤ) : Act (Option NamedKeyVersion) :=
  connection .transaction <| query [.int keyId, .int version] (fetchone NamedKeyVersion.cells) fun db =>
    db.selectKeyVersion keyId version

/-- `NamedKeyRepository.list_versions`. -/
def listVersions (keyId : ℤ) : Act (List NamedKeyVersion) :=
  connection .transaction <| query [.int keyId] (fetchall NamedKeyVersion.listedCells) fun db => db.selectKeyVersions keyId

/-- `NamedKeyRepository.list_owned`. -/
def listOwned (ownerEmail : PyStr) : Act (List NamedKey) :=
  connection .transaction <| query [.str ownerEmail] (fetchall NamedKey.cells) fun db => db.selectOwned ownerEmail

/-- `NamedKeyRepository.delete_owned`: whether there was anything to delete. -/
def deleteOwned (ownerEmail keyName : PyStr) : Act Bool :=
  connection .transaction do
    let rowcount ← execute [.str ownerEmail, .str keyName] fun db => .ok (db.deleteKey ownerEmail keyName)
    return rowcount > 0

end NamedKeyRepository

/-! ### The service -/

/-- `ENCRYPT_DECRYPT`. -/
def encryptDecrypt : PyStr := py "ENCRYPT_DECRYPT"

/-- `SIGN_VERIFY`. -/
def signVerify : PyStr := py "SIGN_VERIFY"

/-- `ED25519`. -/
def ed25519 : PyStr := py "ED25519"

/-- `SHA256_DIGEST_LENGTH`. -/
def sha256DigestLength : ℕ := 32

/-- `AES_KEY_LENGTH`. -/
def aesKeyLength : ℕ := 32

/-- What `Ed25519PrivateKey.from_private_bytes` and `Ed25519PublicKey.from_public_bytes` take. -/
def ed25519KeyLength : ℕ := 32

/-- The two kinds of key. -/
inductive KeyKind where
  /-- AES-256. -/
  | aes
  /-- Ed25519. -/
  | ed25519
  deriving DecidableEq

/-- `key_usage`. -/
def KeyKind.usage : KeyKind → PyStr
  | .aes => encryptDecrypt
  | .ed25519 => signVerify

/-- The usage tells the kind. -/
theorem KeyKind.usage_inj {kind kind' : KeyKind} (h : kind.usage = kind'.usage) : kind = kind' := by
  cases kind <;> cases kind' <;> first | rfl | exact absurd h (by decide)

/-- `signing_algorithm`. -/
def KeyKind.algorithm : KeyKind → Value
  | .aes => .none
  | .ed25519 => .str MiniVault.ed25519

theorem KeyKind.decodes_algorithm (kind : KeyKind) : kind.algorithm.decodes := by
  cases kind <;> rfl

/-- What a new version of a key draws at random. -/
structure KeyCoins where
  /-- The material: `AESGCM.generate_key`, or the private key of `Ed25519PrivateKey.generate`. -/
  material : Key
  /-- The nonce it is wrapped with. -/
  nonce : Nonce

/-- What an operation says about a key. -/
structure Metadata where
  /-- `key_name`. -/
  keyName : Value
  /-- `key_usage`. -/
  keyUsage : Value
  /-- `signing_algorithm`. -/
  signingAlgorithm : Value
  /-- `latest_version`. -/
  latestVersion : ℤ
  /-- `versions`. -/
  versions : List ℤ
  /-- `created_at`. -/
  createdAt : Value
  /-- `updated_at`. -/
  updatedAt : Value
  deriving DecidableEq

/-- What `encrypt` returns. -/
structure EncryptResult where
  /-- `key_name`. -/
  keyName : PyStr
  /-- `key_version`. -/
  keyVersion : ℤ
  /-- `ciphertext`. -/
  ciphertext : PyStr
  deriving DecidableEq

/-- What `decrypt` returns. -/
structure DecryptResult where
  /-- `key_name`. -/
  keyName : PyStr
  /-- `key_version`. -/
  keyVersion : ℤ
  /-- `plaintext_b64`. -/
  plaintextB64 : PyStr
  deriving DecidableEq

/-- What `sign` returns. -/
structure SignResult where
  /-- `key_name`. -/
  keyName : PyStr
  /-- `key_version`. -/
  keyVersion : ℤ
  /-- `signing_algorithm`. -/
  signingAlgorithm : Value
  /-- `signature_b64`. -/
  signatureB64 : PyStr
  deriving DecidableEq

/-- What `verify` returns. -/
structure VerifyResult where
  /-- `key_name`. -/
  keyName : PyStr
  /-- `key_version`. -/
  keyVersion : Option ℤ
  /-- `signing_algorithm`. -/
  signingAlgorithm : Value
  /-- `signature_valid`. -/
  signatureValid : Bool
  deriving DecidableEq

namespace TransitService

variable [Platform]

/-- The half of a pair that is not secret; an AES key has none. -/
def publicKeyOf : KeyKind → Key → Value
  | .aes, _ => .none
  | .ed25519, material => .str (encodeB64 (Platform.ed25519Public material))

theorem decodes_publicKeyOf (kind : KeyKind) (material : Key) : (publicKeyOf kind material).decodes := by
  cases kind <;> rfl

/-- `TransitService.validate_key_name`. -/
def validateKeyName (keyName : PyStr) : Act Unit := if keyNamePattern keyName then return () else throw .invalidKeyNameError

/-- The text of `_key_aad`. -/
def keyAadText (ownerEmail keyName keyUsage signingAlgorithm : Value) (version : ℤ) : PyStr :=
  py "transit-key:" ++ formatValue ownerEmail ++ py ":" ++ formatValue keyName ++ py ":" ++ formatValue keyUsage ++
    py ":" ++ (if signingAlgorithm.falsy then py "-" else formatValue signingAlgorithm) ++ py ":v" ++ decimal version

/-- `TransitService._key_aad`. -/
def keyAad (ownerEmail keyName keyUsage signingAlgorithm : Value) (version : ℤ) : Except Exc Bytes :=
  match utf8Encode (keyAadText ownerEmail keyName keyUsage signingAlgorithm version) with
  | some b => .ok b
  | none => .error .unicodeEncodeError

/-- The text of `_data_aad`. -/
def dataAadText (ownerEmail keyName : PyStr) (version : ℤ) : PyStr :=
  py "transit-data:" ++ ownerEmail ++ py ":" ++ keyName ++ py ":v" ++ decimal version

/-- `TransitService._data_aad`. -/
def dataAad (ownerEmail keyName : PyStr) (version : ℤ) : Except Exc Bytes :=
  match utf8Encode (dataAadText ownerEmail keyName version) with
  | some b => .ok b
  | none => .error .unicodeEncodeError

/-- `TransitService._owned_key`. -/
def ownedKey (ownerEmail keyName : PyStr) : Act NamedKey := do
  validateKeyName keyName
  let row ← NamedKeyRepository.getOwned ownerEmail keyName
  match row with
  | none => do
    AuditRepository.logDeniedAccess ownerEmail (py "named_key") keyName
    throw .keyUnavailableError
  | some row => return row

/-- `TransitService._key_version`. -/
def keyVersion (keyRow : NamedKey) (version : ℤ) : Act NamedKeyVersion := do
  let versionRow ← NamedKeyRepository.getVersion keyRow.id version
  match versionRow with
  | none => throw .keyVersionUnavailableError
  | some row => return row

/-- The blob in a row. -/
def blobOf (versionRow : NamedKeyVersion) : Except Exc EncryptedBlob := do
  let nonce ← decodeB64 versionRow.nonceB64
  let ciphertext ← decodeB64 versionRow.encryptedKeyMaterialB64
  let tag ← decodeB64 versionRow.tagB64
  return ⟨nonce, ciphertext, tag⟩

/-- The body of the `try` of `_unwrap`, with the key it takes from memory. -/
def openVersion (dek : Key) (keyRow : NamedKey) (versionRow : NamedKeyVersion) : Except Exc Bytes := do
  let blob ← blobOf versionRow
  let version ← pyInt versionRow.version
  let associatedData ← keyAad keyRow.ownerEmail keyRow.keyName keyRow.keyUsage keyRow.signingAlgorithm version
  decryptAesGcm dek blob associatedData

/-- `TransitService._unwrap`. -/
def unwrap (keyRow : NamedKey) (versionRow : NamedKeyVersion) : Act Bytes :=
  mapExc isTampering .transitTamperedError do
    let dek ← getDek
    Prog.done (openVersion dek keyRow versionRow)

/-- What `_wrap_aes` and `_wrap_ed25519` share: the material is wrapped under owner, name,
usage, algorithm and version. -/
def wrapFor (kind : KeyKind) (ownerEmail keyName : PyStr) (coins : KeyCoins) : WrapForVersion where
  usage := kind.usage
  wrap version := do
    let dek ← getDek
    let associatedData ← Prog.done (keyAad (.str ownerEmail) (.str keyName) (.str kind.usage) kind.algorithm version)
    let blob ← encryptAesGcm dek coins.material associatedData coins.nonce
    return ⟨encodeB64 blob.nonce, encodeB64 blob.ciphertext, encodeB64 blob.tag, publicKeyOf kind coins.material⟩

/-- `TransitService._wrap_aes`. -/
def wrapAes (ownerEmail keyName : PyStr) (coins : KeyCoins) : WrapForVersion := wrapFor .aes ownerEmail keyName coins

/-- `TransitService._wrap_ed25519`. -/
def wrapEd25519 (ownerEmail keyName : PyStr) (coins : KeyCoins) : WrapForVersion :=
  wrapFor .ed25519 ownerEmail keyName coins

/-- The numbers in a listing. -/
def versionNumbers : List NamedKeyVersion → Except Exc (List ℤ)
  | [] => .ok []
  | row :: rows => do
    let version ← pyInt row.version
    let versions ← versionNumbers rows
    return version :: versions

/-- `TransitService._metadata`. -/
def metadata (row : NamedKey) : Act Metadata := do
  let latestVersion ← Prog.done (pyInt row.latestVersion)
  let rows ← NamedKeyRepository.listVersions row.id
  let versions ← Prog.done (versionNumbers rows)
  return ⟨row.keyName, row.keyUsage, row.signingAlgorithm, latestVersion, versions, row.createdAt, row.updatedAt⟩

/-! #### The life of a key -/

/-- `TransitService.create_key`. -/
def createKey (ownerEmail keyName : PyStr) (coins : KeyCoins) : Act Metadata := do
  validateKeyName keyName
  let _ ← getDek
  let row ← NamedKeyRepository.create ownerEmail keyName encryptDecrypt .none (wrapAes ownerEmail keyName coins)
  metadata row

/-- `TransitService.create_signing_key`. -/
def createSigningKey (ownerEmail keyName signingAlgorithm : PyStr) (coins : KeyCoins) : Act Metadata := do
  validateKeyName keyName
  if Platform.upper signingAlgorithm ≠ ed25519 then throw .invalidSigningAlgorithmError
  let _ ← getDek
  let row ← NamedKeyRepository.create ownerEmail keyName signVerify (.str ed25519)
    (wrapEd25519 ownerEmail keyName coins)
  metadata row

/-- The wrapper `rotate_key` chooses. -/
def wrapperOf (keyRow : NamedKey) (ownerEmail keyName : PyStr) (coins : KeyCoins) : WrapForVersion :=
  if keyRow.keyUsage = .str encryptDecrypt then wrapAes ownerEmail keyName coins
  else wrapEd25519 ownerEmail keyName coins

/-- `TransitService.rotate_key`. -/
def rotateKey (ownerEmail keyName : PyStr) (coins : KeyCoins) : Act Metadata := do
  let keyRow ← ownedKey ownerEmail keyName
  let _ ← getDek
  let rotated ← NamedKeyRepository.rotate ownerEmail keyName (wrapperOf keyRow ownerEmail keyName coins)
  match rotated with
  | none => throw .keyUnavailableError
  | some row => metadata row

/-- The metadata of several keys. -/
def metadataAll : List NamedKey → Act (List Metadata)
  | [] => return []
  | row :: rows => do
    let first ← metadata row
    let rest ← metadataAll rows
    return first :: rest

/-- `TransitService.list_keys`. -/
def listKeys (ownerEmail : PyStr) : Act (List Metadata) := do
  let _ ← getDek
  let rows ← NamedKeyRepository.listOwned ownerEmail
  metadataAll rows

/-- `TransitService.delete_key`. -/
def deleteKey (ownerEmail keyName : PyStr) : Act PyStr := do
  let _ ← ownedKey ownerEmail keyName
  let _ ← getDek
  let deleted ← NamedKeyRepository.deleteOwned ownerEmail keyName
  if deleted then return keyName else throw .keyUnavailableError

/-! #### Encryption -/

/-- `TransitService._decode_payload`. Whatever `decode_b64` raises for text is a `ValueError`. -/
def decodePayload (value : PyStr) : Except Exc Bytes :=
  match decodeB64 (.str value) with
  | .ok b => .ok b
  | .error _ => .error .invalidBase64PayloadError

/-- `TransitService.encrypt`, with the nonce it draws. -/
def encrypt (ownerEmail keyName plaintextB64 : PyStr) (nonce : Nonce) : Act EncryptResult := do
  let keyRow ← ownedKey ownerEmail keyName
  if keyRow.keyUsage ≠ .str encryptDecrypt then throw .invalidKeyUsageError
  let _ ← getDek
  let plaintext ← Prog.done (decodePayload plaintextB64)
  let version ← Prog.done (pyInt keyRow.latestVersion)
  let versionRow ← keyVersion keyRow version
  let material ← unwrap keyRow versionRow
  if material.length ≠ aesKeyLength then throw .transitTamperedError
  let associatedData ← Prog.done (dataAad ownerEmail keyName version)
  let blob ← encryptAesGcm material plaintext associatedData nonce
  let ciphertext ← Prog.done (formatCiphertext keyName version blob)
  return ⟨keyName, version, ciphertext⟩

/-- The body of the `try` of `decrypt`. -/
def openCiphertext (material : Bytes) (ownerEmail : PyStr) (parsed : TransitCiphertext) : Except Exc Bytes := do
  let associatedData ← dataAad ownerEmail parsed.keyName parsed.keyVersion
  decryptAesGcm material parsed.blob associatedData

/-- `TransitService.decrypt`. -/
def decrypt (ownerEmail ciphertext : PyStr) : Act DecryptResult := do
  let parsed ← Prog.done (parseCiphertext ciphertext)
  let keyRow ← ownedKey ownerEmail parsed.keyName
  if keyRow.keyUsage ≠ .str encryptDecrypt then throw .invalidKeyUsageError
  let _ ← getDek
  let versionRow ← keyVersion keyRow parsed.keyVersion
  let material ← unwrap keyRow versionRow
  let plaintext ← mapExc isTampering .transitTamperedError (Prog.done (openCiphertext material ownerEmail parsed))
  return ⟨parsed.keyName, parsed.keyVersion, encodeB64 plaintext⟩

/-! #### Signatures -/

/-- `TransitService._message_digest`. -/
def messageDigest (messageB64 messageType : PyStr) : Except Exc Bytes := do
  let message ← decodePayload messageB64
  let normalized := Platform.upper messageType
  if normalized = py "RAW" then .ok (Platform.sha256 message)
  else if normalized = py "DIGEST" then
    if message.length ≠ sha256DigestLength then .error .invalidDigestLengthError else .ok message
  else .error .invalidMessageTypeError

/-- `TransitService._validate_algorithm`. -/
def validateAlgorithm (row : NamedKey) (signingAlgorithm : PyStr) : Act Unit :=
  if .str (Platform.upper signingAlgorithm) ≠ row.signingAlgorithm then throw .invalidSigningAlgorithmError
  else return ()

/-- Keep a record of a signature. -/
def recordSigning (s : Signing) : Act Unit :=
  Prog.change .record fun w => { w with signed := w.signed ++ [s] }

/-- `TransitService.sign`. -/
def sign (ownerEmail keyName messageB64 messageType signingAlgorithm : PyStr) : Act SignResult := do
  let keyRow ← ownedKey ownerEmail keyName
  if keyRow.keyUsage ≠ .str signVerify then throw .invalidKeyUsageError
  validateAlgorithm keyRow signingAlgorithm
  let _ ← getDek
  let digest ← Prog.done (messageDigest messageB64 messageType)
  let version ← Prog.done (pyInt keyRow.latestVersion)
  let versionRow ← keyVersion keyRow version
  let privateKey ← unwrap keyRow versionRow
  if privateKey.length ≠ ed25519KeyLength then throw .transitTamperedError
  let signature := Platform.ed25519Sign privateKey digest
  recordSigning ⟨privateKey, digest, signature⟩
  return ⟨keyName, version, keyRow.signingAlgorithm, encodeB64 signature⟩

/-- The rows `verify` tries, newest first, when no version is asked for. -/
def candidateRows (keyRow : NamedKey) : List NamedKeyVersion → Act (List NamedKeyVersion)
  | [] => return []
  | row :: rows => do
    let version ← Prog.done (pyInt row.version)
    let found ← keyVersion keyRow version
    let more ← candidateRows keyRow rows
    return found :: more

/-- A round of the loop of `verify`: the row's public key verifies the signature. Whatever
`decode_b64` raises is a `ValueError`. -/
def accepts (versionRow : NamedKeyVersion) (signature digest : Bytes) : Bool :=
  !versionRow.publicKeyB64.falsy &&
    match decodeB64 versionRow.publicKeyB64 with
    | .error _ => false
    | .ok publicKey => publicKey.length = ed25519KeyLength && Platform.ed25519Verify publicKey signature digest

/-- The loop of `verify`: the version whose public key verifies the signature. -/
def matchedVersion (candidates : List NamedKeyVersion) (signatureB64 : PyStr) (digest : Bytes) : Except Exc (Option ℤ) :=
  match decodeB64 (.str signatureB64) with
  | .error _ => .ok none
  | .ok signature =>
    match candidates.find? fun row => accepts row signature digest with
    | none => .ok none
    | some row => (pyInt row.version).map some

/-- The rows `verify` tries. -/
def candidates (keyRow : NamedKey) : Option ℤ → Act (List NamedKeyVersion)
  | some version => do return [← keyVersion keyRow version]
  | none => do
    let rows ← NamedKeyRepository.listVersions keyRow.id
    candidateRows keyRow rows.reverse

/-- `TransitService.verify`. -/
def verify (ownerEmail keyName messageB64 messageType signatureB64 signingAlgorithm : PyStr)
    (keyVersion : Option ℤ) : Act VerifyResult := do
  let keyRow ← ownedKey ownerEmail keyName
  if keyRow.keyUsage ≠ .str signVerify then throw .invalidKeyUsageError
  validateAlgorithm keyRow signingAlgorithm
  let _ ← getDek
  let digest ← Prog.done (messageDigest messageB64 messageType)
  let rows ← candidates keyRow keyVersion
  let matched ← Prog.done (matchedVersion rows signatureB64 digest)
  return ⟨keyName, matched, keyRow.signingAlgorithm, matched.isSome⟩

end TransitService

end MiniVault
