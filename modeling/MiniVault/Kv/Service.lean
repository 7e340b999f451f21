import MiniVault.Audit.Log
import MiniVault.Core.Crypto

/-!
# The key-value store

`kv/paths.py`, `kv/repository.py` and `kv/service.py`: encrypted records under
paths that begin with their owner's email, every write kept as a version.

## The model

`write` takes these steps, between which other requests may come: the look at the
key in memory (twice, with the encoding of the data between them), the look at the
clock, and the one transaction that allocates the version, encrypts for it and
stores it. `read` looks at the key, queries, and looks at the key again.

A path that is foreign or malformed is refused, and the refusal logged, before
anything else is looked at.
-/

namespace MiniVault

open Foundations

variable [Platform]

/-! ### Paths -/

/-- `PATH_PREFIX`. -/
def pathPrefix : PyStr := py "secret/"

/-- `extract_owner_email_from_path`. -/
def extractOwnerEmailFromPath (path : PyStr) : Except Exc PyStr :=
  if path.take pathPrefix.length ≠ pathPrefix then .error (.valueError "Invalid KV path")
  else
    match splitMax (.scalar '/') 1 (path.drop pathPrefix.length) with
    | [owner, rest] =>
      if owner = [] ∨ rest = [] then .error (.valueError "Invalid KV path")
      else .ok (Platform.lower (strip owner))
    | _ => .error (.valueError "Invalid KV path")

/-! ### The repository -/

/-- What `append_version` returns. -/
structure Appended where
  /-- `created_at`. -/
  createdAt : Value
  /-- `updated_at`. -/
  updatedAt : Value
  /-- `version`. -/
  version : ℤ
  deriving DecidableEq

namespace KvRepository

/-- The first half of the transaction of `append_version`: the record's identifier, the
version allocated and the time the record was created. -/
def allocate (ownerEmail path now : PyStr) : Act (ℤ × ℤ × Value) := do
  let record ← query [.str ownerEmail, .str path] (fetchone KvRecord.pointerCells) fun db =>
    db.selectRecord ownerEmail path
  match record with
  | none =>
    let version := 1
    let row : List Value := [.str ownerEmail, .str path, .int version, .str now, .str now]
    let recordId ← execute row (limitRow row fun db => db.insertRecord ownerEmail path version now)
    return (recordId, version, .str now)
  | some record =>
    let latest ← Prog.done (pyInt record.latestVersion)
    let version := latest + 1
    execute [.int version, .str now, .int record.id] <|
      limitRow [.str ownerEmail, .str path, .int version, record.createdAt, .str now] fun db =>
        .ok ((), db.updateRecord version now record.id)
    return (record.id, version, record.createdAt)

/-- `KvRepository.append_version`. -/
def appendVersion (ownerEmail path : PyStr) (encrypt : ℤ → Act (PyStr × PyStr × PyStr)) : Act Appended := do
  let now ← now
  connection .transaction do
    let (recordId, version, createdAt) ← allocate ownerEmail path now
    let (nonce, ciphertext, tag) ← encrypt version
    let row : List Value := [.int recordId, .int version, .str nonce, .str ciphertext, .str tag, .str now]
    execute row <| limitRow row fun db =>
      (db.insertKvVersion recordId version nonce ciphertext tag now).map fun db => ((), db)
    return ⟨createdAt, .str now, version⟩

/-- `KvRepository.get_version`: the version's row, and the record's `latest_version`. -/
def getVersion (ownerEmail path : PyStr) (version : Option ℤ) : Act (Option (KvVersion × KvRecord)) :=
  connection .transaction <|
    match version with
    | none => query [.str ownerEmail, .str path] (fetchone KvVersion.joinedCells) fun db => db.selectLatest ownerEmail path
    | some v => query [.str ownerEmail, .str path, .int v] (fetchone KvVersion.joinedCells) fun db =>
      db.selectVersion ownerEmail path v

/-- `KvRepository.list_versions`. -/
def listVersions (ownerEmail path : PyStr) : Act (List (KvVersion × KvRecord)) :=
  connection .transaction <| query [.str ownerEmail, .str path] (fetchall KvVersion.listedCells) fun db =>
    db.selectVersions ownerEmail path

/-- `KvRepository.delete`: whether there was anything to delete. -/
def delete (ownerEmail path : PyStr) : Act Bool :=
  connection .transaction do
    let rowcount ← execute [.str ownerEmail, .str path] fun db => .ok (db.deleteRecord ownerEmail path)
    return rowcount > 0

end KvRepository

/-! ### The service -/

/-- What `read` returns. -/
structure ReadResult where
  /-- `data`. -/
  data : List (PyStr × Json)
  /-- `version`. -/
  version : ℤ
  /-- `latest_version`. -/
  latestVersion : ℤ
  /-- `created_at`. -/
  createdAt : Value
  deriving DecidableEq

/-- What `versions` returns. -/
structure VersionsResult where
  /-- `path`. -/
  path : PyStr
  /-- `latest_version`. -/
  latestVersion : ℤ
  /-- `versions`: each with its `created_at`. -/
  versions : List (ℤ × Value)
  deriving DecidableEq

namespace KvService

/-- `KvService._authorize`. -/
def authorize (requesterEmail path : PyStr) : Act Unit := do
  let pathOwner := (extractOwnerEmailFromPath path).toOption
  if pathOwner ≠ some requesterEmail then
    AuditRepository.logDeniedAccess requesterEmail (py "kv_path") path
    throw .permissionDeniedError

/-- The text of `_aad`. -/
def aadText (ownerEmail path : PyStr) (version : ℤ) : PyStr :=
  py "kv:" ++ ownerEmail ++ py ":" ++ path ++ py ":v" ++ decimal version

/-- `KvService._aad`. -/
def aad (ownerEmail path : PyStr) (version : ℤ) : Except Exc Bytes :=
  match utf8Encode (aadText ownerEmail path version) with
  | some b => .ok b
  | none => .error .unicodeEncodeError

/-- `KvService._normalize_version`, for integers. -/
def normalizeVersion : Option ℤ → Except Exc (Option ℤ)
  | none => .ok none
  | some v => if v < 1 then .error .invalidVersionError else .ok (some v)

/-- `json.dumps(data, ...).encode("utf-8")`. -/
def encodeData (data : List (PyStr × Json)) : Except Exc Bytes := do
  let text ← dumps Platform.dumpsDepth (.obj data)
  match utf8Encode text with
  | some b => return b
  | none => throw .unicodeEncodeError

/-- `json.loads(plaintext.decode("utf-8"))`. -/
def decodeData (plaintext : Bytes) : Except Exc Json :=
  match utf8Decode plaintext with
  | none => .error .unicodeDecodeError
  | some text =>
    match Platform.jsonLoads text with
    | .ok v => .ok v
    | .error .notJson => .error .jsonDecodeError
    | .error .longInteger => .error (.valueError "Exceeds the limit (4300 digits) for integer string conversion")
    | .error .tooDeep => .error .recursionError

/-- `encrypt_for` of `write`. -/
def encryptFor (dek : Key) (plaintext : Bytes) (ownerEmail path : PyStr) (nonce : Nonce) (version : ℤ) :
    Act (PyStr × PyStr × PyStr) := do
  let associatedData ← Prog.done (aad ownerEmail path version)
  let blob ← encryptAesGcm dek plaintext associatedData nonce
  return (encodeB64 blob.nonce, encodeB64 blob.ciphertext, encodeB64 blob.tag)

/-- `KvService.write`, with the nonce it draws. -/
def write (ownerEmail path : PyStr) (data : List (PyStr × Json)) (nonce : Nonce) : Act Appended := do
  authorize ownerEmail path
  let _ ← getDek
  let plaintext ← Prog.done (encodeData data)
  let dek ← getDek
  KvRepository.appendVersion ownerEmail path (encryptFor dek plaintext ownerEmail path nonce)

/-- The blob in a row, and the version number it stands under. -/
def blobOf (row : KvVersion) : Except Exc EncryptedBlob := do
  let nonce ← decodeB64 row.nonceB64
  let ciphertext ← decodeB64 row.ciphertextB64
  let tag ← decodeB64 row.tagB64
  return ⟨nonce, ciphertext, tag⟩

/-- The body of the `try` of `read`, with the key it takes from memory. -/
def openRow (dek : Key) (ownerEmail path : PyStr) (row : KvVersion) : Except Exc Json := do
  let blob ← blobOf row
  let version ← pyInt row.version
  let associatedData ← aad ownerEmail path version
  let plaintext ← decryptAesGcm dek blob associatedData
  decodeData plaintext

/-- `KvService.read`. -/
def read (ownerEmail path : PyStr) (version : Option ℤ) : Act ReadResult := do
  authorize ownerEmail path
  let requested ← Prog.done (normalizeVersion version)
  let _ ← getDek
  let record ← KvRepository.getVersion ownerEmail path requested
  match record with
  | none => throw .recordNotFoundError
  | some (row, record) =>
    let decoded ← mapExc isTampering .recordTamperedError do
      let dek ← getDek
      Prog.done (openRow dek ownerEmail path row)
    match decoded with
    | .obj data =>
      let version ← Prog.done (pyInt row.version)
      let latestVersion ← Prog.done (pyInt record.latestVersion)
      return ⟨data, version, latestVersion, row.createdAt⟩
    | _ => throw .recordTamperedError

/-- The entries of `versions`. -/
def versionEntries : List (KvVersion × KvRecord) → Except Exc (List (ℤ × Value))
  | [] => .ok []
  | (row, _) :: rows => do
    let version ← pyInt row.version
    let entries ← versionEntries rows
    return (version, row.createdAt) :: entries

/-- `KvService.versions`. -/
def versions (ownerEmail path : PyStr) : Act VersionsResult := do
  authorize ownerEmail path
  let _ ← getDek
  let rows ← KvRepository.listVersions ownerEmail path
  match rows.getLast? with
  | none => throw .recordNotFoundError
  | some (_, record) =>
    let latestVersion ← Prog.done (pyInt record.latestVersion)
    let entries ← Prog.done (versionEntries rows)
    return ⟨path, latestVersion, entries⟩

/-- `KvService.delete`. -/
def delete (ownerEmail path : PyStr) : Act Unit := do
  authorize ownerEmail path
  let _ ← getDek
  if !(← KvRepository.delete ownerEmail path) then throw .recordNotFoundError

end KvService

end MiniVault
