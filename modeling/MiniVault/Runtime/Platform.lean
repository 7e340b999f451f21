import MiniVault.Runtime.Values

/-!
# The platform

What the code takes from outside the repository: the parts of Python and its
library too large to define here, and the cryptography. They are functions of
which nothing is assumed but what their types say; a theorem that needs more says so
in its hypotheses.

What the standard library does that can be said in a few lines is defined:
`int` and formatting of values, `json.dumps`, timestamps, hexadecimal digests.
-/

namespace MiniVault

open Foundations

/-- What the text of a float looks like: digits and signs, with a point or an exponent,
or `inf` or `nan`. -/
abbrev FloatText :=
  { cs : List Char // (∀ c ∈ cs, c ∈ "0123456789+-.einfa".toList) ∧ ∃ c ∈ cs, c ∈ ".en".toList }

/-- What `json.loads` fails with. -/
inductive LoadsError where
  /-- The text is not JSON: `JSONDecodeError`. -/
  | notJson
  /-- An integer has more than 4300 digits: `ValueError`. -/
  | longInteger
  /-- Containers are nested too deeply: `RecursionError`. -/
  | tooDeep
  deriving DecidableEq

/-- The functions of the platform. -/
class Platform where
  /-- `str.lower`. -/
  lower : PyStr → PyStr
  /-- `str.upper`. -/
  upper : PyStr → PyStr
  /-- `int(text)`; there is none where it raises `ValueError`. -/
  intOfText : PyStr → Option ℤ
  /-- `int(bytes)`. -/
  intOfBytes : Bytes → Option ℤ
  /-- `float.__repr__`. -/
  floatRepr : PyFloat → FloatText
  /-- `json.loads`. -/
  jsonLoads : PyStr → Except LoadsError Json
  /-- How many containers deep `json.dumps` goes before it raises `RecursionError`. -/
  dumpsDepth : ℕ
  /-- `hashlib.sha256(data).digest()`. -/
  sha256 : Bytes → Bytes
  /-- `argon2.low_level.hash_secret_raw` with type `ID`: of secret, salt, time cost,
  memory cost, parallelism and length. -/
  hashSecretRaw : Bytes → Bytes → ℤ → ℤ → ℤ → ℤ → Except Exc Bytes
  /-- `argon2.PasswordHasher(time_cost, memory_cost, parallelism).hash(password)`, with the salt it draws:
  of password, salt and the three costs. -/
  passwordHash : PyStr → Bytes → ℤ → ℤ → ℤ → Except Exc PyStr
  /-- `argon2.PasswordHasher().verify(hash, password)`. -/
  passwordVerify : Value → PyStr → Except Exc Unit
  /-- `AESGCM(key).encrypt(nonce, data, associated_data)`: ciphertext and tag. -/
  aesGcmEncrypt : Bytes → Bytes → Bytes → Bytes → Except Exc Bytes
  /-- `AESGCM(key).decrypt(nonce, data, associated_data)`. -/
  aesGcmDecrypt : Bytes → Bytes → Bytes → Bytes → Except Exc Bytes
  /-- The public key of an Ed25519 private key. -/
  ed25519Public : Bytes → Bytes
  /-- `Ed25519PrivateKey.sign`: of private key and message. -/
  ed25519Sign : Bytes → Bytes → Bytes
  /-- `Ed25519PublicKey.verify`: of public key, signature and message; `false` where
  it raises `InvalidSignature`. -/
  ed25519Verify : Bytes → Bytes → Bytes → Bool
  /-- `Path(path).parent.mkdir(parents=True, exist_ok=True)`. -/
  makeParent : PyStr → Except Exc Unit
  /-- Whether the file of a name beside the path can be opened, written and flushed; `false` where
  that raises `OSError`. -/
  writesBeside : PyStr → PyStr → Bool
  /-- Whether `os.replace` can move a file there is to the path; `false` where it raises `OSError`. -/
  replaces : PyStr → Bool

/-! ### Time -/

/-- `n` in at least `width` digits. -/
def padded (width n : ℕ) : List Char :=
  let digits := Nat.toDigits 10 n
  List.replicate (width - digits.length) '0' ++ digits

/-- Year, month and day of a day counted from the first of January 1970. -/
def civil (days : ℕ) : ℕ × ℕ × ℕ :=
  -- eras of 400 years, counted from the first of March of the year 0
  let z := days + 719468
  let dayOfEra := z % 146097
  let yearOfEra := (dayOfEra - dayOfEra / 1460 + dayOfEra / 36524 - dayOfEra / 146096) / 365
  let dayOfYear := dayOfEra - (365 * yearOfEra + yearOfEra / 4 - yearOfEra / 100)
  let month := (5 * dayOfYear + 2) / 153
  let day := dayOfYear - (153 * month + 2) / 5 + 1
  let year := yearOfEra + z / 146097 * 400
  if month < 10 then (year, month + 3, day) else (year + 1, month - 9, day)

/-- The characters of `isoformat`. -/
def isoChars (time : ℕ) : List Char :=
  let seconds := time / 1000000
  let (year, month, day) := civil (seconds / 86400)
  let fraction := if time % 1000000 = 0 then [] else '.' :: padded 6 (time % 1000000)
  padded 4 year ++ '-' :: padded 2 month ++ '-' :: padded 2 day ++
    'T' :: padded 2 (seconds / 3600 % 24) ++ ':' :: padded 2 (seconds / 60 % 60) ++
    ':' :: padded 2 (seconds % 60) ++ fraction ++ "+00:00".toList

/-- `datetime.max`: the last microsecond of the year 9999. -/
def maxTime : ℕ := 253402300799999999

/-- `datetime.now(timezone.utc).isoformat()`, of the time in microseconds since 1970. No clock is past the
calendar. -/
def isoformat (time : ℕ) : PyStr := ofChars (isoChars (min time maxTime))

example : isoformat 1709209922000123 = py "2024-02-29T12:32:02.000123+00:00" := by decide +kernel

@[simp] theorem encodable_isoformat (time : ℕ) : Encodable (isoformat time) := encodable_ofChars _

/-! ### Numbers and text -/

/-- The hexadecimal digit for a number below 16. -/
def hexDigit (n : ℕ) : Char := if n < 10 then .ofNat (48 + n) else .ofNat (87 + n)

/-- A byte in two hexadecimal digits. -/
def hexByte (b : UInt8) : List Char := [hexDigit (b.toNat / 16), hexDigit (b.toNat % 16)]

theorem hexDigit_ne_bar (n : ℕ) (h : n < 16) : hexDigit n ≠ '|' := by
  revert n
  decide

theorem hexDigit_inj {m n : ℕ} (hm : m < 16) (hn : n < 16) (h : hexDigit m = hexDigit n) : m = n := by
  have hall : ∀ m < 16, ∀ n < 16, hexDigit m = hexDigit n → m = n := by decide
  exact hall m hm n hn h

/-- Different bytes have different digits. -/
theorem hexByte_inj {b c : UInt8} (h : hexByte b = hexByte c) : b = c := by
  have hb := b.toNat_lt
  have hc := c.toNat_lt
  simp only [hexByte, List.cons.injEq, and_true] at h
  have hhigh := hexDigit_inj (by omega) (by omega) h.1
  have hlow := hexDigit_inj (by omega) (by omega) h.2
  exact UInt8.toNat_inj.mp (by omega)

/-- Digits show the bytes. -/
theorem flatMap_hexByte_inj {a b : Bytes} (h : a.flatMap hexByte = b.flatMap hexByte) : a = b := by
  induction a generalizing b with
  | nil =>
    cases b with
    | nil => rfl
    | cons y b => simp [hexByte] at h
  | cons x a ih =>
    cases b with
    | nil => simp [hexByte] at h
    | cons y b =>
      obtain ⟨hbyte, hrest⟩ := List.append_inj h rfl
      rw [hexByte_inj hbyte, ih hrest]

variable [Platform]

/-- `int(value)`. -/
def pyInt : Value → Except Exc ℤ
  | .none => .error (.typeError "int() argument must be a string, a bytes-like object or a real number")
  | .int i => .ok i
  | .real x => match x.trunc with
    | some i => .ok i
    | none => .error .overflowError
  | .str s => match Platform.intOfText s with
    | some i => .ok i
    | none => .error (.valueError "invalid literal for int()")
  -- fetching it has raised before
  | .undecodable _ => .error .operationalError
  | .blob b => match Platform.intOfBytes b with
    | some i => .ok i
    | none => .error (.valueError "invalid literal for int()")

@[simp] theorem pyInt_int (i : ℤ) : pyInt (.int i) = .ok i := rfl

/-- What is a number can be fetched. -/
theorem decodes_of_pyInt {v : Value} {i : ℤ} (h : pyInt v = .ok i) : v.decodes = true := by
  cases v <;> first | rfl | cases h

/-- `repr(bytes)`. -/
def bytesRepr (b : Bytes) : List Char :=
  let quote : Char := if b.contains 39 && !b.contains 34 then '"' else '\''
  let escape : UInt8 → List Char := fun c =>
    if c.toNat = quote.toNat then ['\\', quote]
    else if c = 92 then ['\\', '\\']
    else if c = 9 then ['\\', 't']
    else if c = 10 then ['\\', 'n']
    else if c = 13 then ['\\', 'r']
    else if 32 ≤ c ∧ c < 127 then [.ofNat c.toNat]
    else '\\' :: 'x' :: hexByte c
  'b' :: quote :: b.flatMap escape ++ [quote]

/-- A value in an f-string. -/
def formatValue : Value → PyStr
  | .none => py "None"
  | .int i => decimal i
  | .real x => ofChars (Platform.floatRepr x).1
  | .str s => s
  -- fetching it has raised before
  | .undecodable _ => []
  | .blob b => ofChars (bytesRepr b)

@[simp] theorem formatValue_str (s : PyStr) : formatValue (.str s) = s := rfl

/-- `hashlib.sha256(data).hexdigest()`. -/
def hexdigest (data : Bytes) : PyStr := ofChars ((Platform.sha256 data).flatMap hexByte)

theorem bar_notMem_hexdigest (data : Bytes) : PyChar.scalar '|' ∉ hexdigest data := by
  intro h
  obtain ⟨c, hc, hbar⟩ := List.mem_map.mp h
  obtain ⟨b, -, hb⟩ := List.mem_flatMap.mp hc
  have hlt := b.toNat_lt
  obtain rfl := PyChar.scalar.inj hbar
  simp only [hexByte, List.mem_cons, List.not_mem_nil, or_false] at hb
  rcases hb with hb | hb
  · exact hexDigit_ne_bar _ (by omega) hb.symm
  · exact hexDigit_ne_bar _ (by omega) hb.symm

/-! ### `json.dumps` -/

/-- A code point inside a JSON string, with `ensure_ascii=False`. -/
def jsonEscape : PyChar → PyStr
  | .surrogate k => [.surrogate k]
  | .scalar c =>
    if c = '"' then py "\\\""
    else if c = '\\' then py "\\\\"
    else if c = '\n' then py "\\n"
    else if c = '\r' then py "\\r"
    else if c = '\t' then py "\\t"
    else if c.toNat = 12 then py "\\f"
    else if c.toNat = 8 then py "\\b"
    else if c.toNat < 32 then py "\\u00" ++ ofChars [hexDigit (c.toNat / 16), hexDigit (c.toNat % 16)]
    else [.scalar c]

/-- A JSON string. -/
def jsonString (s : PyStr) : PyStr := py "\"" ++ s.flatMap jsonEscape ++ py "\""

/-- `int.__repr__`, which refuses numbers of more than 4300 digits. -/
def intRepr (i : ℤ) : Except Exc PyStr :=
  if (Nat.toDigits 10 i.natAbs).length ≤ 4300 then .ok (decimal i)
  else .error (.valueError "Exceeds the limit (4300 digits) for integer string conversion")

omit [Platform] in
theorem intRepr_eq_ok {i : ℤ} {t : PyStr} (h : intRepr i = .ok t) : t = decimal i := by
  unfold intRepr at h
  split_ifs at h
  exact (Except.ok.inj h).symm

omit [Platform] in
theorem intRepr_of_fits {i : ℤ} (hi : Fits i) : intRepr i = .ok (decimal i) := by
  have hlen : (Nat.toDigits 10 i.natAbs).length ≤ 20 := by
    rw [Nat.length_toDigits_le_iff (by omega) (by omega)]
    unfold Fits at hi
    omega
  exact if_pos (by omega)

/-- A float in JSON. -/
def jsonFloat (x : PyFloat) : PyStr :=
  if x.isNan then py "NaN"
  else if x.isInf then (if x.bits.msb then py "-Infinity" else py "Infinity")
  else ofChars (Platform.floatRepr x).1

mutual

/-- `json.dumps(value, ensure_ascii=False, separators=(",", ":"))`, at most `depth` containers deep. -/
def dumps (depth : ℕ) : Json → Except Exc PyStr
  | .null => .ok (py "null")
  | .bool b => .ok (if b then py "true" else py "false")
  | .int i => intRepr i
  | .float x => .ok (jsonFloat x)
  | .str s => .ok (jsonString s)
  | .arr items =>
    if depth = 0 then .error .recursionError
    else (dumpsItems (depth - 1) items).map fun t => py "[" ++ t ++ py "]"
  | .obj members =>
    if depth = 0 then .error .recursionError
    else (dumpsMembers (depth - 1) members).map fun t => py "\x7b" ++ t ++ py "\x7d"

/-- The items of an array, with commas between them. -/
def dumpsItems (depth : ℕ) : List Json → Except Exc PyStr
  | [] => .ok []
  | [v] => dumps depth v
  | v :: vs => do
    let t ← dumps depth v
    let ts ← dumpsItems depth vs
    return t ++ py "," ++ ts

/-- The members of an object, with commas between them. -/
def dumpsMembers (depth : ℕ) : List (PyStr × Json) → Except Exc PyStr
  | [] => .ok []
  | [(k, v)] => (dumps depth v).map fun t => jsonString k ++ py ":" ++ t
  | (k, v) :: ms => do
    let t ← dumps depth v
    let ts ← dumpsMembers depth ms
    return jsonString k ++ py ":" ++ t ++ py "," ++ ts

end

end MiniVault
