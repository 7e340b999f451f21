import MiniVault.Foundations.Text

/-!
# Values

What a cell of the database holds and what Python reads from it: nothing, an
integer, a floating-point number, text or bytes; what JSON is made of; and the
exceptions that the code and the libraries it calls raise.

A cell of a column with integer affinity never holds a floating-point number
that is equal to a 64-bit integer: SQLite stores the integer. So two cells are
equal in SQL when they are the same and not `NULL`. SQLite does not look whether
text is UTF-8, and whoever writes to the file can store text that is not.
-/

namespace MiniVault

open Foundations

/-! ### Floating-point numbers -/

/-- A double-precision number, by its bits. -/
structure PyFloat where
  /-- Sign, exponent and fraction. -/
  bits : BitVec 64
  deriving DecidableEq

namespace PyFloat

/-- The exponent field. -/
def exponent (x : PyFloat) : ℕ := x.bits.toNat / 2 ^ 52 % 2048

/-- The fraction field. -/
def fraction (x : PyFloat) : ℕ := x.bits.toNat % 2 ^ 52

/-- Not a number. -/
def isNan (x : PyFloat) : Bool := x.exponent = 2047 && x.fraction ≠ 0

/-- One of the infinities. -/
def isInf (x : PyFloat) : Bool := x.exponent = 2047 && x.fraction = 0

/-- A pair `(n, k)` for `n / 2 ^ k`: the number itself, and for an infinity one
beyond all finite ones. -/
def dyadic (x : PyFloat) : ℤ × ℕ :=
  let mantissa : ℤ := if x.exponent = 0 then x.fraction else x.fraction + 2 ^ 52
  let signed : ℤ := if x.bits.msb then -mantissa else mantissa
  let scale := max x.exponent 1
  if 1075 ≤ scale then (signed * 2 ^ (scale - 1075), 0) else (signed, 1075 - scale)

/-- `int(x)` rounds towards zero; there is none for an infinity. -/
def trunc (x : PyFloat) : Option ℤ :=
  if x.exponent = 2047 then none else some (x.dyadic.1.tdiv (2 ^ x.dyadic.2))

end PyFloat

/-! ### Cells -/

/-- A signed 64-bit integer, the only kind SQLite stores. -/
def Fits (i : ℤ) : Prop := -2 ^ 63 ≤ i ∧ i < 2 ^ 63

instance (i : ℤ) : Decidable (Fits i) := inferInstanceAs (Decidable (_ ∧ _))

/-- `SQLITE_MAX_LENGTH`: no text and no row is longer. -/
def maxLength : ℕ := 1000000000

/-- Text that SQLite takes: it has UTF-8 bytes, and not too many of them. -/
def Bindable (s : PyStr) : Prop := Encodable s ∧ utf8Length s ≤ maxLength

instance (s : PyStr) : Decidable (Bindable s) := inferInstanceAs (Decidable (_ ∧ _))

/-- Text of a few characters is not too long. -/
theorem bindable_of_length {s : PyStr} (h : Encodable s) (hlength : s.length ≤ 1000) : Bindable s := by
  refine ⟨h, (utf8Length_le s).trans ?_⟩
  unfold maxLength
  omega

/-- What a cell holds, and the Python object it is read as. -/
inductive Value where
  /-- `NULL`, `None`. -/
  | none
  /-- An integer. -/
  | int (i : ℤ)
  /-- A floating-point number. -/
  | real (x : PyFloat)
  /-- Text. -/
  | str (s : PyStr)
  /-- Text that is not UTF-8. There is no Python object for it. -/
  | undecodable (b : { b : Bytes // utf8Decode b = Option.none })
  /-- Bytes. -/
  | blob (b : Bytes)
  deriving DecidableEq

namespace Value

/-- `=` in SQL: nothing is equal to `NULL`. -/
def sqlEq (a b : Value) : Bool := a ≠ none && a = b

@[simp] theorem sqlEq_str (a : Value) (s : PyStr) : a.sqlEq (.str s) = decide (a = .str s) := by
  by_cases h : a = .str s
  · subst h
    simp [sqlEq]
  · simp [sqlEq, h]

@[simp] theorem sqlEq_int (a : Value) (i : ℤ) : a.sqlEq (.int i) = decide (a = .int i) := by
  by_cases h : a = .int i
  · subst h
    simp [sqlEq]
  · simp [sqlEq, h]

theorem sqlEq_eq_true {a b : Value} (h : a.sqlEq b = true) : a = b ∧ a ≠ none := by
  simp only [sqlEq, ne_eq, Bool.and_eq_true, decide_eq_true_eq, decide_not, Bool.not_eq_eq_eq_not,
    Bool.not_true, decide_eq_false_iff_not] at h
  exact ⟨h.2, h.1⟩

/-- The storage classes in the order SQLite sorts them. -/
def rank : Value → ℕ
  | none => 0
  | int _ => 1
  | real _ => 1
  | str _ => 2
  | undecodable _ => 2
  | blob _ => 3

/-- `(n, k)` for the number `n / 2 ^ k`. -/
def dyadic : Value → ℤ × ℕ
  | int i => (i, 0)
  | real x => x.dyadic
  | _ => (0, 0)

/-- What text and bytes are compared by: the bytes. -/
def codes : Value → Bytes
  | str s => (utf8Encode s).getD []
  | undecodable b => b.1
  | blob b => b
  | _ => []

/-- Lexicographic order. -/
def lexLe : Bytes → Bytes → Bool
  | [], _ => true
  | _ :: _, [] => false
  | a :: as, b :: bs => a < b || (a = b && lexLe as bs)

/-- The order of `ORDER BY`. -/
def le (a b : Value) : Bool :=
  a.rank < b.rank ||
    (a.rank = b.rank && decide (a.dyadic.1 * 2 ^ b.dyadic.2 ≤ b.dyadic.1 * 2 ^ a.dyadic.2) &&
      (a.dyadic.1 * 2 ^ b.dyadic.2 != b.dyadic.1 * 2 ^ a.dyadic.2 || lexLe a.codes b.codes))

@[simp] theorem le_int (i j : ℤ) : le (.int i) (.int j) = decide (i ≤ j) := by
  simp [le, rank, dyadic, codes, lexLe]

/-- Whether Python takes the object for false. -/
def falsy : Value → Bool
  | none => true
  | int i => i = 0
  | real x => x.exponent = 0 && x.fraction = 0
  | str s => s = []
  | undecodable _ => false
  | blob b => b = []

/-- What SQLite can store: 64-bit integers, numbers, text that has UTF-8 bytes or any others. -/
def Storable : Value → Prop
  | none => True
  | int i => Fits i
  | real x => x.isNan = false
  | str s => Encodable s
  | undecodable _ => True
  | blob _ => True

/-- Whether the cell can be fetched: `sqlite3` decodes text. -/
def decodes : Value → Bool
  | undecodable _ => false
  | _ => true

@[simp] theorem decodes_none : Value.none.decodes = true := rfl

@[simp] theorem decodes_int (i : ℤ) : (Value.int i).decodes = true := rfl

@[simp] theorem decodes_str (s : PyStr) : (Value.str s).decodes = true := rfl

end Value

/-! ### JSON -/

/-- A JSON value, as `json.loads` makes it and `json.dumps` takes it. An object
keeps the order of its members. -/
inductive Json where
  /-- `null`. -/
  | null
  /-- `true` and `false`. -/
  | bool (b : Bool)
  /-- A number without fraction or exponent. -/
  | int (i : ℤ)
  /-- Any other number, `NaN` and the infinities included. -/
  | float (x : PyFloat)
  /-- A string. -/
  | str (s : PyStr)
  /-- An array. -/
  | arr (items : List Json)
  /-- An object. -/
  | obj (members : List (PyStr × Json))

mutual

/-- The values are the same. -/
def Json.same : Json → Json → Bool
  | .null, .null => true
  | .bool a, .bool b => a = b
  | .int a, .int b => a = b
  | .float a, .float b => a = b
  | .str a, .str b => a = b
  | .arr as, .arr bs => Json.sameItems as bs
  | .obj as, .obj bs => Json.sameMembers as bs
  | _, _ => false

/-- The items of two arrays are. -/
def Json.sameItems : List Json → List Json → Bool
  | [], [] => true
  | a :: as, b :: bs => Json.same a b && Json.sameItems as bs
  | _, _ => false

/-- The members of two objects are. -/
def Json.sameMembers : List (PyStr × Json) → List (PyStr × Json) → Bool
  | [], [] => true
  | (k, a) :: as, (l, b) :: bs => k = l && Json.same a b && Json.sameMembers as bs
  | _, _ => false

end

mutual

theorem Json.same_iff : ∀ a b : Json, a.same b = true ↔ a = b
  | .null, b => by cases b <;> simp [Json.same]
  | .bool x, b => by cases b <;> simp [Json.same]
  | .int x, b => by cases b <;> simp [Json.same]
  | .float x, b => by cases b <;> simp [Json.same]
  | .str x, b => by cases b <;> simp [Json.same]
  | .arr as, b => by cases b <;> simp [Json.same, Json.sameItems_iff as]
  | .obj as, b => by cases b <;> simp [Json.same, Json.sameMembers_iff as]

theorem Json.sameItems_iff : ∀ as bs : List Json, Json.sameItems as bs = true ↔ as = bs
  | [], bs => by cases bs <;> simp [Json.sameItems]
  | a :: as, bs => by cases bs <;> simp [Json.sameItems, Json.same_iff a, Json.sameItems_iff as]

theorem Json.sameMembers_iff : ∀ as bs : List (PyStr × Json), Json.sameMembers as bs = true ↔ as = bs
  | [], bs => by cases bs <;> simp [Json.sameMembers]
  | (k, a) :: as, bs => by
    cases bs <;> simp [Json.sameMembers, Prod.ext_iff, Json.same_iff a, Json.sameMembers_iff as]

end

instance : DecidableEq Json := fun a b => decidable_of_iff _ (Json.same_iff a b)

/-- The member of a `dict` under a key. -/
def member (key : PyStr) : List (PyStr × Json) → Option Json
  | [] => none
  | (k, v) :: ms => if k = key then some v else member key ms

/-! ### Exceptions -/

/-- The exceptions. Those the code raises with a text have it. -/
inductive Exc where
  -- auth/exceptions.py
  | duplicateEmailError
  | passphraseMismatchError
  | weakPassphraseError (code : String)
  | invalidCredentialsError
  | accountLockedError
  | unauthenticatedError
  -- kv/exceptions.py
  | recordNotFoundError
  | recordTamperedError
  | permissionDeniedError
  | invalidVersionError
  -- core/exceptions.py
  | vaultAlreadyInitializedError
  | vaultNotInitializedError
  | vaultLockedError
  | invalidMasterPassphraseError
  | invalidMasterPassphrasePolicyError (code : String)
  | vaultConfigCorruptedError
  | storageError (message : String)
  -- storage/database.py, a `StorageError`
  | legacySchemaError
  -- transit/exceptions.py
  | malformedCiphertextError
  | transitTamperedError
  | keyAlreadyExistsError
  | keyUnavailableError
  | keyVersionUnavailableError
  | invalidKeyUsageError
  | invalidSigningAlgorithmError
  | invalidMessageTypeError
  | invalidDigestLengthError
  | invalidBase64PayloadError
  | invalidKeyNameError
  -- the language and its standard library
  | valueError (message : String)
  | typeError (message : String)
  | runtimeError (message : String)
  | recursionError
  | keyError
  | overflowError
  | osError
  | fileNotFoundError
  | binasciiError
  | unicodeEncodeError
  | unicodeDecodeError
  | jsonDecodeError
  | integrityError
  | operationalError
  | dataError
  -- cryptography and argon2
  | invalidTag
  | invalidSignature
  | hashingError
  | verifyMismatchError
  | verificationError
  | invalidHash
  deriving DecidableEq

@[simp] theorem throw_eq_error {α : Type} (e : Exc) : (throw e : Except Exc α) = .error e := rfl

@[simp] theorem pure_eq_ok {α : Type} (a : α) : (pure a : Except Exc α) = .ok a := rfl

@[simp] theorem ok_bind {α β : Type} (a : α) (f : α → Except Exc β) : (Except.ok a >>= f) = f a := rfl

@[simp] theorem error_bind {α β : Type} (e : Exc) (f : α → Except Exc β) :
    (Except.error e >>= f) = .error e := rfl

/-- A sequence succeeds where both its parts do. -/
theorem bind_eq_ok {α β : Type} {x : Except Exc α} {f : α → Except Exc β} {b : β} :
    (x >>= f) = .ok b ↔ ∃ a, x = .ok a ∧ f a = .ok b := by
  cases x <;> simp

/-- `isinstance(exc, ValueError)`: the class and its subclasses. -/
def Exc.isValueError : Exc → Bool
  | valueError _ => true
  | binasciiError => true
  | unicodeEncodeError => true
  | unicodeDecodeError => true
  | jsonDecodeError => true
  | invalidHash => true
  | _ => false

end MiniVault
