import Numerator.ByteString

/-!
# Thrift types and faults

The types of `numerator.thrift`, the exceptions of the service and of `exc.hpp`,
and the arithmetic of ids. An id is a signed 64-bit integer. Incrementing the
largest one is undefined behaviour in C++, so the increment of the model ends
with a fault there instead of wrapping around.
-/

namespace Numerator

/-! ### `numerator.thrift` -/

abbrev NumID := Int64

/-- An `i32` in the interface. It only counts the positions of one list, and Thrift
    lists are shorter than `2 ^ 31`, so the model leaves it unbounded. -/
abbrev FailureIdx := Int

/-- Thrift reads the operation as a 32-bit number and casts it, so a request may carry
    a number that names no operation. -/
inductive Operation where
  | STR2ID
  | ID2STR
  | unknown (code : Int32)
deriving DecidableEq, Repr

inductive ErrorCode where
  | STR2ID_QUERIES_DISABLED
deriving DecidableEq, Repr

structure Query where
  op : Operation := .unknown 0
  strings : List Bytes := []
  ids : List NumID := []
  failures : List FailureIdx := []
deriving DecidableEq, Repr

structure NumeratorException where
  code : ErrorCode
  message : String
deriving DecidableEq, Repr

/-! ### `exc.hpp` -/

/-- The exceptions that `THROW_EXC` raises, one for each format string. -/
inductive Exc where
  | memoryOperation (errno : Nat)
  | memoryAllocation (errno : Nat)
  | write (status : String)
  | iteration (status : String)
  | get (status : String)
  | notInitialized
  | badKey (line : Bytes)
  | badMagicNumber (found expected : Nat)
deriving DecidableEq, Repr

/-- The text after the position prefix of `Exc::what()`. -/
def Exc.text : Exc → String
  | .memoryOperation errno => "Memory operaton failed, error code: " ++ toString errno
  | .memoryAllocation errno => "Memory allocation failed, error code: " ++ toString errno
  | .write status => "LevelDB's write method failed: " ++ status
  | .iteration status => "LevelDB iteration failed: " ++ status
  | .get status => "LevelDB's Get method failed: " ++ status
  | .notInitialized => "Database wasn't initialized"
  | .badKey line =>
      "bad lexical cast: source type value could not be interpreted as target at \"" ++
        String.ofList ((cstr line).val.map fun b => Char.ofNat b.toNat) ++ "\""
  | .badMagicNumber found expected =>
      "Invalid binary dump magic number: " ++ toString found ++
        " (expected " ++ toString expected ++ ")"

/-- What C++ leaves undefined and the model does not go past. -/
inductive Undefined where
  | signedOverflow
  | indexOutOfRange
deriving DecidableEq, Repr

/-- Why a call does not return. -/
inductive Fault where
  | exc (e : Exc)
  | numeratorException (e : NumeratorException)
  | undefined (u : Undefined)
deriving DecidableEq, Repr

/-! ### Ids -/

namespace NumID

/-- `counter++`: the value after the increment. -/
def increment (counter : NumID) : Except Fault NumID :=
  if counter = Int64.maxValue then .error (.undefined .signedOverflow) else .ok (counter + 1)

theorem toInt_add_one {c : NumID} (h : c ≠ Int64.maxValue) : (c + 1).toInt = c.toInt + 1 := by
  have hlt : c.toInt < 2 ^ 63 - 1 := by
    have hle := c.toInt_le
    have hne : c.toInt ≠ Int64.maxValue.toInt := fun heq => h (Int64.toInt_inj.mp heq)
    rw [Int64.toInt_maxValue] at hle hne
    omega
  have hge := c.le_toInt
  rw [Int64.toInt_add, show (1 : Int64).toInt = 1 from rfl, Int.bmod_eq_of_le] <;> omega

theorem increment_eq_ok {c d : NumID} : increment c = .ok d ↔ d.toInt = c.toInt + 1 := by
  unfold increment
  by_cases h : c = Int64.maxValue
  · rw [if_pos h]
    constructor
    · rintro ⟨⟩
    · intro hd
      have hlt := d.toInt_lt
      rw [hd, h, Int64.toInt_maxValue] at hlt
      omega
  · rw [if_neg h, Except.ok.injEq, ← Int64.toInt_inj, toInt_add_one h]
    exact eq_comm

theorem increment_eq_error {c : NumID} {f : Fault} :
    increment c = .error f ↔ c.toInt = 2 ^ 63 - 1 ∧ f = .undefined .signedOverflow := by
  unfold increment
  by_cases h : c = Int64.maxValue
  · rw [if_pos h, Except.error.injEq, h, Int64.toInt_maxValue]
    simp [eq_comm]
  · rw [if_neg h]
    constructor
    · rintro ⟨⟩
    · rintro ⟨hc, -⟩
      rw [← Int64.toInt_maxValue, Int64.toInt_inj] at hc
      exact absurd hc h

/-- The bytes of an id in memory, which are its key in the database. -/
def bytes (id : NumID) : Bytes := LittleEndian.encode 8 id.toUInt64.toNat

/-- `memcpy` of eight bytes into an id. -/
def ofBytes (bs : Bytes) : NumID := (UInt64.ofNat (LittleEndian.decode bs)).toInt64

@[simp] theorem length_bytes (id : NumID) : id.bytes.length = 8 := LittleEndian.length_encode _ _

@[simp] theorem ofBytes_bytes (id : NumID) : ofBytes id.bytes = id := by
  rw [ofBytes, bytes, LittleEndian.decode_encode_of_lt]
  · simp
  · exact id.toUInt64.toNat_lt

theorem bytes_injective : Function.Injective bytes := fun a b h => by
  rw [← ofBytes_bytes a, h, ofBytes_bytes]

/-- LevelDB's default comparator on the keys of two ids: the byte order of their
    memory, which is not their numeric order. -/
def order : NumID → NumID → Ordering := compareOn fun id => id.bytes

instance : Std.TransCmp order :=
  inferInstanceAs (Std.TransCmp (compareOn fun id : NumID => id.bytes))

instance : Std.LawfulEqCmp order where
  eq_of_compare {_ _} h := bytes_injective (Std.LawfulEqCmp.eq_of_compare h)

end NumID

end Numerator
