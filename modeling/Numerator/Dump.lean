import Numerator.Decimal
import Numerator.DiskStorage

/-!
# Writing a dump

`DiskStorage::dump`. In both formats the dump is a header followed by one record
for each entry that the iterator yields.
-/

namespace Numerator

namespace DiskStorage

open Std FiniteMap

def kBinaryDumpMagicNumber : UInt32 := 0xdeadface

/-- The size field is a `uint32_t`, and only as many bytes of the value are written. -/
def dumpEntry (binaryDump : Bool) (currentId : NumID) (value : Bytes) : Bytes :=
  if binaryDump then
    let valueSize := UInt32.ofNat value.length
    currentId.bytes ++ LittleEndian.encode 4 valueSize.toNat ++ value.take valueSize.toNat
  else Decimal.printInt currentId.toInt ++ 9 :: value ++ [10]

def dumpHeader (binaryDump : Bool) : Bytes :=
  if binaryDump then LittleEndian.encode 4 kBinaryDumpMagicNumber.toNat else []

/-- The loop of `dump`; `n` entries have been written to the stream before. -/
def dumpLoop (status : Nat → Option String) (binaryDump : Bool) :
    Nat → Bytes → List (NumID × Bytes) → Bytes × Except Fault Unit
  | _, stream, [] => (stream, .ok ())
  | n, stream, (currentId, value) :: rest =>
    match status n with
    | some text => (stream, .error (.exc (.iteration text)))
    | none =>
        dumpLoop status binaryDump (n + 1) (stream ++ dumpEntry binaryDump currentId value) rest

/-- The output stream afterwards, and how the call ends. -/
def dump (it : Iterator) (stream : Bytes) (binaryDump : Bool) : Bytes × Except Fault Unit :=
  dumpLoop it.status binaryDump 0 (stream ++ dumpHeader binaryDump) it.entries

/-- A file with these records. -/
def records (binaryDump : Bool) (entries : List (NumID × Bytes)) : Bytes :=
  entries.flatMap fun p => dumpEntry binaryDump p.1 p.2

@[simp] theorem records_nil (binaryDump : Bool) : records binaryDump [] = [] := rfl

@[simp] theorem records_cons (binaryDump : Bool) (p : NumID × Bytes)
    (entries : List (NumID × Bytes)) :
    records binaryDump (p :: entries) =
      dumpEntry binaryDump p.1 p.2 ++ records binaryDump entries := rfl

theorem dumpLoop_all (status : Nat → Option String) (binaryDump : Bool) (n : Nat)
    (stream : Bytes) (entries : List (NumID × Bytes))
    (h : ∀ i, i < entries.length → status (n + i) = none) :
    dumpLoop status binaryDump n stream entries =
      (stream ++ records binaryDump entries, .ok ()) := by
  induction entries generalizing n stream with
  | nil => simp [dumpLoop]
  | cons p entries ih =>
    obtain ⟨hhead, htail⟩ := status_cons h
    rw [dumpLoop, hhead]
    simp only [ih (n + 1) _ htail, records_cons, List.append_assoc]

/-- As long as the iterator reports no error, everything it yields is written. -/
theorem dump_all {it : Iterator} (h : ∀ i, i < it.entries.length → it.status i = none)
    (stream : Bytes) (binaryDump : Bool) :
    dump it stream binaryDump =
      (stream ++ dumpHeader binaryDump ++ records binaryDump it.entries, .ok ()) := by
  rw [dump, dumpLoop_all]
  simpa using h

theorem dump_newIterator (db : Store) (binaryDump : Bool) :
    dump (newIterator db) [] binaryDump =
      (dumpHeader binaryDump ++ records binaryDump db.toList, .ok ()) :=
  dump_all (fun _ _ => rfl) [] binaryDump

theorem dumpEntry_ne_nil (binaryDump : Bool) (id : NumID) (value : Bytes) :
    dumpEntry binaryDump id value ≠ [] := by
  cases binaryDump with
  | true =>
    intro h
    have hlength := congrArg List.length h
    simp [dumpEntry] at hlength
  | false => simp [dumpEntry]

/-- The three fields of a record whose value the size field can count. -/
theorem dumpEntry_fields (id : NumID) {value : Bytes} (hvalue : value.length < 2 ^ 32) :
    dumpEntry true id value = id.bytes ++ LittleEndian.encode 4 value.length ++ value := by
  simp only [dumpEntry, if_true, UInt32.toNat_ofNat_of_lt' hvalue, List.take_length]

/-! ### Values that the size field cannot count -/

/-- What a binary dump keeps of a value. -/
def dumpedValue (value : Bytes) : Bytes := value.take (UInt32.ofNat value.length).toNat

theorem length_dumpedValue (value : Bytes) :
    (dumpedValue value).length = (UInt32.ofNat value.length).toNat := by
  rw [dumpedValue, List.length_take, UInt32.toNat_ofNat', Nat.min_eq_left (Nat.mod_le _ _)]

theorem length_dumpedValue_lt (value : Bytes) : (dumpedValue value).length < 2 ^ 32 := by
  rw [length_dumpedValue]
  exact UInt32.toNat_lt _

theorem dumpEntry_dumpedValue (id : NumID) (value : Bytes) :
    dumpEntry true id (dumpedValue value) = dumpEntry true id value := by
  have hsize : UInt32.ofNat (dumpedValue value).length = UInt32.ofNat value.length := by
    rw [length_dumpedValue, UInt32.ofNat_toNat]
  simp only [dumpEntry, if_true, hsize]
  rw [dumpedValue, List.take_take, Nat.min_self]

theorem records_dumpedValue (entries : List (NumID × Bytes)) :
    records true (entries.map fun p => (p.1, dumpedValue p.2)) = records true entries := by
  simp only [records, List.flatMap_map, dumpEntry_dumpedValue]

end DiskStorage

end Numerator
