import Numerator.ByteString
import Numerator.ThriftProtocol

/-!
# The binary protocol

The protocol that clients and server put on the wire, as an instance of
`Protocol`: big-endian numbers, byte strings behind their lengths, one byte for a
type. A message begins with a version word, or in the older form with its name.
`lawful` says that every reader reads what its writer writes.
-/

namespace Thrift

namespace Binary

/-! ### Bytes and numbers -/

/-- The `w` low bytes of `n`, most significant byte first. -/
def encode (w n : Nat) : List UInt8 := (LittleEndian.encode w n).reverse

def decode (bs : List UInt8) : Nat := LittleEndian.decode bs.reverse

def readBytes (n : Nat) : Reader UInt8 (List UInt8) := fun s =>
  if s.length < n then .error .endOfFile else .ok (s.take n, s.drop n)

def readNat (w : Nat) : Reader UInt8 Nat := do
  let bs ← readBytes w
  pure (decode bs)

theorem reads_bytes (bs : List UInt8) : Reads (readBytes bs.length) bs bs := by
  intro rest
  unfold readBytes
  rw [if_neg (by rw [List.length_append]; omega), List.take_left, List.drop_left]

theorem reads_nat {w n : Nat} (h : n < 256 ^ w) : Reads (readNat w) (encode w n) n := by
  have hlength : (encode w n).length = w := by
    rw [encode, List.length_reverse, LittleEndian.length_encode]
  have hdecode : decode (encode w n) = n := by
    rw [decode, encode, List.reverse_reverse, LittleEndian.decode_encode_of_lt h]
  have hread := (reads_bytes (encode w n)).map (f := decode)
  rw [hlength, hdecode] at hread
  exact hread

def writeByte (b : UInt8) : List UInt8 := encode 1 b.toNat

def readByte : Reader UInt8 UInt8 := do
  let n ← readNat 1
  pure (.ofNat n)

def writeI16 (x : Int16) : List UInt8 := encode 2 x.toUInt16.toNat

def readI16 : Reader UInt8 Int16 := do
  let n ← readNat 2
  pure (UInt16.ofNat n).toInt16

def writeI32 (x : Int32) : List UInt8 := encode 4 x.toUInt32.toNat

def readI32 : Reader UInt8 Int32 := do
  let n ← readNat 4
  pure (UInt32.ofNat n).toInt32

def writeI64 (x : Int64) : List UInt8 := encode 8 x.toUInt64.toNat

def readI64 : Reader UInt8 Int64 := do
  let n ← readNat 8
  pure (UInt64.ofNat n).toInt64

theorem reads_byte (b : UInt8) : Reads readByte (writeByte b) b := by
  have hread := (reads_nat (w := 1) b.toNat_lt).map (f := UInt8.ofNat)
  rw [UInt8.ofNat_toNat] at hread
  exact hread

theorem reads_i16 (x : Int16) : Reads readI16 (writeI16 x) x := by
  have hread := (reads_nat (w := 2) x.toUInt16.toNat_lt).map (f := fun n => (UInt16.ofNat n).toInt16)
  rw [UInt16.ofNat_toNat, Int16.toInt16_toUInt16] at hread
  exact hread

theorem reads_i32 (x : Int32) : Reads readI32 (writeI32 x) x := by
  have hread := (reads_nat (w := 4) x.toUInt32.toNat_lt).map (f := fun n => (UInt32.ofNat n).toInt32)
  rw [UInt32.ofNat_toNat, Int32.toInt32_toUInt32] at hread
  exact hread

theorem reads_i64 (x : Int64) : Reads readI64 (writeI64 x) x := by
  have hread := (reads_nat (w := 8) x.toUInt64.toNat_lt).map (f := fun n => (UInt64.ofNat n).toInt64)
  rw [UInt64.ofNat_toNat, Int64.toInt64_toUInt64] at hread
  exact hread

/-! ### Strings -/

def writeString (s : List UInt8) : List UInt8 := encode 4 s.length ++ s

/-- A size is a signed number. -/
def readSize : Reader UInt8 Nat := do
  let size ← readNat 4
  if size < 2 ^ 31 then pure size else throw .negativeSize

def readString : Reader UInt8 (List UInt8) := do
  let size ← readSize
  readBytes size

theorem reads_size {n : Nat} (h : n < 2 ^ 31) : Reads readSize (encode 4 n) n := by
  have hread : Reads readSize (encode 4 n ++ []) n := by
    refine (reads_nat (show n < 256 ^ 4 by omega)).bind ?_
    rw [if_pos h]
    exact reads_pure n
  rwa [List.append_nil] at hread

theorem reads_string {s : List UInt8} (h : s.length < 2 ^ 31) :
    Reads readString (writeString s) s :=
  (reads_size h).bind (reads_bytes s)

/-! ### Fields and lists -/

def writeFieldBegin (_name : String) (type : TType) (id : Int16) : List UInt8 :=
  writeByte type ++ writeI16 id

def readFieldBegin : Reader UInt8 (TType × Int16) := do
  let type ← readByte
  if type = TType.stop then pure (type, 0)
  else
    let id ← readI16
    pure (type, id)

def writeListBegin (type : TType) (size : Nat) : List UInt8 := writeByte type ++ encode 4 size

def readListBegin : Reader UInt8 (TType × Nat) := do
  let type ← readByte
  let size ← readSize
  pure (type, size)

theorem reads_fieldBegin (name : String) {type : TType} (id : Int16) (htype : type ≠ .stop) :
    Reads readFieldBegin (writeFieldBegin name type id) (type, id) := by
  refine (reads_byte type).bind ?_
  rw [if_neg htype]
  exact (reads_i16 id).map

theorem reads_fieldStop : Reads readFieldBegin (writeByte TType.stop) (.stop, 0) := by
  have hread : Reads readFieldBegin (writeByte TType.stop ++ []) (.stop, 0) := by
    refine (reads_byte TType.stop).bind ?_
    rw [if_pos rfl]
    exact reads_pure (TType.stop, 0)
  rwa [List.append_nil] at hread

theorem reads_listBegin (type : TType) {size : Nat} (h : size < 2 ^ 31) :
    Reads readListBegin (writeListBegin type size) (type, size) :=
  (reads_byte type).bind (reads_size h).map

/-! ### Messages -/

/-- The upper half of the first word of a message. -/
def version1 : Nat := 0x8001

def writeMessageBegin (name : List UInt8) (type : MessageType) (seqid : Int32) : List UInt8 :=
  encode 4 (version1 * 2 ^ 16 + type.toNat) ++ (writeString name ++ writeI32 seqid)

/-- A word that is not negative is the length of the name in the older form. -/
def readMessageBegin : Reader UInt8 (List UInt8 × MessageType × Int32) := do
  let word ← readNat 4
  if 2 ^ 31 ≤ word then
    if word / 2 ^ 16 = version1 then
      let name ← readString
      let seqid ← readI32
      pure (name, .ofNat word, seqid)
    else throw .badVersion
  else
    let name ← readBytes word
    let type ← readByte
    let seqid ← readI32
    pure (name, type, seqid)

theorem reads_messageBegin {name : List UInt8} (hname : name.length < 2 ^ 31) (type : MessageType)
    (seqid : Int32) :
    Reads readMessageBegin (writeMessageBegin name type seqid) (name, type, seqid) := by
  have htype := type.toNat_lt
  have hofNat : UInt8.ofNat (version1 * 2 ^ 16 + type.toNat) = type := by
    apply UInt8.toNat_inj.mp
    rw [UInt8.toNat_ofNat']
    unfold version1
    omega
  refine (reads_nat (w := 4) (by unfold version1; omega)).bind ?_
  rw [if_pos (by unfold version1; omega), if_pos (by unfold version1; omega)]
  rw [hofNat]
  exact (reads_string hname).bind (reads_i32 seqid).map

/-- The beginning of a call, also of one that waits for no answer. -/
def readCall : Reader UInt8 (List UInt8 × Int32) := do
  let (name, type, seqid) ← readMessageBegin
  if type ≠ .call ∧ type ≠ .oneway then throw .invalidData
  else pure (name, seqid)

theorem reads_call {name : List UInt8} (hname : name.length < 2 ^ 31) (seqid : Int32) :
    Reads readCall (writeMessageBegin name .call seqid) (name, seqid) := by
  have hread : Reads readCall (writeMessageBegin name .call seqid ++ []) (name, seqid) := by
    refine (reads_messageBegin hname .call seqid).bind ?_
    dsimp only
    rw [if_neg (by decide)]
    exact reads_pure (name, seqid)
  rwa [List.append_nil] at hread

/-! ### The encoding -/

/-- Nothing stands on the wire around a struct, or behind a field, a list or a message. -/
def encoding : Encoding UInt8 where
  writeMessageBegin := writeMessageBegin
  writeMessageEnd := []
  writeStructBegin _ := []
  writeStructEnd := []
  writeFieldBegin := writeFieldBegin
  writeFieldEnd := []
  writeFieldStop := writeByte TType.stop
  writeListBegin := writeListBegin
  writeListEnd := []
  writeI32 := writeI32
  writeI64 := writeI64
  writeString := writeString
  readMessageBegin := readMessageBegin
  readMessageEnd := pure ()
  readStructBegin := pure ()
  readStructEnd := pure ()
  readFieldBegin := readFieldBegin
  readFieldEnd := pure ()
  readListBegin := readListBegin
  readListEnd := pure ()
  readI32 := readI32
  readI64 := readI64
  readString := readString

theorem lawful_encoding : encoding.Lawful where
  messageBegin _ type seqid hname := reads_messageBegin hname type seqid
  messageEnd := reads_pure ()
  structBegin _ := reads_pure ()
  structEnd := reads_pure ()
  fieldBegin name _ id htype := reads_fieldBegin name id htype
  fieldEnd := reads_pure ()
  fieldStop := reads_fieldStop
  listBegin type _ h := reads_listBegin type h
  listEnd := reads_pure ()
  i32 := reads_i32
  i64 := reads_i64
  string _ h := reads_string h

/-! ### Skipping -/

/-- The size of the types whose values are all of one size. -/
def fixedSize (type : TType) : Option Nat :=
  if type = 2 ∨ type = 3 then some 1
  else if type = 6 then some 2
  else if type = .i32 then some 4
  else if type = 4 ∨ type = .i64 then some 8
  else none

/-- Values may be nested to a depth. A type that is none takes no symbols. -/
def skip : Nat → TType → Reader UInt8 Unit
  | 0, _ => throw .depthLimit
  | depth + 1, type =>
    match fixedSize type with
    | some n => do
      let _ ← readBytes n
      pure ()
    | none =>
      if type = .string then do
        let _ ← readString
        pure ()
      else if type = .struct then encoding.readStruct (skip depth) (fun _ _ => none) ()
      else if type = 13 then do
        let keyType ← readByte
        let valueType ← readByte
        let size ← readSize
        let _ ← readMany (do
          skip depth keyType
          skip depth valueType) size
        pure ()
      else if type = 14 ∨ type = .list then do
        let (elementType, size) ← readListBegin
        let _ ← readMany (skip depth elementType) size
        pure ()
      else pure ()

theorem reads_skip_fixed {type : TType} {content : List UInt8}
    (htype : fixedSize type = some content.length) (depth : Nat) :
    Reads (skip (depth + 1) type) content () := by
  rw [skip, htype]
  exact (reads_bytes content).map

/-- A struct is skipped when its fields are. -/
theorem reads_skip_struct {fields : List (WireField UInt8)} (depth : Nat) (name : String)
    (h : ∀ f ∈ fields, f.type ≠ .stop ∧ Reads (skip depth f.type) f.content ()) :
    Reads (skip (depth + 1) .struct) (encoding.writeStruct name fields) () :=
  lawful_encoding.reads_unknown name h

/-! ### `TApplicationException` -/

/-- The library's limit on readers inside each other. -/
def recursionLimit : Nat := 64

def knownOfException : FieldReader UInt8 ApplicationException := fun type id =>
  if id = 1 ∧ type = .string then some fun x => do
    let message ← readString
    pure { x with message := message }
  else if id = 2 ∧ type = .i32 then some fun x => do
    let type ← readI32
    pure { x with type := type }
  else none

def readApplicationException : Reader UInt8 ApplicationException :=
  encoding.readStruct (skip recursionLimit) knownOfException {}

def writeApplicationException (x : ApplicationException) : List UInt8 :=
  encoding.writeStruct "TApplicationException"
    [⟨"message", .string, 1, writeString x.message⟩, ⟨"type", .i32, 2, writeI32 x.type⟩]

theorem reads_applicationException {x : ApplicationException} (hx : x.message.length < 2 ^ 31) :
    Reads readApplicationException (writeApplicationException x) x :=
  lawful_encoding.reads_struct (skip recursionLimit) knownOfException "TApplicationException"
    [(⟨"message", .string, 1, writeString x.message⟩, fun y => { y with message := x.message }),
      (⟨"type", .i32, 2, writeI32 x.type⟩, fun y => { y with type := x.type })] (by
    simp only [List.forall_mem_cons, List.not_mem_nil, false_imp_iff, implies_true, and_true]
    exact ⟨Encoding.takes_known (show TType.string ≠ .stop by decide) rfl
        fun _ => (reads_string hx).map,
      Encoding.takes_known (show TType.i32 ≠ .stop by decide) rfl fun _ => (reads_i32 _).map⟩) {}

/-! ### The protocol -/

def protocol : Protocol UInt8 where
  toEncoding := encoding
  skip depth := skip (recursionLimit - depth)
  recursionLimit := recursionLimit
  readCall := readCall
  writeApplicationException := writeApplicationException
  readApplicationException := readApplicationException

theorem lawful : protocol.Lawful where
  toLawful := lawful_encoding
  recursionLimit := by decide
  call _ seqid hname := reads_call hname seqid
  applicationException _ hx := reads_applicationException hx

end Binary

end Thrift
