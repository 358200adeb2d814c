import Mathlib

/-!
# Protocols for structs

What generated Thrift code uses of the library: writers that put tagged values
on a stream, readers that take them off again, a `skip` for values that the
reader does not know, the limit on readers inside each other, and what the
library itself sends and reads around a call. The stream is a list of symbols.
`Encoding.Lawful` and `Protocol.Lawful` say that the readers read what the
writers write, `Reads` composes such facts, and `reads_struct` is the rule for
the loop over the fields of a struct: they may come in any order and number, and
each changes the result in its own way.
-/

namespace Thrift

/-! ### The wire -/

/-- The code of a type on the wire. -/
abbrev TType := UInt8

namespace TType

def stop : TType := 0
def i32 : TType := 8
def i64 : TType := 10
def string : TType := 11
def struct : TType := 12
def list : TType := 15

end TType

abbrev MessageType := UInt8

namespace MessageType

def call : MessageType := 1
def reply : MessageType := 2
def exception : MessageType := 3
def oneway : MessageType := 4

end MessageType

/-- Why a reader gives up. -/
inductive ReadError where
  | invalidData
  | negativeSize
  | badVersion
  | endOfFile
  | depthLimit
deriving DecidableEq, Repr

/-- A reader takes a value off the front of the stream. -/
abbrev Reader (σ α : Type) := StateT (List σ) (Except ReadError) α

/-- How values stand on the wire. -/
structure Encoding (σ : Type) where
  writeMessageBegin : List UInt8 → MessageType → Int32 → List σ
  writeMessageEnd : List σ
  writeStructBegin : String → List σ
  writeStructEnd : List σ
  writeFieldBegin : String → TType → Int16 → List σ
  writeFieldEnd : List σ
  writeFieldStop : List σ
  writeListBegin : TType → Nat → List σ
  writeListEnd : List σ
  writeI32 : Int32 → List σ
  writeI64 : Int64 → List σ
  writeString : List UInt8 → List σ
  readMessageBegin : Reader σ (List UInt8 × MessageType × Int32)
  readMessageEnd : Reader σ Unit
  readStructBegin : Reader σ Unit
  readStructEnd : Reader σ Unit
  readFieldBegin : Reader σ (TType × Int16)
  readFieldEnd : Reader σ Unit
  readListBegin : Reader σ (TType × Nat)
  readListEnd : Reader σ Unit
  readI32 : Reader σ Int32
  readI64 : Reader σ Int64
  readString : Reader σ (List UInt8)

/-- The exception that the library itself sends. -/
structure ApplicationException where
  message : List UInt8 := []
  type : Int32 := 0
deriving DecidableEq

namespace ApplicationException

def unknown : Int32 := 0
def unknownMethod : Int32 := 1
def missingResult : Int32 := 5

end ApplicationException

/-- An encoding and the library around it. Reading is limited in depth: `skip` is told how many
    readers are open around the value. `readCall` is what the library reads of a message before
    it hands a call to the generated processor, the name and the number. -/
structure Protocol (σ : Type) extends Encoding σ where
  skip : Nat → TType → Reader σ Unit
  recursionLimit : Nat
  readCall : Reader σ (List UInt8 × Int32)
  writeApplicationException : ApplicationException → List σ
  readApplicationException : Reader σ ApplicationException

variable {σ α β : Type}

/-! ### Reading what was written -/

/-- In front of whatever follows, the symbols read as this value. -/
def Reads (read : Reader σ α) (symbols : List σ) (a : α) : Prop :=
  ∀ rest, read (symbols ++ rest) = .ok (a, rest)

theorem reads_pure (a : α) : Reads (pure a : Reader σ α) [] a := fun _ => rfl

theorem Reads.bind {read : Reader σ α} {next : α → Reader σ β} {xs ys : List σ} {a : α} {b : β}
    (h : Reads read xs a) (hnext : Reads (next a) ys b) : Reads (read >>= next) (xs ++ ys) b := by
  intro rest
  change (read (xs ++ ys ++ rest) >>= fun p => next p.1 p.2) = _
  rw [List.append_assoc, h (ys ++ rest)]
  exact hnext rest

/-- The last step of a reader only makes its value. -/
theorem Reads.map {read : Reader σ α} {f : α → β} {xs : List σ} {a : α} (h : Reads read xs a) :
    Reads (read >>= fun a => pure (f a)) xs (f a) := by
  have hbind : Reads (read >>= fun a => pure (f a)) (xs ++ []) (f a) := h.bind (reads_pure (f a))
  rwa [List.append_nil] at hbind

/-- In front of whatever follows, the reader gives up on the symbols. -/
def Fails (read : Reader σ α) (symbols : List σ) (e : ReadError) : Prop :=
  ∀ rest, read (symbols ++ rest) = .error e

theorem Fails.bind {read : Reader σ α} {next : α → Reader σ β} {xs : List σ} {e : ReadError}
    (h : Fails read xs e) : Fails (read >>= next) xs e := by
  intro rest
  change (read (xs ++ rest) >>= fun p => next p.1 p.2) = _
  rw [h rest]
  rfl

theorem Fails.append {read : Reader σ α} {xs : List σ} {e : ReadError} (h : Fails read xs e)
    (ys : List σ) : Fails read (xs ++ ys) e := by
  intro rest
  rw [List.append_assoc]
  exact h (ys ++ rest)

theorem Reads.bind_fails {read : Reader σ α} {next : α → Reader σ β} {xs ys : List σ} {a : α}
    {e : ReadError} (h : Reads read xs a) (hnext : Fails (next a) ys e) :
    Fails (read >>= next) (xs ++ ys) e := by
  intro rest
  change (read (xs ++ ys ++ rest) >>= fun p => next p.1 p.2) = _
  rw [List.append_assoc, h (ys ++ rest)]
  exact hnext rest

/-- Take as many values off the stream. -/
def readMany (read : Reader σ α) : Nat → Reader σ (List α)
  | 0 => pure []
  | n + 1 => do
    let a ← read
    let as ← readMany read n
    pure (a :: as)

theorem reads_many {read : Reader σ α} {write : α → List σ} {xs : List α}
    (h : ∀ a ∈ xs, Reads read (write a) a) :
    Reads (readMany read xs.length) (xs.flatMap write) xs := by
  induction xs with
  | nil => exact reads_pure []
  | cons x xs ih =>
    rw [List.forall_mem_cons] at h
    exact h.1.bind (ih h.2).map

/-- What a reader makes of the fields that it knows, by type and id, from what it has so far. -/
abbrev FieldReader (σ β : Type) := TType → Int16 → Option (β → Reader σ β)

namespace Encoding

variable (E : Encoding σ)

/-- Every reader reads what its writer writes. Names and strings are shorter than `2 ^ 31`, and
    so are lists. -/
structure Lawful : Prop where
  messageBegin : ∀ name type seqid, name.length < 2 ^ 31 →
    Reads E.readMessageBegin (E.writeMessageBegin name type seqid) (name, type, seqid)
  messageEnd : Reads E.readMessageEnd E.writeMessageEnd ()
  structBegin : ∀ name, Reads E.readStructBegin (E.writeStructBegin name) ()
  structEnd : Reads E.readStructEnd E.writeStructEnd ()
  fieldBegin : ∀ name type id, type ≠ .stop →
    Reads E.readFieldBegin (E.writeFieldBegin name type id) (type, id)
  fieldEnd : Reads E.readFieldEnd E.writeFieldEnd ()
  fieldStop : Reads E.readFieldBegin E.writeFieldStop (.stop, 0)
  listBegin : ∀ type size, size < 2 ^ 31 →
    Reads E.readListBegin (E.writeListBegin type size) (type, size)
  listEnd : Reads E.readListEnd E.writeListEnd ()
  i32 : ∀ x, Reads E.readI32 (E.writeI32 x) x
  i64 : ∀ x, Reads E.readI64 (E.writeI64 x) x
  string : ∀ s, s.length < 2 ^ 31 → Reads E.readString (E.writeString s) s

/-- A message is not read off an empty stream, as two names are different. -/
theorem Lawful.messageBegin_ne_nil {E : Encoding σ} (hE : E.Lawful) {name : List UInt8}
    (hname : name.length < 2 ^ 31) (type : MessageType) (seqid : Int32) :
    E.writeMessageBegin name type seqid ≠ [] := by
  intro hnil
  obtain ⟨name', hne, hname'⟩ : ∃ name' : List UInt8, name ≠ name' ∧ name'.length < 2 ^ 31 := by
    cases name with
    | nil => exact ⟨[0], by decide, by decide⟩
    | cons b bs => exact ⟨[], List.cons_ne_nil b bs, by decide⟩
  have hread := hE.messageBegin name type seqid hname
  rw [hnil] at hread
  have heq := hread (E.writeMessageBegin name' type seqid)
  have hread' := hE.messageBegin name' type seqid hname' []
  rw [List.append_nil] at hread'
  rw [List.nil_append, hread', Except.ok.injEq, Prod.mk.injEq, Prod.mk.injEq] at heq
  exact hne heq.1.1.symm

/-- Nor is a field, as it could be the end of the struct. -/
theorem Lawful.fieldBegin_ne_nil {E : Encoding σ} (hE : E.Lawful) (name : String) {type : TType}
    (htype : type ≠ .stop) (id : Int16) : E.writeFieldBegin name type id ≠ [] := by
  intro hnil
  have hread := hE.fieldBegin name type id htype
  rw [hnil] at hread
  have heq := hread E.writeFieldStop
  have hstop := hE.fieldStop []
  rw [List.append_nil] at hstop
  rw [List.nil_append, hstop, Except.ok.injEq, Prod.mk.injEq, Prod.mk.injEq] at heq
  exact htype heq.1.1.symm

/-! ### Lists -/

def writeList (type : TType) (write : α → List σ) (xs : List α) : List σ :=
  E.writeListBegin type xs.length ++ (xs.flatMap write ++ E.writeListEnd)

/-- The element type on the wire is not looked at. -/
def readList (read : Reader σ α) : Reader σ (List α) := do
  let (_, size) ← E.readListBegin
  let xs ← readMany read size
  E.readListEnd
  pure xs

variable {E}

theorem Lawful.reads_list (hE : E.Lawful) {read : Reader σ α} {write : α → List σ} {xs : List α}
    (type : TType) (hlength : xs.length < 2 ^ 31) (h : ∀ a ∈ xs, Reads read (write a) a) :
    Reads (E.readList read) (E.writeList type write xs) xs :=
  (hE.listBegin type xs.length hlength).bind ((reads_many h).bind hE.listEnd.map)

/-! ### Structs -/

variable (E)

/-- A field that the reader does not know is skipped. -/
def readField (skip : TType → Reader σ Unit) (known : FieldReader σ β) (type : TType)
    (id : Int16) (b : β) : Reader σ β :=
  match known type id with
  | some read => read b
  | none => do
    skip type
    pure b

/-- The loop over the fields of a struct, for at most so many of them. -/
def readFields (skip : TType → Reader σ Unit) (known : FieldReader σ β) : Nat → β → Reader σ β
  | 0, _ => throw .endOfFile
  | fuel + 1, b => do
    let (type, id) ← E.readFieldBegin
    if type = .stop then pure b
    else
      let b ← readField skip known type id b
      E.readFieldEnd
      readFields skip known fuel b

/-- Every field takes a symbol, so the loop makes no more rounds than there are symbols. -/
def readStruct (skip : TType → Reader σ Unit) (known : FieldReader σ β) (b : β) :
    Reader σ β := do
  E.readStructBegin
  let symbols ← get
  let b ← E.readFields skip known (symbols.length + 1) b
  E.readStructEnd
  pure b

end Encoding

/-- A field as it stands on the wire. -/
structure WireField (σ : Type) where
  name : String
  type : TType
  id : Int16
  content : List σ

namespace Encoding

section Write

variable (E : Encoding σ)

def writeField (f : WireField σ) : List σ :=
  E.writeFieldBegin f.name f.type f.id ++ (f.content ++ E.writeFieldEnd)

def writeFields (fields : List (WireField σ)) : List σ :=
  fields.flatMap E.writeField ++ E.writeFieldStop

def writeStruct (name : String) (fields : List (WireField σ)) : List σ :=
  E.writeStructBegin name ++ (E.writeFields fields ++ E.writeStructEnd)

end Write

/-- The reader takes the field, known or not, and changes what it has. -/
structure Takes (skip : TType → Reader σ Unit) (known : FieldReader σ β) (f : WireField σ)
    (change : β → β) : Prop where
  type : f.type ≠ .stop
  content : ∀ b, Reads (readField skip known f.type f.id b) f.content (change b)

variable {E : Encoding σ} {skip : TType → Reader σ Unit} {known : FieldReader σ β}

/-- A field that is unknown by type or id, and that the protocol can skip. -/
theorem takes_unknown {f : WireField σ} (htype : f.type ≠ .stop)
    (hunknown : known f.type f.id = none) (hskip : Reads (skip f.type) f.content ()) :
    Takes skip known f id := by
  refine ⟨htype, fun b => ?_⟩
  unfold readField
  rw [hunknown]
  exact hskip.map

theorem takes_known {f : WireField σ} {read : β → Reader σ β} {change : β → β}
    (htype : f.type ≠ .stop) (hknown : known f.type f.id = some read)
    (hread : ∀ b, Reads (read b) f.content (change b)) : Takes skip known f change := by
  refine ⟨htype, fun b => ?_⟩
  unfold readField
  rw [hknown]
  exact hread b

theorem Lawful.reads_stop (hE : E.Lawful) (fuel : Nat) (b : β) :
    Reads (E.readFields skip known (fuel + 1) b) E.writeFieldStop b := by
  have hread : Reads (E.readFields skip known (fuel + 1) b) (E.writeFieldStop ++ []) b := by
    refine hE.fieldStop.bind ?_
    dsimp only
    rw [if_pos rfl]
    exact reads_pure b
  rwa [List.append_nil] at hread

theorem Lawful.reads_cons (hE : E.Lawful) {f : WireField σ} {change : β → β}
    (hf : Takes skip known f change) {fuel : Nat} {b b' : β} {symbols : List σ}
    (h : Reads (E.readFields skip known fuel (change b)) symbols b') :
    Reads (E.readFields skip known (fuel + 1) b) (E.writeField f ++ symbols) b' := by
  unfold writeField
  rw [List.append_assoc, List.append_assoc]
  refine (hE.fieldBegin f.name f.type f.id hf.type).bind ?_
  dsimp only
  rw [if_neg hf.type]
  exact (hf.content b).bind (hE.fieldEnd.bind h)

theorem Lawful.reads_fields (hE : E.Lawful) (fields : List (WireField σ × (β → β)))
    (h : ∀ p ∈ fields, Takes skip known p.1 p.2) (b : β) (extra : Nat) :
    Reads (E.readFields skip known (fields.length + 1 + extra) b)
      (E.writeFields (fields.map Prod.fst)) (fields.foldl (fun b p => p.2 b) b) := by
  induction fields generalizing b with
  | nil =>
    rw [List.length_nil, Nat.zero_add, Nat.add_comm]
    exact hE.reads_stop extra b
  | cons p fields ih =>
    rw [List.forall_mem_cons] at h
    have hrest := hE.reads_cons h.1 (ih h.2 (p.2 b))
    rw [List.length_cons, Nat.add_right_comm _ 1 extra]
    unfold writeFields at hrest ⊢
    rw [List.map_cons, List.flatMap_cons, List.append_assoc]
    exact hrest

theorem Lawful.length_le_writeFields (hE : E.Lawful) (fields : List (WireField σ))
    (htype : ∀ f ∈ fields, f.type ≠ .stop) :
    fields.length ≤ (E.writeFields fields).length := by
  unfold writeFields
  rw [List.length_append]
  induction fields with
  | nil => exact Nat.zero_le _
  | cons f fields ih =>
    rw [List.forall_mem_cons] at htype
    have hpos := List.length_pos_of_ne_nil (hE.fieldBegin_ne_nil f.name htype.1 f.id)
    have hrest := ih htype.2
    rw [List.flatMap_cons, List.length_append, writeField, List.length_append, List.length_cons]
    omega

/-- A struct reads as what its fields make of the start value, one after another. -/
theorem Lawful.reads_struct (hE : E.Lawful) (skip : TType → Reader σ Unit)
    (known : FieldReader σ β) (name : String)
    (fields : List (WireField σ × (β → β)))
    (h : ∀ p ∈ fields, Takes skip known p.1 p.2) (b : β) :
    Reads (E.readStruct skip known b) (E.writeStruct name (fields.map Prod.fst))
      (fields.foldl (fun b p => p.2 b) b) := by
  have hlength := hE.length_le_writeFields (fields.map Prod.fst) (by
    rintro f hf
    obtain ⟨p, hp, rfl⟩ := List.mem_map.mp hf
    exact (h p hp).type)
  rw [List.length_map] at hlength
  refine (hE.structBegin name).bind ?_
  intro rest
  obtain ⟨extra, hextra⟩ : ∃ extra,
      (E.writeFields (fields.map Prod.fst) ++ E.writeStructEnd ++ rest).length + 1 =
        fields.length + 1 + extra := by
    rw [List.length_append, List.length_append]
    exact ⟨_, (Nat.add_sub_of_le (by omega)).symm⟩
  have hread : Reads (E.readFields skip known (fields.length + 1 + extra) b >>= fun b => do
        E.readStructEnd
        pure b)
      (E.writeFields (fields.map Prod.fst) ++ E.writeStructEnd)
      (fields.foldl (fun b p => p.2 b) b) :=
    (hE.reads_fields fields h b extra).bind hE.structEnd.map
  rw [← hextra] at hread
  exact hread rest

/-- A struct is given up where the content of its first field is. -/
theorem Lawful.fails_struct (hE : E.Lawful) (name : String) {f : WireField σ}
    {read : β → Reader σ β} (htype : f.type ≠ .stop) (hknown : known f.type f.id = some read)
    {b : β} {e : ReadError} (hread : Fails (read b) f.content e) (fields : List (WireField σ)) :
    Fails (E.readStruct skip known b) (E.writeStruct name (f :: fields)) e := by
  refine (hE.structBegin name).bind_fails ?_
  intro rest
  have hcontent : Fails (readField skip known f.type f.id b) f.content e := by
    unfold readField
    rw [hknown]
    exact hread
  have hfields : ∀ fuel, Fails (E.readFields skip known (fuel + 1) b) (E.writeField f) e := by
    intro fuel
    refine (hE.fieldBegin f.name f.type f.id htype).bind_fails ?_
    dsimp only
    rw [if_neg htype]
    exact (hcontent.append E.writeFieldEnd).bind
  have hsymbols : E.writeFields (f :: fields) ++ E.writeStructEnd =
      E.writeField f ++ (E.writeFields fields ++ E.writeStructEnd) := by
    unfold writeFields
    simp only [List.flatMap_cons, List.append_assoc]
  rw [hsymbols]
  have hloop : ∀ fuel, Fails (E.readFields skip known (fuel + 1) b >>= fun b => do
        E.readStructEnd
        pure b)
      (E.writeField f ++ (E.writeFields fields ++ E.writeStructEnd)) e :=
    fun fuel => ((hfields fuel).append _).bind
  exact hloop _ rest

/-- Where no field is known all of them are skipped. -/
theorem Lawful.reads_unknown (hE : E.Lawful) (name : String) {fields : List (WireField σ)}
    (h : ∀ f ∈ fields, f.type ≠ .stop ∧ Reads (skip f.type) f.content ()) :
    Reads (E.readStruct skip (fun _ _ => none) ()) (E.writeStruct name fields) () := by
  have hread := hE.reads_struct skip (fun _ _ => none) name
    (fields.map fun f => (f, fun b : Unit => b)) (by
      intro p hp
      obtain ⟨f, hf, rfl⟩ := List.mem_map.mp hp
      exact takes_unknown (h f hf).1 rfl (h f hf).2) ()
  rw [List.map_map, show Prod.fst ∘ (fun f : WireField σ => (f, fun b : Unit => b)) = id from rfl,
    List.map_id] at hread
  exact hread

end Encoding

/-! ### Structs inside structs -/

namespace Protocol

variable (P : Protocol σ)

/-- The encoding is lawful, the library takes a call and an exception as they were sent, and there
    is room for a struct inside a struct. -/
structure Lawful : Prop extends P.toEncoding.Lawful where
  recursionLimit : 2 ≤ P.recursionLimit
  call : ∀ name seqid, name.length < 2 ^ 31 →
    Reads P.readCall (P.writeMessageBegin name .call seqid) (name, seqid)
  applicationException : ∀ x : ApplicationException, x.message.length < 2 ^ 31 →
    Reads P.readApplicationException (P.writeApplicationException x) x

/-- `TInputRecursionTracker`: a reader with so many readers around it that opens itself before
    it reads the struct. -/
def readTracked (depth : Nat) (known : FieldReader σ β) (b : β) : Reader σ β :=
  if depth < P.recursionLimit then P.readStruct (P.skip (depth + 1)) known b
  else throw .depthLimit

variable {P} {known : FieldReader σ β}

/-- There is room for the outermost struct and for one inside it. -/
theorem Lawful.lt_recursionLimit (hP : P.Lawful) {depth : Nat} (hdepth : depth ≤ 1) :
    depth < P.recursionLimit :=
  lt_of_lt_of_le (Nat.lt_succ_of_le hdepth) hP.recursionLimit

theorem readTracked_of_lt {depth : Nat} (hdepth : depth < P.recursionLimit) (b : β) :
    P.readTracked depth known b = P.readStruct (P.skip (depth + 1)) known b :=
  if_pos hdepth

theorem readTracked_of_le {depth : Nat} (hdepth : P.recursionLimit ≤ depth) (b : β) :
    P.readTracked depth known b = throw .depthLimit :=
  if_neg (Nat.not_lt.mpr hdepth)

end Protocol

end Thrift
