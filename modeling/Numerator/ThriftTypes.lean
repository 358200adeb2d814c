import Numerator.ThriftBinary
import Numerator.Types

/-!
# The generated structs

`Query` and `NumeratorException` of `numerator_types.cpp` and the argument and
result structs of `Numerator.cpp` on the wire. A writer puts down every field,
and a reader takes the fields in any order, keeps what it already has where a
field does not come, and skips what it does not know. Every reader counts itself
among those that are open, which the library limits.
-/

namespace Numerator

open Thrift

variable {σ : Type} (P : Protocol σ)

/-! ### `Query` -/

namespace Operation

/-- `(int32_t)this->op`. -/
def code : Operation → Int32
  | .STR2ID => 1
  | .ID2STR => 2
  | .unknown code => code

/-- `(Operation::type)ecast0`. -/
def ofCode (code : Int32) : Operation :=
  if code = 1 then .STR2ID
  else if code = 2 then .ID2STR
  else .unknown code

end Operation

/-- A position as the `i32` that it is on the wire. -/
def FailureIdx.code (i : FailureIdx) : Int32 := Int32.ofInt i

namespace Query

/-- What a reader knows of `Query`, and whether it has read the required field. -/
def known : FieldReader σ (Query × Bool) := fun type id =>
  if id = 1 ∧ type = .i32 then some fun (q, _) => do
    let ecast ← P.readI32
    pure ({ q with op := .ofCode ecast }, true)
  else if id = 2 ∧ type = .list then some fun (q, isset) => do
    let strings ← P.readList P.readString
    pure ({ q with strings := strings }, isset)
  else if id = 3 ∧ type = .list then some fun (q, isset) => do
    let ids ← P.readList P.readI64
    pure ({ q with ids := ids }, isset)
  else if id = 4 ∧ type = .list then some fun (q, isset) => do
    let failures ← P.readList P.readI32
    pure ({ q with failures := failures.map Int32.toInt }, isset)
  else none

theorem known_eq_none {type : TType} {id : Int16} (hop : ¬ (id = 1 ∧ type = .i32))
    (hlist : ¬ ((id = 2 ∨ id = 3 ∨ id = 4) ∧ type = .list)) : known P type id = none := by
  unfold known
  rw [if_neg hop, if_neg fun h => hlist ⟨Or.inl h.1, h.2⟩,
    if_neg fun h => hlist ⟨Or.inr (Or.inl h.1), h.2⟩,
    if_neg fun h => hlist ⟨Or.inr (Or.inr h.1), h.2⟩]

/-- The query is read over what was there before, with so many readers open around it. -/
def read (depth : Nat) (q : Query) : Reader σ Query := do
  let (q, issetOp) ← P.readTracked depth (known P) (q, false)
  if issetOp then pure q else throw .invalidData

def write (q : Query) : List σ :=
  P.writeStruct "Query"
    [⟨"op", .i32, 1, P.writeI32 q.op.code⟩,
      ⟨"strings", .list, 2, P.writeList .string P.writeString q.strings⟩,
      ⟨"ids", .list, 3, P.writeList .i64 P.writeI64 q.ids⟩,
      ⟨"failures", .list, 4, P.writeList .i32 P.writeI32 (q.failures.map FailureIdx.code)⟩]

end Query

/-! ### `NumeratorException` -/

/-- The exception as a client has it, with a code that need not be known and any bytes as its
    message. -/
structure ThriftException where
  code : Int32 := 0
  message : Bytes := []
deriving DecidableEq

def ErrorCode.code : ErrorCode → Int32
  | .STR2ID_QUERIES_DISABLED => 1

/-- The bytes of a message. The messages of the program are in ASCII. -/
def messageBytes (message : String) : Bytes := message.toList.map fun c => UInt8.ofNat c.toNat

def NumeratorException.thrift (e : NumeratorException) : ThriftException :=
  ⟨e.code.code, messageBytes e.message⟩

namespace ThriftException

def known : FieldReader σ (ThriftException × Bool) := fun type id =>
  if id = 1 ∧ type = .i32 then some fun (e, _) => do
    let ecast ← P.readI32
    pure ({ e with code := ecast }, true)
  else if id = 2 ∧ type = .string then some fun (e, isset) => do
    let message ← P.readString
    pure ({ e with message := message }, isset)
  else none

def read (depth : Nat) (e : ThriftException) : Reader σ ThriftException := do
  let (e, issetCode) ← P.readTracked depth (known P) (e, false)
  if issetCode then pure e else throw .invalidData

def write (e : ThriftException) : List σ :=
  P.writeStruct "NumeratorException"
    [⟨"code", .i32, 1, P.writeI32 e.code⟩,
      ⟨"message", .string, 2, P.writeString e.message⟩]

end ThriftException

/-! ### Arguments and results -/

/-- The structs without fields, such as `Numerator_ping_args`: every field is skipped. As all
    arguments and results they are read with no other reader open. -/
def readEmptyStruct : Reader σ Unit := P.readTracked 0 (fun _ _ => none) ()

def writeEmptyStruct (name : String) : List σ := P.writeStruct name []

namespace QueryArgs

def known : FieldReader σ Query := fun type id =>
  if id = 1 ∧ type = .struct then some (Query.read P 1) else none

def read : Reader σ Query := P.readTracked 0 (known P) {}

/-- `Numerator_query_pargs::write`. -/
def write (request : Query) : List σ :=
  P.writeStruct "Numerator_query_pargs" [⟨"request", .struct, 1, request.write P⟩]

end QueryArgs

structure QueryResult where
  success : Query := {}
  exc : ThriftException := {}
  issetSuccess : Bool := false
  issetExc : Bool := false

namespace QueryResult

def known : FieldReader σ QueryResult := fun type id =>
  if id = 0 ∧ type = .struct then some fun result => do
    let success ← Query.read P 1 result.success
    pure { result with success := success, issetSuccess := true }
  else if id = 1 ∧ type = .struct then some fun result => do
    let exc ← ThriftException.read P 1 result.exc
    pure { result with exc := exc, issetExc := true }
  else none

/-- `Numerator_query_presult::read`, with the client's query in `success`. -/
def read (response : Query) : Reader σ QueryResult :=
  P.readTracked 0 (known P) { success := response }

def write (result : QueryResult) : List σ :=
  P.writeStruct "Numerator_query_result"
    (if result.issetSuccess then [⟨"success", .struct, 0, result.success.write P⟩]
      else if result.issetExc then [⟨"exc", .struct, 1, result.exc.write P⟩]
      else [])

end QueryResult

/-! ### Fields in any order -/

/-- A field in a struct that is read as a `Query`: one of the four that the reader knows, where
    nothing depends on the name of the field or the element type of a list, or another one. -/
inductive QueryField (σ : Type) where
  | op (name : String) (code : Int32)
  | strings (name : String) (type : TType) (strings : List Bytes)
  | ids (name : String) (type : TType) (ids : List NumID)
  | failures (name : String) (type : TType) (failures : List Int32)
  | other (f : WireField σ)

namespace QueryField

def field : QueryField σ → WireField σ
  | .op name code => ⟨name, .i32, 1, P.writeI32 code⟩
  | .strings name type xs => ⟨name, .list, 2, P.writeList type P.writeString xs⟩
  | .ids name type xs => ⟨name, .list, 3, P.writeList type P.writeI64 xs⟩
  | .failures name type xs => ⟨name, .list, 4, P.writeList type P.writeI32 xs⟩
  | .other f => f

/-- Lists and strings are as short as the protocol demands, and another field has a type or an id
    that the reader does not know and a content that can be skipped there. -/
def Fits (depth : Nat) : QueryField σ → Prop
  | .op _ _ => True
  | .strings _ _ xs => xs.length < 2 ^ 31 ∧ ∀ s ∈ xs, s.length < 2 ^ 31
  | .ids _ _ xs => xs.length < 2 ^ 31
  | .failures _ _ xs => xs.length < 2 ^ 31
  | .other f => f.type ≠ .stop ∧ ¬ (f.id = 1 ∧ f.type = .i32) ∧
      ¬ ((f.id = 2 ∨ f.id = 3 ∨ f.id = 4) ∧ f.type = .list) ∧
      Reads (P.skip (depth + 1) f.type) f.content ()

/-- What the reader makes of the field. -/
def change : QueryField σ → Query × Bool → Query × Bool
  | .op _ code, (q, _) => ({ q with op := .ofCode code }, true)
  | .strings _ _ xs, (q, isset) => ({ q with strings := xs }, isset)
  | .ids _ _ xs, (q, isset) => ({ q with ids := xs }, isset)
  | .failures _ _ xs, (q, isset) =>
      ({ q with failures := xs.map Int32.toInt }, isset)
  | .other _, p => p

def op? : QueryField σ → Option Operation
  | .op _ code => some (.ofCode code)
  | _ => none

def strings? : QueryField σ → Option (List Bytes)
  | .strings _ _ xs => some xs
  | _ => none

def ids? : QueryField σ → Option (List NumID)
  | .ids _ _ xs => some xs
  | _ => none

def failures? : QueryField σ → Option (List FailureIdx)
  | .failures _ _ xs => some (xs.map Int32.toInt)
  | _ => none

variable {P}

theorem takes (hE : P.toEncoding.Lawful) {depth : Nat} {f : QueryField σ} (hf : f.Fits P depth) :
    Encoding.Takes (P.skip (depth + 1)) (Query.known P) (f.field P) f.change := by
  cases f with
  | op name code =>
    exact Encoding.takes_known (show TType.i32 ≠ .stop by decide) rfl fun _ => (hE.i32 code).map
  | strings name type xs =>
    exact Encoding.takes_known (show TType.list ≠ .stop by decide) rfl
      fun _ => (hE.reads_list type hf.1 fun s hs => hE.string s (hf.2 s hs)).map
  | ids name type xs =>
    exact Encoding.takes_known (show TType.list ≠ .stop by decide) rfl
      fun _ => (hE.reads_list type hf fun id _ => hE.i64 id).map
  | failures name type xs =>
    exact Encoding.takes_known (show TType.list ≠ .stop by decide) rfl
      fun _ => (hE.reads_list type hf fun i _ => hE.i32 i).map
  | other f =>
    obtain ⟨htype, hop, hlist, hskip⟩ := hf
    exact Encoding.takes_unknown htype (Query.known_eq_none P hop hlist) hskip

end QueryField

/-- What a reader makes of the fields: the last one of each kind counts, and where there is none
    the query keeps what it had. -/
def Query.over (q : Query) (fields : List (QueryField σ)) : Query where
  op := (fields.filterMap QueryField.op?).getLast?.getD q.op
  strings := (fields.filterMap QueryField.strings?).getLast?.getD q.strings
  ids := (fields.filterMap QueryField.ids?).getLast?.getD q.ids
  failures := (fields.filterMap QueryField.failures?).getLast?.getD q.failures

theorem foldl_change (q : Query) (fields : List (QueryField σ)) :
    fields.foldl (fun p f => f.change p) (q, false) =
      (q.over fields, fields.any fun f => f.op?.isSome) := by
  induction fields using List.reverseRecOn with
  | nil => rfl
  | append_singleton fields f ih =>
    rw [List.foldl_append, ih, List.any_append]
    cases f <;> simp [QueryField.change, Query.over, QueryField.op?, QueryField.strings?,
      QueryField.ids?, QueryField.failures?]

variable {P}

theorem Query.reads_known (hE : P.toEncoding.Lawful) {depth : Nat}
    (hdepth : depth < P.recursionLimit) (name : String) {fields : List (QueryField σ)}
    (hfits : ∀ f ∈ fields, f.Fits P depth) (q : Query) :
    Reads (P.readTracked depth (Query.known P) (q, false))
      (P.writeStruct name (fields.map (QueryField.field P)))
      (q.over fields, fields.any fun f => f.op?.isSome) := by
  have hread := hE.reads_struct (P.skip (depth + 1)) (Query.known P) name
    (fields.map fun f => (f.field P, f.change)) (by
      intro p hp
      obtain ⟨f, hf, rfl⟩ := List.mem_map.mp hp
      exact QueryField.takes hE (hfits f hf)) (q, false)
  rw [List.map_map, List.foldl_map, foldl_change] at hread
  rw [Protocol.readTracked_of_lt hdepth]
  exact hread

theorem Query.reads_over (hP : P.Lawful) {depth : Nat} (hdepth : depth < P.recursionLimit)
    (name : String) {fields : List (QueryField σ)} (hfits : ∀ f ∈ fields, f.Fits P depth)
    (hop : fields.any (fun f => f.op?.isSome) = true) (q : Query) :
    Reads (Query.read P depth q) (P.writeStruct name (fields.map (QueryField.field P)))
      (q.over fields) := by
  have hread := Query.reads_known hP.toLawful hdepth name hfits q
  rw [hop] at hread
  have hquery : Reads (Query.read P depth q)
      (P.writeStruct name (fields.map (QueryField.field P)) ++ []) (q.over fields) :=
    hread.bind (reads_pure (q.over fields))
  rwa [List.append_nil] at hquery

/-- Fields may come in any order, more than once, and with others between them. Below the limit
    on readers inside each other, the query is rejected exactly when none of the fields is the
    required `op`. -/
theorem query_read_over (P : Protocol σ) (hE : P.toEncoding.Lawful) (depth : Nat) (name : String)
    (fields : List (QueryField σ)) (hfits : ∀ f ∈ fields, f.Fits P depth) (q : Query)
    (rest : List σ) :
    Query.read P depth q (P.writeStruct name (fields.map (QueryField.field P)) ++ rest) =
      if depth < P.recursionLimit then
        if fields.any fun f => f.op?.isSome then .ok (q.over fields, rest)
        else .error .invalidData
      else .error .depthLimit := by
  unfold Query.read
  change (P.readTracked depth (Query.known P) (q, false) _ >>= fun p => _) = _
  split
  · rename_i hdepth
    rw [Query.reads_known hE hdepth name hfits q rest]
    rcases hany : fields.any fun f => f.op?.isSome <;> rfl
  · rename_i hdepth
    rw [Protocol.readTracked_of_le (Nat.le_of_not_lt hdepth)]
    rfl

/-- The list of ids comes twice, and a field that is not known stands in front of the operation. -/
def shuffledFields : List (QueryField UInt8) :=
  [.failures "failures" .i32 [3], .ids "ids" .i64 [7],
    .other ⟨"priority", .i64, 9, Binary.writeI64 5⟩, .op "op" 2, .ids "ids" .i64 [7, 8]]

theorem query_read_over_shuffledFields :
    Query.read Binary.protocol 1 {}
        (Binary.protocol.writeStruct "Query"
          (shuffledFields.map (QueryField.field Binary.protocol)) ++ [1]) =
      .ok ({ op := .ID2STR, ids := [7, 8], failures := [3] }, [1]) := by
  have hfits : ∀ f ∈ shuffledFields, f.Fits Binary.protocol 1 := by
    simp only [shuffledFields, List.forall_mem_cons, QueryField.Fits]
    have hskip : Binary.fixedSize .i64 = some (Binary.writeI64 5).length := by decide
    exact ⟨by decide, by decide,
      ⟨by decide, by decide, by decide, Binary.reads_skip_fixed hskip 61⟩, trivial, by decide,
      by simp⟩
  exact query_read_over Binary.protocol Binary.lawful_encoding 1 "Query" shuffledFields hfits {} [1]

/-! ### Round trips -/

/-- The numbers of an operation without a name are not those of the others, and lists, strings
    and positions are as short as the interface demands. -/
structure Query.Fits (q : Query) : Prop where
  op : Operation.ofCode q.op.code = q.op
  strings : q.strings.length < 2 ^ 31 ∧ ∀ s ∈ q.strings, s.length < 2 ^ 31
  ids : q.ids.length < 2 ^ 31
  failures : q.failures.length < 2 ^ 31 ∧ ∀ i ∈ q.failures, -2 ^ 31 ≤ i ∧ i < 2 ^ 31

instance (q : Query) : Decidable q.Fits :=
  decidable_of_iff (Operation.ofCode q.op.code = q.op ∧
      (q.strings.length < 2 ^ 31 ∧ ∀ s ∈ q.strings, s.length < 2 ^ 31) ∧ q.ids.length < 2 ^ 31 ∧
      q.failures.length < 2 ^ 31 ∧ ∀ i ∈ q.failures, -2 ^ 31 ≤ i ∧ i < 2 ^ 31)
    ⟨fun ⟨hop, hstrings, hids, hfailures⟩ => ⟨hop, hstrings, hids, hfailures⟩,
      fun h => ⟨h.op, h.strings, h.ids, h.failures⟩⟩

theorem toInt_code {i : FailureIdx} (h : -2 ^ 31 ≤ i ∧ i < 2 ^ 31) :
    (FailureIdx.code i).toInt = i :=
  Int32.toInt_ofInt_of_le h.1 h.2

theorem Query.fits_default : ({} : Query).Fits where
  op := rfl
  strings := ⟨by norm_num, by simp⟩
  ids := by norm_num
  failures := ⟨by norm_num, by simp⟩

theorem ofCode_code_ofCode (code : Int32) :
    Operation.ofCode (Operation.ofCode code).code = Operation.ofCode code := by
  by_cases h1 : code = 1
  · rw [h1]
    rfl
  · by_cases h2 : code = 2
    · rw [h2]
      rfl
    · have hunknown : Operation.ofCode code = .unknown code := by
        rw [Operation.ofCode, if_neg h1, if_neg h2]
      rw [hunknown]
      exact hunknown

/-- What is read is fit to be written again. -/
theorem QueryField.fits_change {depth : Nat} {f : QueryField σ} (hf : f.Fits P depth)
    {p : Query × Bool} (hp : p.1.Fits) : (f.change p).1.Fits := by
  obtain ⟨q, isset⟩ := p
  cases f with
  | op name code => exact { hp with op := ofCode_code_ofCode code }
  | strings name type xs => exact { hp with strings := hf }
  | ids name type xs => exact { hp with ids := hf }
  | failures name type xs =>
    refine { hp with failures := ⟨List.length_map Int32.toInt ▸ hf, ?_⟩ }
    intro i hi
    obtain ⟨x, -, rfl⟩ := List.mem_map.mp hi
    exact ⟨x.le_toInt, x.toInt_lt⟩
  | other f => exact hp

theorem Query.fits_over {depth : Nat} {fields : List (QueryField σ)}
    (hfits : ∀ f ∈ fields, f.Fits P depth) {q : Query} (hq : q.Fits) : (q.over fields).Fits := by
  have hfold : (fields.foldl (fun p f => f.change p) (q, false)).1.Fits := by
    generalize false = isset
    induction fields generalizing q isset with
    | nil => exact hq
    | cons f fields ih =>
      rw [List.forall_mem_cons] at hfits
      have hchange := QueryField.fits_change hfits.1 (p := (q, isset)) hq
      exact ih hfits.2 hchange _
  rwa [foldl_change] at hfold

/-- The fields that `write` puts down. -/
def Query.fields (q : Query) : List (QueryField σ) :=
  [.op "op" q.op.code, .strings "strings" .string q.strings, .ids "ids" .i64 q.ids,
    .failures "failures" .i32 (q.failures.map FailureIdx.code)]

theorem Query.over_fields {q : Query} (hq : q.Fits) (prior : Query) :
    prior.over (q.fields : List (QueryField σ)) = q := by
  have hfailures : (q.failures.map FailureIdx.code).map Int32.toInt = q.failures := by
    rw [List.map_map]
    exact (List.map_congr_left fun i hi => toInt_code (hq.failures.2 i hi)).trans (List.map_id _)
  change (⟨.ofCode q.op.code, q.strings, q.ids,
    (q.failures.map FailureIdx.code).map Int32.toInt⟩ : Query) = q
  rw [hq.op, hfailures]

theorem Query.fits_fields {q : Query} (hq : q.Fits) (depth : Nat) :
    ∀ f ∈ (q.fields : List (QueryField σ)), f.Fits P depth := by
  simp only [Query.fields, List.forall_mem_cons, QueryField.Fits, List.length_map]
  exact ⟨trivial, hq.strings, hq.ids, hq.failures.1, by simp⟩

/-- A written query is read back whatever it is read over. -/
theorem Query.reads_write (hP : P.Lawful) {depth : Nat} (hdepth : depth < P.recursionLimit)
    {q : Query} (hq : q.Fits) (prior : Query) :
    Reads (Query.read P depth prior) (q.write P) q := by
  have hread := Query.reads_over hP hdepth "Query" (Query.fits_fields hq depth) rfl prior
  rw [Query.over_fields hq] at hread
  exact hread

namespace ThriftException

theorem reads_write (hP : P.Lawful) {depth : Nat} (hdepth : depth < P.recursionLimit)
    {e : ThriftException} (he : e.message.length < 2 ^ 31) (prior : ThriftException) :
    Reads (ThriftException.read P depth prior) (e.write P) e := by
  have hread := hP.reads_struct (P.skip (depth + 1)) (known P) "NumeratorException"
    [(⟨"code", .i32, 1, P.writeI32 e.code⟩, fun p => ({ p.1 with code := e.code }, true)),
      (⟨"message", .string, 2, P.writeString e.message⟩,
        fun p => ({ p.1 with message := e.message }, p.2))] (by
    simp only [List.forall_mem_cons, List.not_mem_nil, false_imp_iff, implies_true, and_true]
    exact ⟨Encoding.takes_known (show TType.i32 ≠ .stop by decide) rfl fun _ => (hP.i32 _).map,
      Encoding.takes_known (show TType.string ≠ .stop by decide) rfl
        fun _ => (hP.string _ he).map⟩) (prior, false)
  rw [← Protocol.readTracked_of_lt hdepth] at hread
  have hexception : Reads (ThriftException.read P depth prior) (e.write P ++ []) e :=
    hread.bind (reads_pure e)
  rwa [List.append_nil] at hexception

end ThriftException

/-! ### Arguments and results -/

theorem reads_emptyStruct (hP : P.Lawful) (name : String) {fields : List (WireField σ)}
    (h : ∀ f ∈ fields, f.type ≠ .stop ∧ Reads (P.skip 1 f.type) f.content ()) :
    Reads (readEmptyStruct P) (P.writeStruct name fields) () := by
  unfold readEmptyStruct
  rw [Protocol.readTracked_of_lt (hP.lt_recursionLimit (Nat.zero_le 1))]
  exact hP.reads_unknown name h

/-- A field in a struct that is read as the arguments of `query`. -/
inductive ArgsField (σ : Type) where
  | request (name structName : String) (fields : List (QueryField σ))
  | other (f : WireField σ)

namespace ArgsField

variable (P) in
def field : ArgsField σ → WireField σ
  | .request name structName fields =>
      ⟨name, .struct, 1, P.writeStruct structName (fields.map (QueryField.field P))⟩
  | .other f => f

variable (P) in
def Fits : ArgsField σ → Prop
  | .request _ _ fields =>
      (∀ f ∈ fields, f.Fits P 1) ∧ fields.any (fun f => f.op?.isSome) = true
  | .other f => f.type ≠ .stop ∧ ¬ (f.id = 1 ∧ f.type = .struct) ∧
      Reads (P.skip 1 f.type) f.content ()

def change : ArgsField σ → Query → Query
  | .request _ _ fields, q => q.over fields
  | .other _, q => q

theorem takes (hP : P.Lawful) {f : ArgsField σ} (hf : f.Fits P) :
    Encoding.Takes (P.skip 1) (QueryArgs.known P) (f.field P) f.change := by
  cases f with
  | request name structName fields =>
    exact Encoding.takes_known (show TType.struct ≠ .stop by decide) rfl
      fun q => Query.reads_over hP (hP.lt_recursionLimit le_rfl) structName hf.1 hf.2 q
  | other f =>
    obtain ⟨htype, hrequest, hskip⟩ := hf
    exact Encoding.takes_unknown htype (if_neg hrequest) hskip

end ArgsField

/-- The arguments that these fields make up. -/
def requestOf (fields : List (ArgsField σ)) : Query := fields.foldl (fun q f => f.change q) {}

theorem fits_requestOf {fields : List (ArgsField σ)} (hfits : ∀ f ∈ fields, f.Fits P) :
    (requestOf fields).Fits := by
  unfold requestOf
  refine List.foldlRecOn fields (fun q f => f.change q) Query.fits_default ?_
  intro q hq f hf
  cases f with
  | request name structName queryFields => exact Query.fits_over (hfits _ hf).1 hq
  | other f => exact hq

theorem reads_queryArgs (hP : P.Lawful) (name : String) {fields : List (ArgsField σ)}
    (hfits : ∀ f ∈ fields, f.Fits P) :
    Reads (QueryArgs.read P) (P.writeStruct name (fields.map (ArgsField.field P)))
      (requestOf fields) := by
  have hread := hP.reads_struct (P.skip 1) (QueryArgs.known P) name
    (fields.map fun f => (f.field P, f.change)) (by
      intro p hp
      obtain ⟨f, hf, rfl⟩ := List.mem_map.mp hp
      exact ArgsField.takes hP (hfits f hf)) {}
  rw [List.map_map, List.foldl_map, ← Protocol.readTracked_of_lt
    (hP.lt_recursionLimit (Nat.zero_le 1))] at hread
  exact hread

theorem QueryResult.reads_struct (hP : P.Lawful) (field : WireField σ)
    (change : QueryResult → QueryResult)
    (h : Encoding.Takes (P.skip 1) (QueryResult.known P) field change) (prior : Query) :
    Reads (QueryResult.read P prior) (P.writeStruct "Numerator_query_result" [field])
      (change { success := prior }) := by
  unfold QueryResult.read
  rw [Protocol.readTracked_of_lt (hP.lt_recursionLimit (Nat.zero_le 1))]
  exact hP.reads_struct (P.skip 1) (QueryResult.known P) "Numerator_query_result"
    [(field, change)] (by simpa using h) { success := prior }

/-- What is set of a result is what the other side finds set. -/
theorem QueryResult.reads_write_success (hP : P.Lawful) {response : Query} (h : response.Fits)
    (prior : Query) :
    Reads (QueryResult.read P prior)
      (QueryResult.write P { success := response, issetSuccess := true })
      { success := response, issetSuccess := true } :=
  QueryResult.reads_struct hP ⟨"success", .struct, 0, response.write P⟩
    (fun result => { result with success := response, issetSuccess := true })
    (Encoding.takes_known (show TType.struct ≠ .stop by decide) rfl fun result =>
      (Query.reads_write hP (hP.lt_recursionLimit le_rfl) h result.success).map) prior

theorem QueryResult.reads_write_exc (hP : P.Lawful) {e : ThriftException}
    (he : e.message.length < 2 ^ 31) (prior : Query) :
    Reads (QueryResult.read P prior)
      (QueryResult.write P { exc := e, issetExc := true })
      { success := prior, exc := e, issetExc := true } :=
  QueryResult.reads_struct hP ⟨"exc", .struct, 1, e.write P⟩
    (fun result => { result with exc := e, issetExc := true })
    (Encoding.takes_known (show TType.struct ≠ .stop by decide) rfl fun result =>
      (ThriftException.reads_write hP (hP.lt_recursionLimit le_rfl) he result.exc).map) prior

end Numerator
