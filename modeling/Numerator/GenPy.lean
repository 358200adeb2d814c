import Numerator.Framing

/-!
# The generated Python client

The structs and the client of `gen-py`. An attribute that is `None` is not
written, and numbers and lengths are packed, which fails when they do not fit.
Server and Python client were generated from one interface, and each of them
reads what the other one writes: the server sees the call that the C++ client
would make, and both clients read the same result. The Python readers do not
count how many of them are open, and the library's `skip` is a parameter.
-/

namespace Numerator

open Thrift DiskStorage

variable {σ : Type} (P : Protocol σ)

namespace GenPy

/-! ### Packing -/

def writeI32 (x : Int) : Option (List σ) :=
  if -2 ^ 31 ≤ x ∧ x < 2 ^ 31 then some (P.writeI32 (.ofInt x)) else none

def writeI64 (x : Int) : Option (List σ) :=
  if -2 ^ 63 ≤ x ∧ x < 2 ^ 63 then some (P.writeI64 (.ofInt x)) else none

/-- The length is packed as an `i32`. -/
def writeString (s : Bytes) : Option (List σ) :=
  if s.length < 2 ^ 31 then some (P.writeString s) else none

def writeList {α : Type} (type : TType) (write : α → Option (List σ)) (xs : List α) :
    Option (List σ) :=
  if xs.length < 2 ^ 31 then
    (xs.mapM write).map fun contents =>
      P.writeListBegin type xs.length ++ (contents.flatten ++ P.writeListEnd)
  else none

/-- The field of an attribute, unless it is `None`. -/
def optionalField {α : Type} (name : String) (type : TType) (id : Int16)
    (write : α → Option (List σ)) : Option α → Option (List (WireField σ))
  | none => some []
  | some a => (write a).map fun content => [⟨name, type, id, content⟩]

/-! ### The structs -/

structure Query where
  op : Option Int := none
  strings : Option (List Bytes) := none
  ids : Option (List Int) := none
  failures : Option (List Int) := none
deriving DecidableEq

structure NumeratorException where
  code : Option Int := none
  message : Option Bytes := none
deriving DecidableEq

namespace Query

def fields (q : Query) : Option (List (WireField σ)) := do
  let op ← optionalField "op" .i32 1 (writeI32 P) q.op
  let strings ← optionalField "strings" .list 2 (writeList P .string (writeString P)) q.strings
  let ids ← optionalField "ids" .list 3 (writeList P .i64 (writeI64 P)) q.ids
  let failures ← optionalField "failures" .list 4 (writeList P .i32 (writeI32 P)) q.failures
  pure (op ++ (strings ++ (ids ++ failures)))

def write (q : Query) : Option (List σ) := (q.fields P).map (P.writeStruct "Query")

/-- The required attribute is not looked for. -/
def known : FieldReader σ Query := fun type id =>
  if id = 1 ∧ type = .i32 then some fun q => do
    let op ← P.readI32
    pure { q with op := some op.toInt }
  else if id = 2 ∧ type = .list then some fun q => do
    let strings ← P.readList P.readString
    pure { q with strings := some strings }
  else if id = 3 ∧ type = .list then some fun q => do
    let ids ← P.readList P.readI64
    pure { q with ids := some (ids.map Int64.toInt) }
  else if id = 4 ∧ type = .list then some fun q => do
    let failures ← P.readList P.readI32
    pure { q with failures := some (failures.map Int32.toInt) }
  else none

def read (skip : TType → Reader σ Unit) (q : Query) : Reader σ Query :=
  P.readStruct skip (known P) q

end Query

namespace NumeratorException

def known : FieldReader σ NumeratorException := fun type id =>
  if id = 1 ∧ type = .i32 then some fun e => do
    let code ← P.readI32
    pure { e with code := some code.toInt }
  else if id = 2 ∧ type = .string then some fun e => do
    let message ← P.readString
    pure { e with message := some message }
  else none

def read (skip : TType → Reader σ Unit) (e : NumeratorException) :
    Reader σ NumeratorException :=
  P.readStruct skip (known P) e

end NumeratorException

/-- `query_args.write`. -/
def writeQueryArgs (request : Option Query) : Option (List σ) :=
  (optionalField "request" .struct 1 (Query.write P) request).map (P.writeStruct "query_args")

structure QueryResult where
  success : Option Query := none
  exc : Option NumeratorException := none

variable (skip : TType → Reader σ Unit)

/-- `ping_result.read` and the like. -/
def readEmptyResult : Reader σ Unit := P.readStruct skip (fun _ _ => none) ()

namespace QueryResult

def known : FieldReader σ QueryResult := fun type id =>
  if id = 0 ∧ type = .struct then some fun result => do
    let success ← Query.read P skip {}
    pure { result with success := some success }
  else if id = 1 ∧ type = .struct then some fun result => do
    let exc ← NumeratorException.read P skip {}
    pure { result with exc := some exc }
  else none

def read : Reader σ QueryResult := P.readStruct skip (known P skip) {}

end QueryResult

/-! ### The client -/

inductive Call where
  | ping
  | query (request : Option Query)
  | disableS2i
  | enableS2i
deriving DecidableEq

/-- What a call returns or raises. -/
inductive Received where
  | done
  | response (response : Query)
  | exception (e : NumeratorException)
  | application (x : ApplicationException)
deriving DecidableEq

namespace Client

def sendMessage (name : String) (args : List σ) : List σ :=
  P.writeMessageBegin (messageBytes name) .call 0 ++ (args ++ P.writeMessageEnd)

def send : Call → Option (List σ)
  | .ping => some (sendMessage P "ping" (writeEmptyStruct P "ping_args"))
  | .query request => (writeQueryArgs P request).map (sendMessage P "query")
  | .disableS2i => some (sendMessage P "disable_s2i" (writeEmptyStruct P "disable_s2i_args"))
  | .enableS2i => some (sendMessage P "enable_s2i" (writeEmptyStruct P "enable_s2i_args"))

/-- Neither the name nor any other type of the message is looked at. -/
def recvMessage (readResult : Reader σ Received) : Reader σ Received := do
  let (_, mtype, _) ← P.readMessageBegin
  if mtype = .exception then
    let x ← P.readApplicationException
    P.readMessageEnd
    pure (.application x)
  else
    let result ← readResult
    P.readMessageEnd
    pure result

def recvVoid : Reader σ Received := do
  readEmptyResult P skip
  pure .done

def resultOf (result : QueryResult) : Received :=
  match result.success, result.exc with
  | some success, _ => .response success
  | none, some exc => .exception exc
  | none, none =>
      .application
        ⟨messageBytes "query failed: unknown result", ApplicationException.missingResult⟩

def recvQuery : Reader σ Received := do
  let result ← QueryResult.read P skip
  pure (resultOf result)

def recv : Call → Reader σ Received
  | .query _ => recvMessage P (recvQuery P skip)
  | _ => recvMessage P (recvVoid P skip)

end Client

/-! ### The same call in C++ -/

/-- What the server makes of a query that a Python client has written. -/
def Query.cpp (q : Query) : Numerator.Query where
  op := (q.op.map fun op => .ofCode (.ofInt op)).getD (.unknown 0)
  strings := q.strings.getD []
  ids := (q.ids.getD []).map .ofInt
  failures := q.failures.getD []

def Call.cpp : Call → ClientCall
  | .ping => .ping
  | .query request => .query ((request.map Query.cpp).getD {})
  | .disableS2i => .disableS2i
  | .enableS2i => .enableS2i

/-- A request has its required attribute. -/
def Call.Valid : Call → Prop
  | .query (some request) => request.op.isSome
  | _ => True

instance : DecidablePred Call.Valid
  | .query (some request) => inferInstanceAs (Decidable (request.op.isSome = true))
  | .query none | .ping | .disableS2i | .enableS2i => isTrue trivial

/-! ### What is written -/

section Writing

variable {P}

/-- A list that is packed is the list that the C++ client writes. -/
theorem writeList_eq_some {α β : Type} {type : TType} {write : α → Option (List σ)}
    {write' : β → List σ} {f : α → β} {xs : List α} {content : List σ}
    (hwrite : ∀ x written, write x = some written → written = write' (f x))
    (h : writeList P type write xs = some content) :
    content = P.writeList type write' (xs.map f) ∧ xs.length < 2 ^ 31 ∧
      ∀ x ∈ xs, (write x).isSome := by
  unfold writeList at h
  split at h
  · rename_i hlength
    obtain ⟨contents, hcontents, rfl⟩ := Option.map_eq_some_iff.mp h
    have hall : (contents = xs.map fun x => write' (f x)) ∧ ∀ x ∈ xs, (write x).isSome := by
      clear h hlength
      induction xs generalizing contents with
      | nil =>
        cases hcontents
        exact ⟨rfl, by simp⟩
      | cons x xs ih =>
        simp only [List.mapM_cons, Option.bind_eq_bind, Option.bind_eq_some_iff,
          Option.pure_def, Option.some.injEq] at hcontents
        obtain ⟨written, hx, rest, hrest, rfl⟩ := hcontents
        obtain ⟨rfl, hsome⟩ := ih rest hrest
        rw [List.map_cons, hwrite x written hx, List.forall_mem_cons, hx]
        exact ⟨rfl, rfl, hsome⟩
    refine ⟨?_, hlength, hall.2⟩
    rw [hall.1, Encoding.writeList, List.length_map, List.flatMap_map]
    rfl
  · cases h

theorem writeI32_eq_some {x : Int} {content : List σ} (h : writeI32 P x = some content) :
    content = P.writeI32 (.ofInt x) ∧ (Int32.ofInt x).toInt = x := by
  unfold writeI32 at h
  split at h
  · rename_i hrange
    cases h
    exact ⟨rfl, Int32.toInt_ofInt_of_le hrange.1 hrange.2⟩
  · cases h

theorem writeI64_eq_some {x : Int} {content : List σ} (h : writeI64 P x = some content) :
    content = P.writeI64 (.ofInt x) := by
  unfold writeI64 at h
  split at h
  · cases h
    rfl
  · cases h

theorem writeString_eq_some {s : Bytes} {content : List σ} (h : writeString P s = some content) :
    content = P.writeString s ∧ s.length < 2 ^ 31 := by
  unfold writeString at h
  split at h
  · rename_i hlength
    cases h
    exact ⟨rfl, hlength⟩
  · cases h

/-- A field of a query that stands for an attribute, if it is there. -/
theorem optionalField_eq_some {α : Type} {name : String} {type : TType} {id : Int16}
    {write : α → Option (List σ)} {a : Option α} {fields : List (WireField σ)}
    {field : α → QueryField σ}
    (hwrite : ∀ x content, a = some x → write x = some content →
      (field x).field P = ⟨name, type, id, content⟩ ∧ (field x).Fits P 1)
    (h : optionalField name type id write a = some fields) :
    fields = (a.toList.map field).map (QueryField.field P) ∧
      ∀ f ∈ a.toList.map field, f.Fits P 1 := by
  cases a with
  | none =>
    cases h
    exact ⟨rfl, by simp⟩
  | some x =>
    obtain ⟨content, hcontent, rfl⟩ := Option.map_eq_some_iff.mp h
    obtain ⟨hfield, hfits⟩ := hwrite x content rfl hcontent
    refine ⟨?_, by simpa using hfits⟩
    rw [Option.toList_some, List.map_singleton, List.map_singleton, hfield]

/-- The fields of a query as the server's reader knows them. -/
def Query.queryFields (q : Query) : List (QueryField σ) :=
  q.op.toList.map (fun op => .op "op" (.ofInt op)) ++
    (q.strings.toList.map (fun strings => .strings "strings" .string strings) ++
      (q.ids.toList.map (fun ids => .ids "ids" .i64 (ids.map .ofInt)) ++
        q.failures.toList.map fun failures => .failures "failures" .i32 (failures.map .ofInt)))

theorem Query.fields_eq_some {q : Query} {fields : List (WireField σ)}
    (h : q.fields P = some fields) :
    fields = q.queryFields.map (QueryField.field P) ∧ (∀ f ∈ q.queryFields, f.Fits P 1) ∧
      ∀ i ∈ q.failures.getD [], (Int32.ofInt i).toInt = i := by
  unfold Query.fields at h
  simp only [Option.bind_eq_bind, Option.bind_eq_some_iff, Option.pure_def,
    Option.some.injEq] at h
  obtain ⟨op, hop, strings, hstrings, ids, hids, failures, hfailures, rfl⟩ := h
  have hwriteOp : ∀ (op : Int) (content : List σ), q.op = some op → writeI32 P op = some content →
      (QueryField.op "op" (.ofInt op)).field P = ⟨"op", .i32, 1, content⟩ ∧
        (QueryField.op "op" (.ofInt op) : QueryField σ).Fits P 1 := by
    intro op content _ hwrite
    rw [(writeI32_eq_some hwrite).1]
    exact ⟨rfl, trivial⟩
  have hwriteStrings : ∀ (strings : List Bytes) (content : List σ), q.strings = some strings →
      writeList P .string (writeString P) strings = some content →
      (QueryField.strings "strings" .string strings).field P = ⟨"strings", .list, 2, content⟩ ∧
        (QueryField.strings "strings" .string strings : QueryField σ).Fits P 1 := by
    intro strings content _ hwrite
    obtain ⟨rfl, hlength, hsome⟩ :=
      writeList_eq_some (fun s _ hs => (writeString_eq_some hs).1) hwrite
    refine ⟨by rw [List.map_id']; rfl, hlength, fun s hs => ?_⟩
    obtain ⟨written, hwritten⟩ := Option.isSome_iff_exists.mp (hsome s hs)
    exact (writeString_eq_some hwritten).2
  have hwriteIds : ∀ (ids : List Int) (content : List σ), q.ids = some ids →
      writeList P .i64 (writeI64 P) ids = some content →
      (QueryField.ids "ids" .i64 (ids.map .ofInt)).field P = ⟨"ids", .list, 3, content⟩ ∧
        (QueryField.ids "ids" .i64 (ids.map .ofInt) : QueryField σ).Fits P 1 := by
    intro ids content _ hwrite
    obtain ⟨rfl, hlength, -⟩ := writeList_eq_some (fun id _ hid => writeI64_eq_some hid) hwrite
    exact ⟨rfl, (List.length_map Int64.ofInt).trans_lt hlength⟩
  have hwriteFailures : ∀ (failures : List Int) (content : List σ), q.failures = some failures →
      writeList P .i32 (writeI32 P) failures = some content →
      (QueryField.failures "failures" .i32 (failures.map .ofInt)).field P =
          ⟨"failures", .list, 4, content⟩ ∧
        (QueryField.failures "failures" .i32 (failures.map .ofInt) : QueryField σ).Fits P 1 := by
    intro failures content _ hwrite
    obtain ⟨rfl, hlength, -⟩ :=
      writeList_eq_some (fun i _ hi => (writeI32_eq_some hi).1) hwrite
    exact ⟨rfl, (List.length_map Int32.ofInt).trans_lt hlength⟩
  obtain ⟨rfl, hopFits⟩ := optionalField_eq_some hwriteOp hop
  obtain ⟨rfl, hstringsFits⟩ := optionalField_eq_some hwriteStrings hstrings
  obtain ⟨rfl, hidsFits⟩ := optionalField_eq_some hwriteIds hids
  obtain ⟨rfl, hfailuresFits⟩ := optionalField_eq_some hwriteFailures hfailures
  refine ⟨by simp only [queryFields, List.map_append], ?_, ?_⟩
  · simp only [queryFields, List.forall_mem_append]
    exact ⟨hopFits, hstringsFits, hidsFits, hfailuresFits⟩
  · intro i hi
    cases hq : q.failures with
    | none =>
      rw [hq] at hi
      cases hi
    | some failures =>
      rw [hq] at hi hfailures
      obtain ⟨content, hcontent, -⟩ := Option.map_eq_some_iff.mp hfailures
      obtain ⟨-, -, hsome⟩ :=
        writeList_eq_some (fun i _ hi => (writeI32_eq_some hi).1) hcontent
      obtain ⟨written, hwritten⟩ := Option.isSome_iff_exists.mp (hsome i hi)
      exact (writeI32_eq_some hwritten).2

/-- The server reads these fields as the query of the C++ client. -/
theorem Query.over_queryFields {q : Query}
    (hfailures : ∀ i ∈ q.failures.getD [], (Int32.ofInt i).toInt = i) :
    ({} : Numerator.Query).over (q.queryFields : List (QueryField σ)) = q.cpp := by
  have hlist : ((q.failures.getD []).map Int32.ofInt).map Int32.toInt = q.failures.getD [] := by
    rw [List.map_map]
    exact (List.map_congr_left hfailures).trans (List.map_id _)
  obtain ⟨op, strings, ids, failures⟩ := q
  cases failures with
  | none => cases op <;> cases strings <;> cases ids <;> rfl
  | some failures =>
    cases op <;> cases strings <;> cases ids <;>
      exact congrArg (Numerator.Query.mk _ _ _) hlist

/-- What the arguments of a call look like to the server. -/
def argsFields : Option Query → List (ArgsField σ)
  | none => []
  | some request => [.request "request" "Query" request.queryFields]

def Call.message : Call → Message σ
  | .ping => ⟨0, "ping_args", .ping []⟩
  | .query request => ⟨0, "query_args", .query (argsFields request)⟩
  | .disableS2i => ⟨0, "disable_s2i_args", .disableS2i []⟩
  | .enableS2i => ⟨0, "enable_s2i_args", .enableS2i []⟩

theorem writeQueryArgs_eq_some {request : Option Query} {symbols : List σ}
    (h : writeQueryArgs P request = some symbols) :
    symbols = P.writeStruct "query_args" ((argsFields request).map (ArgsField.field P)) ∧
      (Call.Valid (.query request) → ∀ f ∈ (argsFields request : List (ArgsField σ)), f.Fits P) ∧
      requestOf (argsFields request : List (ArgsField σ)) = (request.map Query.cpp).getD {} := by
  obtain ⟨fields, hfields, rfl⟩ := Option.map_eq_some_iff.mp h
  cases request with
  | none =>
    cases hfields
    exact ⟨rfl, by simp [argsFields], rfl⟩
  | some request =>
    obtain ⟨content, hcontent, rfl⟩ := Option.map_eq_some_iff.mp hfields
    obtain ⟨queryFields, hqueryFields, rfl⟩ := Option.map_eq_some_iff.mp hcontent
    obtain ⟨rfl, hfits, hfailures⟩ := Query.fields_eq_some hqueryFields
    refine ⟨rfl, fun hvalid f hf => ?_, Query.over_queryFields hfailures⟩
    obtain rfl := List.mem_singleton.mp hf
    refine ⟨hfits, ?_⟩
    obtain ⟨op, hop⟩ := Option.isSome_iff_exists.mp hvalid
    simp [Query.queryFields, hop, QueryField.op?]

/-- What the Python client sends is a message that the server knows. -/
theorem Client.send_eq_some {call : Call} {symbols : List σ}
    (h : Client.send P call = some symbols) :
    symbols = call.message.symbols P ∧ (call.Valid → (call.message : Message σ).Fits P) ∧
      (call.message : Message σ).content.call = some call.cpp := by
  cases call with
  | query request =>
    obtain ⟨args, hargs, rfl⟩ := Option.map_eq_some_iff.mp h
    obtain ⟨rfl, hfits, hrequest⟩ := writeQueryArgs_eq_some hargs
    refine ⟨rfl, hfits, ?_⟩
    change some (ClientCall.query (requestOf (argsFields request : List (ArgsField σ)))) = _
    rw [hrequest]
    rfl
  | ping =>
    cases h
    exact ⟨rfl, fun _ _ hf => (by cases hf), rfl⟩
  | disableS2i =>
    cases h
    exact ⟨rfl, fun _ _ hf => (by cases hf), rfl⟩
  | enableS2i =>
    cases h
    exact ⟨rfl, fun _ _ hf => (by cases hf), rfl⟩

end Writing

/-! ### What is read -/

section Reading

variable {P} {skip}

/-- A result of the C++ client as a Python client has it. -/
def ofQuery (q : Numerator.Query) : Query where
  op := some q.op.code.toInt
  strings := some q.strings
  ids := some (q.ids.map Int64.toInt)
  failures := some q.failures

def ofReceived : Numerator.Received → Received
  | .done => .done
  | .response response => .response (ofQuery response)
  | .exception e => .exception ⟨some e.code.toInt, some e.message⟩
  | .application x => .application x

/-- A response that the server writes. -/
theorem Query.reads_cpp (hP : P.Lawful) {q : Numerator.Query} (hq : q.Fits) (prior : Query) :
    Reads (Query.read P skip prior) (q.write P) (ofQuery q) := by
  have hfailures : (q.failures.map FailureIdx.code).map Int32.toInt = q.failures := by
    rw [List.map_map]
    exact (List.map_congr_left fun i hi => toInt_code (hq.failures.2 i hi)).trans (List.map_id _)
  have hread := hP.reads_struct skip (Query.known P) "Query"
    [(⟨"op", .i32, 1, P.writeI32 q.op.code⟩, fun p => { p with op := some q.op.code.toInt }),
      (⟨"strings", .list, 2, P.writeList .string P.writeString q.strings⟩,
        fun p => { p with strings := some q.strings }),
      (⟨"ids", .list, 3, P.writeList .i64 P.writeI64 q.ids⟩,
        fun p => { p with ids := some (q.ids.map Int64.toInt) }),
      (⟨"failures", .list, 4, P.writeList .i32 P.writeI32 (q.failures.map FailureIdx.code)⟩,
        fun p => { p with failures := some ((q.failures.map FailureIdx.code).map Int32.toInt) })]
    (by
    simp only [List.forall_mem_cons, List.not_mem_nil, false_imp_iff, implies_true, and_true]
    exact ⟨Encoding.takes_known (show TType.i32 ≠ .stop by decide) rfl fun _ => (hP.i32 _).map,
      Encoding.takes_known (show TType.list ≠ .stop by decide) rfl fun _ =>
        (hP.reads_list .string hq.strings.1 fun s hs => hP.string s (hq.strings.2 s hs)).map,
      Encoding.takes_known (show TType.list ≠ .stop by decide) rfl fun _ =>
        (hP.reads_list .i64 hq.ids fun id _ => hP.i64 id).map,
      Encoding.takes_known (show TType.list ≠ .stop by decide) rfl fun _ =>
        (hP.reads_list .i32 ((List.length_map FailureIdx.code).trans_lt hq.failures.1)
          fun i _ => hP.i32 i).map⟩) prior
  rw [hfailures] at hread
  exact hread

theorem NumeratorException.reads_cpp (hP : P.Lawful) {e : ThriftException}
    (he : e.message.length < 2 ^ 31) (prior : NumeratorException) :
    Reads (NumeratorException.read P skip prior) (e.write P)
      ⟨some e.code.toInt, some e.message⟩ :=
  hP.reads_struct skip (NumeratorException.known P) "NumeratorException"
    [(⟨"code", .i32, 1, P.writeI32 e.code⟩, fun p => { p with code := some e.code.toInt }),
      (⟨"message", .string, 2, P.writeString e.message⟩,
        fun p => { p with message := some e.message })] (by
    simp only [List.forall_mem_cons, List.not_mem_nil, false_imp_iff, implies_true, and_true]
    exact ⟨Encoding.takes_known (show TType.i32 ≠ .stop by decide) rfl fun _ => (hP.i32 _).map,
      Encoding.takes_known (show TType.string ≠ .stop by decide) rfl
        fun _ => (hP.string _ he).map⟩) prior

theorem reads_success (hP : P.Lawful) {response : Numerator.Query} (h : response.Fits) :
    Reads (Client.recvQuery P skip)
      (Numerator.QueryResult.write P { success := response, issetSuccess := true })
      (.response (ofQuery response)) := by
  have hread : Reads (QueryResult.read P skip)
      (Numerator.QueryResult.write P { success := response, issetSuccess := true })
      { success := some (ofQuery response) } :=
    hP.reads_struct skip (QueryResult.known P skip) "Numerator_query_result"
      [(⟨"success", .struct, 0, response.write P⟩,
        fun result => { result with success := some (ofQuery response) })] (by
      simp only [List.forall_mem_cons, List.not_mem_nil, false_imp_iff, implies_true, and_true]
      exact Encoding.takes_known (show TType.struct ≠ .stop by decide) rfl
        fun _ => (Query.reads_cpp hP h {}).map) {}
  exact hread.map

theorem reads_exc (hP : P.Lawful) {e : ThriftException} (he : e.message.length < 2 ^ 31) :
    Reads (Client.recvQuery P skip) (Numerator.QueryResult.write P { exc := e, issetExc := true })
      (.exception ⟨some e.code.toInt, some e.message⟩) := by
  have hread : Reads (QueryResult.read P skip)
      (Numerator.QueryResult.write P { exc := e, issetExc := true })
      { exc := some ⟨some e.code.toInt, some e.message⟩ } :=
    hP.reads_struct skip (QueryResult.known P skip) "Numerator_query_result"
      [(⟨"exc", .struct, 1, e.write P⟩,
        fun result => { result with exc := some ⟨some e.code.toInt, some e.message⟩ })] (by
      simp only [List.forall_mem_cons, List.not_mem_nil, false_imp_iff, implies_true, and_true]
      exact Encoding.takes_known (show TType.struct ≠ .stop by decide) rfl
        fun _ => (NumeratorException.reads_cpp hP he {}).map) {}
  exact hread.map

variable {name : Bytes} {readResult : Reader σ Received} {symbols : List σ}

theorem reads_reply (hP : P.Lawful) (hname : name.length < 2 ^ 31) (seqid : Int32)
    {r : Received} (h : Reads readResult symbols r) :
    Reads (Client.recvMessage P readResult)
      (NumeratorProcessor.message P name .reply seqid symbols) r := by
  refine (hP.messageBegin name .reply seqid hname).bind ?_
  dsimp only
  rw [if_neg (by decide)]
  exact h.bind hP.messageEnd.map

theorem reads_exception (hP : P.Lawful) (hname : name.length < 2 ^ 31) (seqid : Int32)
    {x : ApplicationException} (hx : x.message.length < 2 ^ 31) :
    Reads (Client.recvMessage P readResult)
      (NumeratorProcessor.message P name .exception seqid (P.writeApplicationException x))
      (.application x) := by
  refine (hP.messageBegin name .exception seqid hname).bind ?_
  dsimp only
  rw [if_pos rfl]
  exact (hP.applicationException x hx).bind hP.messageEnd.map

theorem reads_answerVoid (hP : P.Lawful) (hname : name.length < 2 ^ 31) (resultName : String)
    (seqid : Int32) (env : Surroundings) {o : Outcome} (ho : o.Fits) :
    Option.Rel (fun (answer : MessageType × List σ) r =>
        Reads (Client.recvMessage P (Client.recvVoid P skip))
          (NumeratorProcessor.message P name answer.1 seqid answer.2) (ofReceived r))
      (NumeratorProcessor.answerVoid P resultName env.position o) (receivedVoid env o) := by
  have hread : Reads (readEmptyResult P skip) (writeEmptyStruct P resultName) () :=
    hP.reads_unknown resultName (by simp)
  apply rel_answerVoid resultName env ho
  · exact reads_reply hP hname seqid hread.map
  · intro x hx
    exact reads_exception hP hname seqid hx

theorem reads_answerQuery (hP : P.Lawful) (hname : name.length < 2 ^ 31) (seqid : Int32)
    {o : Outcome} (ho : o.Fits) :
    Option.Rel (fun (answer : MessageType × List σ) r =>
        Reads (Client.recvMessage P (Client.recvQuery P skip))
          (NumeratorProcessor.message P name answer.1 seqid answer.2) (ofReceived r))
      (NumeratorProcessor.answerQuery P o) (receivedQuery o) := by
  apply rel_answerQuery ho
  · intro response hresponse
    exact reads_reply hP hname seqid (reads_success hP hresponse)
  · intro e he
    exact reads_reply hP hname seqid (reads_exc hP he)

variable (skip) in
/-- The Python client reads what the handler has answered. -/
theorem reads_answer (hP : P.Lawful) (call : Call) (env : Surroundings) {o : Outcome}
    (ho : o.Fits) :
    Option.Rel (fun (answer : MessageType × List σ) r =>
        Reads (Client.recv P skip call)
          (NumeratorProcessor.message P (Message.ofCall call.cpp : Message σ).content.name
            answer.1 0 answer.2) (ofReceived r))
      ((Message.ofCall call.cpp : Message σ).content.answer P env o)
      ((Message.ofCall call.cpp : Message σ).content.received env o) := by
  cases call with
  | ping =>
    have hname : (messageBytes "ping").length < 2 ^ 31 := by decide
    exact reads_answerVoid hP hname _ 0 env ho
  | query request =>
    have hname : (messageBytes "query").length < 2 ^ 31 := by decide
    exact reads_answerQuery hP hname 0 ho
  | disableS2i =>
    have hname : (messageBytes "disable_s2i").length < 2 ^ 31 := by decide
    exact reads_answerVoid hP hname _ 0 env ho
  | enableS2i =>
    have hname : (messageBytes "enable_s2i").length < 2 ^ 31 := by decide
    exact reads_answerVoid hP hname _ 0 env ho

end Reading

/-! ### One server for both -/

section Interop

variable {P} {call : Call} {env : Surroundings} {n : Node}

theorem call_ofCall {call : ClientCall} (h : call.Fits) :
    (Message.ofCall call : Message σ).content.call = some call := by
  cases call with
  | query request => exact congrArg (fun q => some (ClientCall.query q)) (Query.over_fields h {})
  | _ => rfl

/-- The server sees in a valid message of the Python client the call of the C++ client. -/
theorem process_send (hP : P.Lawful) {symbols : List σ} (h : Client.send P call = some symbols)
    (hvalid : call.Valid) (env : Surroundings) (n : Node) (rest : List σ) :
    call.cpp.Fits ∧
      NumeratorProcessor.process P env n (symbols ++ rest) =
        NumeratorProcessor.process P env n (NumeratorClient.send P call.cpp ++ rest) := by
  obtain ⟨rfl, hfits, hcall⟩ := Client.send_eq_some h
  have hmessage : (call.message : Message σ).Fits P := hfits hvalid
  have hcpp : call.cpp.Fits := hmessage.call hcall
  refine ⟨hcpp, ?_⟩
  rw [← Message.symbols_ofCall, NumeratorProcessor.process_message hP hmessage,
    NumeratorProcessor.process_message hP (Message.fits_ofCall hcpp)]
  unfold NumeratorProcessor.answerMessage
  rw [hcall, call_ofCall hcpp]
  cases call <;> rfl

/-- A request without its operation is not read by the server. -/
theorem fails_queryArgs (hP : P.Lawful) {request : Query} {fields : List (WireField σ)}
    (hfields : request.fields P = some fields) (hop : request.op = none) :
    Fails (QueryArgs.read P)
      (P.writeStruct "query_args" [⟨"request", .struct, 1, P.writeStruct "Query" fields⟩])
      .invalidData := by
  obtain ⟨rfl, hfits, -⟩ := Query.fields_eq_some hfields
  have hnone : request.queryFields.any (fun f : QueryField σ => f.op?.isSome) = false := by
    cases hstrings : request.strings <;> cases hids : request.ids <;>
      cases hfailures : request.failures <;>
      simp [Query.queryFields, hop, hstrings, hids, hfailures, QueryField.op?]
  have hlt : 1 < P.recursionLimit := hP.lt_recursionLimit le_rfl
  have hknown := Query.reads_known hP.toLawful hlt "Query" hfits {}
  rw [hnone] at hknown
  have hquery : Fails (Numerator.Query.read P 1 {})
      (P.writeStruct "Query" (request.queryFields.map (QueryField.field P)) ++ [])
      .invalidData := hknown.bind_fails fun _ => rfl
  rw [List.append_nil] at hquery
  unfold QueryArgs.read
  rw [Protocol.readTracked_of_lt (hP.lt_recursionLimit (Nat.zero_le 1))]
  exact hP.fails_struct "query_args" (show TType.struct ≠ .stop by decide) rfl hquery []

theorem process_invalid (hP : P.Lawful) {symbols : List σ} (h : Client.send P call = some symbols)
    (hinvalid : ¬ call.Valid) (rest : List σ) :
    NumeratorProcessor.process P env n (symbols ++ rest) = some .closed := by
  cases call with
  | query request =>
    cases request with
    | none => exact absurd trivial hinvalid
    | some request =>
      have hop : request.op = none := Option.not_isSome_iff_eq_none.mp hinvalid
      obtain ⟨args, hargs, rfl⟩ := Option.map_eq_some_iff.mp h
      obtain ⟨argsFields, hargsFields, rfl⟩ := Option.map_eq_some_iff.mp hargs
      obtain ⟨content, hcontent, rfl⟩ := Option.map_eq_some_iff.mp hargsFields
      obtain ⟨fields, hfields, rfl⟩ := Option.map_eq_some_iff.mp hcontent
      have hname : (messageBytes "query").length < 2 ^ 31 := by decide
      have hcall := hP.call (messageBytes "query") 0 hname
      have hargs : Fails (do
          let request ← QueryArgs.read P
          pure (ClientCall.query request))
        (P.writeStruct "query_args" [⟨"request", .struct, 1, P.writeStruct "Query" fields⟩])
        .invalidData := (fails_queryArgs hP hfields hop).bind
      have hread : Fails (do
          let call ← (do
            let request ← QueryArgs.read P
            pure (ClientCall.query request))
          P.readMessageEnd
          pure call)
        (P.writeStruct "query_args" [⟨"request", .struct, 1, P.writeStruct "Query" fields⟩] ++
          P.writeMessageEnd)
        .invalidData := (hargs.append P.writeMessageEnd).bind
      unfold NumeratorProcessor.process Client.sendMessage
      rw [List.append_assoc, hcall]
      dsimp only
      rw [NumeratorProcessor.dispatchCall_query]
      unfold NumeratorProcessor.processQuery NumeratorProcessor.processMethod
      rw [hread rest]
  | _ => exact absurd trivial hinvalid

end Interop

open NumeratorProcessor in
/-- The server does not tell the clients apart, and both read the same result from its answer.
    A query without an operation, which only the Python client can send, ends the connection. -/
theorem clients_agree (P : Protocol σ) (hP : P.Lawful) (skip : TType → Reader σ Unit)
    (call : Call) (symbols : List σ) (hsend : Client.send P call = some symbols)
    (env : Surroundings) (n : Node) (hn : n.Fits) (rest : List σ) :
    (¬ call.Valid → process P env n (symbols ++ rest) = some .closed) ∧
      (call.Valid →
        process P env n (symbols ++ rest) =
            process P env n (NumeratorClient.send P call.cpp ++ rest) ∧
          ∀ n' answer rest', process P env n (symbols ++ rest) = some (.answered n' answer rest') →
            rest' = rest ∧ ∃ o r, n.invoke env call.cpp = some (o, n') ∧
              (∀ prior, Reads (NumeratorClient.recv P prior call.cpp) answer r) ∧
              Reads (Client.recv P skip call) answer (ofReceived r)) := by
  refine ⟨fun hinvalid => process_invalid hP hsend hinvalid rest, fun hvalid => ?_⟩
  obtain ⟨hcpp, hprocess⟩ := process_send hP hsend hvalid env n rest
  refine ⟨hprocess, ?_⟩
  intro n' answer rest' hanswered
  have hfits : (Message.ofCall call.cpp : Message σ).Fits P := Message.fits_ofCall hcpp
  have hcall : (Message.ofCall call.cpp : Message σ).content.call = some call.cpp :=
    call_ofCall hcpp
  rw [hprocess, ← Message.symbols_ofCall, process_message hP hfits, answerMessage] at hanswered
  simp only [hcall, answerCall] at hanswered
  rcases hinvoke : n.invoke env call.cpp with _ | ⟨o, n''⟩
  · simp [hinvoke] at hanswered
  · obtain ⟨ho, -⟩ := fits_invoke hinvoke hn hcpp
    have hcppReads := Numerator.reads_answer hP hfits hcall env ho
    have hpyReads := reads_answer skip hP call env ho
    rw [hinvoke] at hanswered
    generalize (Message.ofCall call.cpp : Message σ).content.received env o = received
      at hcppReads hpyReads
    rcases hanswer : (Message.ofCall call.cpp : Message σ).content.answer P env o with
      _ | ⟨mtype, result⟩
    · simp [hanswer] at hanswered
    · rw [hanswer] at hcppReads hpyReads
      simp only [hanswer, Option.some.injEq, Processed.answered.injEq] at hanswered
      obtain ⟨rfl, rfl, rfl⟩ := hanswered
      cases received with
      | none => cases hpyReads
      | some r =>
        refine ⟨rfl, o, r, rfl, ?_, ?_⟩
        · intro prior
          cases hcppReads prior with
          | some hreads =>
            unfold Message.recv at hreads
            rw [hcall] at hreads
            exact hreads
        · cases hpyReads with
          | some hreads =>
            cases call <;> exact hreads

def firstQuery : Call := .query (some { op := some 1, strings := some [[97], [98]] })

theorem clients_agree_firstQuery :
    let n : Node := .running ⟨∅, ∅, 1, false⟩
    ∃ symbols n' answer r, Client.send Binary.protocol firstQuery = some symbols ∧
      NumeratorProcessor.process Binary.protocol { it := newIterator ∅ } n (symbols ++ []) =
        some (.answered n' answer []) ∧
      (∀ prior, Reads (NumeratorClient.recv Binary.protocol prior firstQuery.cpp) answer r) ∧
      Reads (Client.recv Binary.protocol (Binary.protocol.skip 0) firstQuery) answer
        (ofReceived r) := by
  intro n
  have hsend : Client.send Binary.protocol firstQuery =
      some ((firstQuery.message : Message UInt8).symbols Binary.protocol) := by
    decide +kernel
  obtain ⟨-, hagree⟩ := clients_agree Binary.protocol Binary.lawful (Binary.protocol.skip 0)
    firstQuery _ hsend { it := newIterator ∅ } n fits_empty []
  have hanswer : ((NumeratorProcessor.process Binary.protocol { it := newIterator ∅ } n
      ((firstQuery.message : Message UInt8).symbols Binary.protocol ++ [])).bind
        Processed.onlyAnswer).isSome = true := by
    decide +kernel
  obtain ⟨answer, honly⟩ := Option.isSome_iff_exists.mp hanswer
  obtain ⟨processed, hprocess, hanswered⟩ := Option.bind_eq_some_iff.mp honly
  obtain ⟨n', rfl⟩ := Processed.eq_of_onlyAnswer hanswered
  obtain ⟨-, o, r, -, hcpp, hpy⟩ := (hagree rfl).2 n' answer [] hprocess
  exact ⟨_, n', answer, r, hsend, hprocess, hcpp, hpy⟩

end GenPy

end Numerator
