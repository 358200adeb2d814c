import Numerator.Rounds
import Numerator.Rpc

/-!
# Messages and their answers

A message may come from the generated client or from any other one, with the
fields of its arguments in another order, more than once or next to fields that
this version of the interface does not have. The processor takes exactly the
message off the stream, and what it answers is what the client reads.
-/

namespace Numerator

open Thrift

variable {σ : Type} {P : Protocol σ}

/-! ### Messages -/

inductive MessageContent (σ : Type) where
  | ping (fields : List (WireField σ))
  | query (fields : List (ArgsField σ))
  | disableS2i (fields : List (WireField σ))
  | enableS2i (fields : List (WireField σ))
  | other (name : Bytes) (fields : List (WireField σ))

structure Message (σ : Type) where
  seqid : Int32 := 0
  structName : String
  content : MessageContent σ

namespace MessageContent

def name : MessageContent σ → Bytes
  | .ping _ => messageBytes "ping"
  | .query _ => messageBytes "query"
  | .disableS2i _ => messageBytes "disable_s2i"
  | .enableS2i _ => messageBytes "enable_s2i"
  | .other name _ => name

variable (P) in
def fields : MessageContent σ → List (WireField σ)
  | .ping fields | .disableS2i fields | .enableS2i fields | .other _ fields => fields
  | .query fields => fields.map (ArgsField.field P)

/-- The call that the processor makes of the message. -/
def call : MessageContent σ → Option ClientCall
  | .ping _ => some .ping
  | .query fields => some (.query (requestOf fields))
  | .disableS2i _ => some .disableS2i
  | .enableS2i _ => some .enableS2i
  | .other _ _ => none

end MessageContent

namespace Message

variable (P) in
def symbols (m : Message σ) : List σ :=
  NumeratorProcessor.message P m.content.name .call m.seqid
    (P.writeStruct m.structName (m.content.fields P))

/-- The protocol can skip what the processor does not know, and the name of a method that it does
    not know can be sent back. -/
def Fits (P : Protocol σ) (m : Message σ) : Prop :=
  match m.content with
  | .ping fields | .disableS2i fields | .enableS2i fields =>
      ∀ f ∈ fields, f.type ≠ .stop ∧ Reads (P.skip 1 f.type) f.content ()
  | .query fields => ∀ f ∈ fields, f.Fits P
  | .other name fields =>
      name.length < 2 ^ 31 - 100 ∧ name ≠ messageBytes "ping" ∧ name ≠ messageBytes "query" ∧
        name ≠ messageBytes "disable_s2i" ∧ name ≠ messageBytes "enable_s2i" ∧
        Reads (P.skip 0 .struct) (P.writeStruct m.structName fields) ()

theorem Fits.length_name {m : Message σ} (h : m.Fits P) : m.content.name.length < 2 ^ 31 := by
  obtain ⟨seqid, structName, content⟩ := m
  cases content with
  | ping fields => exact (by decide : (messageBytes "ping").length < 2 ^ 31)
  | query fields => exact (by decide : (messageBytes "query").length < 2 ^ 31)
  | disableS2i fields => exact (by decide : (messageBytes "disable_s2i").length < 2 ^ 31)
  | enableS2i fields => exact (by decide : (messageBytes "enable_s2i").length < 2 ^ 31)
  | other name fields => exact lt_of_lt_of_le h.1 (by norm_num)

variable (P) in
/-- The client that sent the message reads the answer. -/
def recv (response : Query) (m : Message σ) : Reader σ Received :=
  match m.content.call with
  | some call => NumeratorClient.recv P response call
  | none => NumeratorClient.recvMessage P m.content.name (NumeratorClient.recvVoid P)

/-- What the generated client sends. -/
def ofCall : ClientCall → Message σ
  | .ping => ⟨0, "Numerator_ping_pargs", .ping []⟩
  | .query request =>
      ⟨0, "Numerator_query_pargs", .query [.request "request" "Query" request.fields]⟩
  | .disableS2i => ⟨0, "Numerator_disable_s2i_pargs", .disableS2i []⟩
  | .enableS2i => ⟨0, "Numerator_enable_s2i_pargs", .enableS2i []⟩

theorem symbols_ofCall (call : ClientCall) :
    (ofCall call).symbols P = NumeratorClient.send P call := by
  cases call <;> rfl

end Message

/-! ### What the processor does with a message -/

variable (P) in
/-- The result that the processor writes. -/
def MessageContent.answer (env : Surroundings) :
    MessageContent σ → Outcome → Option (MessageType × List σ)
  | .ping _ => NumeratorProcessor.answerVoid P "Numerator_ping_result" env.position
  | .query _ => NumeratorProcessor.answerQuery P
  | .disableS2i _ => NumeratorProcessor.answerVoid P "Numerator_disable_s2i_result" env.position
  | .enableS2i _ => NumeratorProcessor.answerVoid P "Numerator_enable_s2i_result" env.position
  | .other _ _ => fun _ => none

namespace NumeratorProcessor

variable (env : Surroundings) (n : Node)

/-- What becomes of a call whose arguments have been read. -/
def answerCall (name : Bytes) (seqid : Int32) (call : ClientCall)
    (answer : Outcome → Option (MessageType × List σ)) (rest : List σ) : Option (Processed σ) :=
  match n.invoke env call with
  | none => none
  | some (o, n') =>
    match answer o with
    | none => some (.exited n')
    | some (mtype, result) => some (.answered n' (message P name mtype seqid result) rest)

variable (P) in
def answerMessage (m : Message σ) (rest : List σ) : Option (Processed σ) :=
  match m.content.call with
  | none =>
      some (.answered n
        (message P m.content.name .exception m.seqid
          (P.writeApplicationException (unknownMethod m.content.name))) rest)
  | some call => answerCall (P := P) env n m.content.name m.seqid call (m.content.answer P env) rest

variable {env n}

theorem processMethod_reads (hP : P.Lawful) {readArgs : Reader σ ClientCall} {symbols : List σ}
    {call : ClientCall} (h : Reads readArgs symbols call) (name : String) (seqid : Int32)
    (answer : Outcome → Option (MessageType × List σ)) (rest : List σ) :
    processMethod P env n name seqid readArgs answer (symbols ++ P.writeMessageEnd ++ rest) =
      answerCall (P := P) env n (messageBytes name) seqid call answer rest := by
  have hread : Reads (do
      let call ← readArgs
      P.readMessageEnd
      pure call : Reader σ ClientCall) (symbols ++ P.writeMessageEnd) call :=
    h.bind hP.messageEnd.map
  unfold processMethod
  rw [hread rest]
  rfl

theorem dispatchCall_ping (seqid : Int32) (stream : List σ) :
    dispatchCall P env n seqid (messageBytes "ping") stream = processPing P env n seqid stream :=
  if_pos rfl

theorem dispatchCall_query (seqid : Int32) (stream : List σ) :
    dispatchCall P env n seqid (messageBytes "query") stream = processQuery P env n seqid stream :=
  (if_neg (by decide)).trans (if_pos rfl)

theorem dispatchCall_disableS2i (seqid : Int32) (stream : List σ) :
    dispatchCall P env n seqid (messageBytes "disable_s2i") stream =
      processDisableS2i P env n seqid stream :=
  (if_neg (by decide)).trans ((if_neg (by decide)).trans (if_pos rfl))

theorem dispatchCall_enableS2i (seqid : Int32) (stream : List σ) :
    dispatchCall P env n seqid (messageBytes "enable_s2i") stream =
      processEnableS2i P env n seqid stream :=
  (if_neg (by decide)).trans
    ((if_neg (by decide)).trans ((if_neg (by decide)).trans (if_pos rfl)))

theorem dispatchCall_unknown (hP : P.Lawful) {name : Bytes} (hping : name ≠ messageBytes "ping")
    (hquery : name ≠ messageBytes "query") (hdisable : name ≠ messageBytes "disable_s2i")
    (henable : name ≠ messageBytes "enable_s2i") {symbols : List σ}
    (hskip : Reads (P.skip 0 .struct) symbols ()) (seqid : Int32) (rest : List σ) :
    dispatchCall P env n seqid name (symbols ++ P.writeMessageEnd ++ rest) =
      some (.answered n (message P name .exception seqid
        (P.writeApplicationException (unknownMethod name))) rest) := by
  have hread : Reads (do
      P.skip 0 .struct
      P.readMessageEnd : Reader σ Unit) (symbols ++ P.writeMessageEnd) () :=
    hskip.bind hP.messageEnd
  unfold dispatchCall
  rw [if_neg hping, if_neg hquery, if_neg hdisable, if_neg henable, hread rest]

/-- The processor takes the message off the stream and nothing behind it. -/
theorem process_message (hP : P.Lawful) {m : Message σ} (hm : m.Fits P) (rest : List σ) :
    process P env n (m.symbols P ++ rest) = answerMessage P env n m rest := by
  have hcall := hP.call m.content.name m.seqid hm.length_name
    (P.writeStruct m.structName (m.content.fields P) ++ P.writeMessageEnd ++ rest)
  unfold process Message.symbols message
  rw [List.append_assoc, hcall]
  dsimp only
  obtain ⟨seqid, structName, content⟩ := m
  cases content with
  | ping fields =>
    exact (dispatchCall_ping seqid _).trans
      (processMethod_reads hP (reads_emptyStruct hP structName hm).map _ _ _ _)
  | query fields =>
    exact (dispatchCall_query seqid _).trans
      (processMethod_reads hP (reads_queryArgs hP structName hm).map _ _ _ _)
  | disableS2i fields =>
    exact (dispatchCall_disableS2i seqid _).trans
      (processMethod_reads hP (reads_emptyStruct hP structName hm).map _ _ _ _)
  | enableS2i fields =>
    exact (dispatchCall_enableS2i seqid _).trans
      (processMethod_reads hP (reads_emptyStruct hP structName hm).map _ _ _ _)
  | other name fields =>
    obtain ⟨-, hping, hquery, hdisable, henable, hskip⟩ := hm
    exact dispatchCall_unknown hP hping hquery hdisable henable hskip seqid rest

end NumeratorProcessor

/-! ### What the client reads -/

section Reading

variable {name : Bytes} {readResult : Reader σ Received} {symbols : List σ}

theorem reads_reply (hP : P.Lawful) (hname : name.length < 2 ^ 31) (seqid : Int32)
    {r : Received} (h : Reads readResult symbols r) :
    Reads (NumeratorClient.recvMessage P name readResult)
      (NumeratorProcessor.message P name .reply seqid symbols) r := by
  refine (hP.messageBegin name .reply seqid hname).bind ?_
  dsimp only
  rw [if_neg (by decide), if_neg (not_not_intro rfl), if_neg (not_not_intro rfl)]
  exact h.bind hP.messageEnd.map

theorem reads_exception (hP : P.Lawful) (hname : name.length < 2 ^ 31) (seqid : Int32)
    {x : ApplicationException} (hx : x.message.length < 2 ^ 31) :
    Reads (NumeratorClient.recvMessage P name readResult)
      (NumeratorProcessor.message P name .exception seqid (P.writeApplicationException x))
      (.application x) := by
  refine (hP.messageBegin name .exception seqid hname).bind ?_
  dsimp only
  rw [if_pos rfl]
  exact (hP.applicationException x hx).bind hP.messageEnd.map

end Reading

theorem length_what (position : Bytes) (e : Exc) : (e.what position).length < 2 ^ 31 := by
  have hcut : (e.what position).length ≤ 511 := by
    refine ((List.takeWhile_prefix _).length_le).trans ?_
    rw [List.length_take]
    exact Nat.min_le_left _ _
  exact lt_of_le_of_lt hcut (by norm_num)

/-- What the outcome of a method is for the client, if the process goes on. -/
def receivedVoid (env : Surroundings) : Outcome → Option Received
  | .done => some .done
  | .failed e => some (.application ⟨e.what env.position, ApplicationException.unknown⟩)
  | .refused e => some (.application ⟨e.what, ApplicationException.unknown⟩)
  | _ => none

def receivedQuery : Outcome → Option Received
  | .response response => some (.response response)
  | .refused e => some (.exception e.thrift)
  | _ => none

def MessageContent.received (env : Surroundings) : MessageContent σ → Outcome → Option Received
  | .query _ => receivedQuery
  | .other _ _ => fun _ => none
  | _ => receivedVoid env

/-- What the handler answers can be written. It refuses nothing but STR2ID queries. -/
structure Outcome.Fits (o : Outcome) : Prop where
  response : ∀ response, o = .response response → response.Fits
  refused : ∀ e, o = .refused e → e = Server.s2iDisabled

section Answers

variable {α : Type} {read : Reader σ α} {of : Received → α} {name : Bytes} {seqid : Int32}

/-- A client that reads what these methods return and raise reads the outcome. -/
theorem rel_answerVoid (resultName : String) (env : Surroundings) {o : Outcome} (ho : o.Fits)
    (hreply : Reads read
      (NumeratorProcessor.message P name .reply seqid (writeEmptyStruct P resultName)) (of .done))
    (hexception : ∀ x : ApplicationException, x.message.length < 2 ^ 31 →
      Reads read
        (NumeratorProcessor.message P name .exception seqid (P.writeApplicationException x))
        (of (.application x))) :
    Option.Rel (fun (answer : MessageType × List σ) r =>
        Reads read (NumeratorProcessor.message P name answer.1 seqid answer.2) (of r))
      (NumeratorProcessor.answerVoid P resultName env.position o) (receivedVoid env o) := by
  cases o with
  | done => exact .some hreply
  | failed e => exact .some (hexception _ (length_what env.position e))
  | refused e =>
    apply Option.Rel.some
    apply hexception
    rw [ho.refused e rfl]
    decide
  | response response => exact .none
  | exited => exact .none
  | ignored => exact .none

theorem rel_answerQuery {o : Outcome} (ho : o.Fits)
    (hsuccess : ∀ response : Query, response.Fits →
      Reads read (NumeratorProcessor.message P name .reply seqid
        (QueryResult.write P { success := response, issetSuccess := true }))
        (of (.response response)))
    (hexc : ∀ e : ThriftException, e.message.length < 2 ^ 31 →
      Reads read (NumeratorProcessor.message P name .reply seqid
        (QueryResult.write P { exc := e, issetExc := true })) (of (.exception e))) :
    Option.Rel (fun (answer : MessageType × List σ) r =>
        Reads read (NumeratorProcessor.message P name answer.1 seqid answer.2) (of r))
      (NumeratorProcessor.answerQuery P o) (receivedQuery o) := by
  cases o with
  | response response => exact .some (hsuccess response (ho.response response rfl))
  | refused e =>
    apply Option.Rel.some
    apply hexc
    rw [ho.refused e rfl]
    decide
  | done => exact .none
  | failed e => exact .none
  | exited => exact .none
  | ignored => exact .none

end Answers

theorem reads_answerVoid (hP : P.Lawful) {name : Bytes} (hname : name.length < 2 ^ 31)
    (resultName : String) (seqid : Int32) (env : Surroundings) {o : Outcome} (ho : o.Fits) :
    Option.Rel (fun (answer : MessageType × List σ) r =>
        Reads (NumeratorClient.recvMessage P name (NumeratorClient.recvVoid P))
          (NumeratorProcessor.message P name answer.1 seqid answer.2) r)
      (NumeratorProcessor.answerVoid P resultName env.position o) (receivedVoid env o) := by
  have hread : Reads (readEmptyStruct P) (writeEmptyStruct P resultName) () :=
    reads_emptyStruct hP resultName (by simp)
  apply rel_answerVoid resultName env ho
  · exact reads_reply hP hname seqid hread.map
  · intro x hx
    exact reads_exception hP hname seqid hx

theorem reads_answerQuery (hP : P.Lawful) {name : Bytes} (hname : name.length < 2 ^ 31)
    (seqid : Int32) {o : Outcome} (ho : o.Fits) (prior : Query) :
    Option.Rel (fun (answer : MessageType × List σ) r =>
        Reads (NumeratorClient.recvMessage P name (NumeratorClient.recvQuery P prior))
          (NumeratorProcessor.message P name answer.1 seqid answer.2) r)
      (NumeratorProcessor.answerQuery P o) (receivedQuery o) := by
  apply rel_answerQuery ho
  · intro response hresponse
    have hread := QueryResult.reads_write_success hP hresponse prior
    exact reads_reply hP hname seqid hread.map
  · intro e he
    have hread := QueryResult.reads_write_exc hP he prior
    exact reads_reply hP hname seqid hread.map

/-- The client reads what the handler has answered, into whatever query it passes. -/
theorem reads_answer (hP : P.Lawful) {m : Message σ} (hm : m.Fits P) {call : ClientCall}
    (hcall : m.content.call = some call) (env : Surroundings) {o : Outcome} (ho : o.Fits)
    (prior : Query) :
    Option.Rel (fun (answer : MessageType × List σ) r =>
        Reads (m.recv P prior)
          (NumeratorProcessor.message P m.content.name answer.1 m.seqid answer.2) r)
      (m.content.answer P env o) (m.content.received env o) := by
  have hname := hm.length_name
  unfold Message.recv
  obtain ⟨seqid, structName, content⟩ := m
  cases content with
  | ping fields => exact reads_answerVoid hP hname _ seqid env ho
  | query fields => exact reads_answerQuery hP hname seqid ho prior
  | disableS2i fields => exact reads_answerVoid hP hname _ seqid env ho
  | enableS2i fields => exact reads_answerVoid hP hname _ seqid env ho
  | other name fields => cases hcall

theorem reads_unknownMethod (hP : P.Lawful) {m : Message σ} (hm : m.Fits P)
    (hcall : m.content.call = none) (prior : Query) :
    Reads (m.recv P prior)
      (NumeratorProcessor.message P m.content.name .exception m.seqid
        (P.writeApplicationException (NumeratorProcessor.unknownMethod m.content.name)))
      (.application (NumeratorProcessor.unknownMethod m.content.name)) := by
  unfold Message.recv
  rw [hcall]
  refine reads_exception hP hm.length_name m.seqid ?_
  obtain ⟨seqid, structName, content⟩ := m
  cases content with
  | other name fields =>
    have hlength := hm.1
    change (messageBytes "Invalid method name: '" ++ name ++ messageBytes "'").length < 2 ^ 31
    rw [List.length_append, List.length_append,
      show (messageBytes "Invalid method name: '").length = 22 from rfl,
      show (messageBytes "'").length = 1 from rfl]
    omega
  | _ => cases hcall

end Numerator
