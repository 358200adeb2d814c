import Numerator.Iteration
import Numerator.ThriftTypes

/-!
# Client and processor

`NumeratorClient` and `NumeratorProcessor` of `Numerator.cpp`: a call becomes a
message, the processor reads it, calls the handler and answers with a message,
and the client reads that. The server drops a connection when a message cannot
be read, and a process that exits answers nobody.
-/

namespace Numerator

open Thrift

variable {σ : Type} (P : Protocol σ)

/-! ### What the handler does with a call -/

inductive ClientCall where
  | ping
  | query (request : Query)
  | disableS2i
  | enableS2i
deriving DecidableEq

/-- What the libraries report during a call, and the place that an exception of `exc.hpp` names. -/
structure Surroundings where
  replies : Replies := {}
  it : Iterator
  judy : Nat → JudyReply := fun _ => {}
  position : Bytes := []

/-- The calls that do more than to return. -/
def ClientCall.served (env : Surroundings) : ClientCall → Option ServedCall
  | .ping => none
  | .query request => some (.query env.replies request)
  | .disableS2i => some .disableS2i
  | .enableS2i => some (.enableS2i env.it env.judy)

/-- The handler's method. -/
def Node.invoke (env : Surroundings) (n : Node) (call : ClientCall) : Option (Outcome × Node) :=
  match call.served env with
  | none => some (.done, n)
  | some c => n.serve c

/-- `Exc::what()`: two buffers of 512 bytes. -/
def Exc.what (position : Bytes) (e : Exc) : Bytes :=
  (cstr ((position ++ 32 :: (messageBytes e.text).take 511).take 511)).val

/-- `NumeratorException::what()`, with `printTo`. -/
def NumeratorException.what (e : NumeratorException) : Bytes :=
  messageBytes ("TException - service has thrown: NumeratorException(code=" ++
    toString e.code.code.toInt ++ ", message=" ++ e.message ++ ")")

/-! ### The client -/

/-- How a call ends for the client. -/
inductive Received where
  | done
  | response (response : Query)
  | exception (e : ThriftException)
  | application (x : ApplicationException)
deriving DecidableEq

namespace NumeratorClient

def sendMessage (name : String) (args : List σ) : List σ :=
  P.writeMessageBegin (messageBytes name) .call 0 ++ (args ++ P.writeMessageEnd)

def send : ClientCall → List σ
  | .ping => sendMessage P "ping" (writeEmptyStruct P "Numerator_ping_pargs")
  | .query request => sendMessage P "query" (QueryArgs.write P request)
  | .disableS2i => sendMessage P "disable_s2i" (writeEmptyStruct P "Numerator_disable_s2i_pargs")
  | .enableS2i => sendMessage P "enable_s2i" (writeEmptyStruct P "Numerator_enable_s2i_pargs")

/-- A message of another type or name is skipped, and the result is read behind it. -/
def recvMessage (name : Bytes) (readResult : Reader σ Received) : Reader σ Received := do
  let (fname, mtype, _) ← P.readMessageBegin
  if mtype = .exception then
    let x ← P.readApplicationException
    P.readMessageEnd
    pure (.application x)
  else
    if mtype ≠ .reply then
      P.skip 0 .struct
      P.readMessageEnd
    if fname ≠ name then
      P.skip 0 .struct
      P.readMessageEnd
    let result ← readResult
    P.readMessageEnd
    pure result

def recvVoid : Reader σ Received := do
  readEmptyStruct P
  pure .done

/-- What `recv_query` makes of the result that it has read. -/
def resultOf (result : QueryResult) : Received :=
  if result.issetSuccess then .response result.success
  else if result.issetExc then .exception result.exc
  else .application
    ⟨messageBytes "query failed: unknown result", ApplicationException.missingResult⟩

def recvQuery (response : Query) : Reader σ Received := do
  let result ← QueryResult.read P response
  pure (resultOf result)

/-- The caller of `query` passes the query that the response is read into. -/
def recv (response : Query) : ClientCall → Reader σ Received
  | .ping => recvMessage P (messageBytes "ping") (recvVoid P)
  | .query _ => recvMessage P (messageBytes "query") (recvQuery P response)
  | .disableS2i => recvMessage P (messageBytes "disable_s2i") (recvVoid P)
  | .enableS2i => recvMessage P (messageBytes "enable_s2i") (recvVoid P)

end NumeratorClient

/-! ### The processor -/

/-- What becomes of a message: an answer, with what is left of the stream, the end of the
    process, or the end of the connection. -/
inductive Processed (σ : Type) where
  | answered (n : Node) (answer rest : List σ)
  | exited (n : Node)
  | closed

namespace NumeratorProcessor

def message (name : Bytes) (mtype : MessageType) (seqid : Int32) (content : List σ) : List σ :=
  P.writeMessageBegin name mtype seqid ++ (content ++ P.writeMessageEnd)

/-- The result struct, or the exception, that a method answers with. The handler ends the
    process on every other outcome. -/
def answerQuery : Outcome → Option (MessageType × List σ)
  | .response response =>
      some (.reply, QueryResult.write P { success := response, issetSuccess := true })
  | .refused e => some (.reply, QueryResult.write P { exc := e.thrift, issetExc := true })
  | _ => none

def answerVoid (resultName : String) (position : Bytes) : Outcome → Option (MessageType × List σ)
  | .done => some (.reply, writeEmptyStruct P resultName)
  | .failed e =>
      some (.exception,
        P.writeApplicationException ⟨e.what position, ApplicationException.unknown⟩)
  | .refused e =>
      some (.exception, P.writeApplicationException ⟨e.what, ApplicationException.unknown⟩)
  | _ => none

/-- Read the arguments, call the handler, write the result. -/
def processMethod (env : Surroundings) (n : Node) (name : String) (seqid : Int32)
    (readArgs : Reader σ ClientCall) (answer : Outcome → Option (MessageType × List σ))
    (stream : List σ) : Option (Processed σ) :=
  match (do
    let call ← readArgs
    P.readMessageEnd
    pure call : Reader σ ClientCall) stream with
  | .error _ => some .closed
  | .ok (call, rest) =>
    match n.invoke env call with
    | none => none
    | some (o, n') =>
      match answer o with
      | none => some (.exited n')
      | some (mtype, result) =>
          some (.answered n' (message P (messageBytes name) mtype seqid result) rest)

variable (env : Surroundings) (n : Node) (seqid : Int32)

def processPing : List σ → Option (Processed σ) :=
  processMethod P env n "ping" seqid
    (do
      readEmptyStruct P
      pure .ping)
    (answerVoid P "Numerator_ping_result" env.position)

def processQuery : List σ → Option (Processed σ) :=
  processMethod P env n "query" seqid
    (do
      let request ← QueryArgs.read P
      pure (.query request))
    (answerQuery P)

def processDisableS2i : List σ → Option (Processed σ) :=
  processMethod P env n "disable_s2i" seqid
    (do
      readEmptyStruct P
      pure .disableS2i)
    (answerVoid P "Numerator_disable_s2i_result" env.position)

def processEnableS2i : List σ → Option (Processed σ) :=
  processMethod P env n "enable_s2i" seqid
    (do
      readEmptyStruct P
      pure .enableS2i)
    (answerVoid P "Numerator_enable_s2i_result" env.position)

/-- The answer to a message with a name that is no method's. -/
def unknownMethod (fname : Bytes) : ApplicationException :=
  ⟨messageBytes "Invalid method name: '" ++ fname ++ messageBytes "'",
    ApplicationException.unknownMethod⟩

def dispatchCall (fname : Bytes) (stream : List σ) : Option (Processed σ) :=
  if fname = messageBytes "ping" then processPing P env n seqid stream
  else if fname = messageBytes "query" then processQuery P env n seqid stream
  else if fname = messageBytes "disable_s2i" then processDisableS2i P env n seqid stream
  else if fname = messageBytes "enable_s2i" then processEnableS2i P env n seqid stream
  else
    match (do
      P.skip 0 .struct
      P.readMessageEnd : Reader σ Unit) stream with
    | .error _ => some .closed
    | .ok (_, rest) =>
        some (.answered n
          (message P fname .exception seqid
            (P.writeApplicationException (unknownMethod fname))) rest)

/-- `TDispatchProcessor::process`: a call is handed on, and what is none ends the connection. -/
def process (stream : List σ) : Option (Processed σ) :=
  match P.readCall stream with
  | .error _ => some .closed
  | .ok ((fname, seqid), rest) => dispatchCall P env n seqid fname rest

end NumeratorProcessor

end Numerator
