import Numerator.DiskStorage
import Numerator.Machine

/-!
# The service

`NumeratorHandler` and the startup of `numerator.cpp`. A running process holds
the memory storage, the global counter and the disabled flag next to the
database; a stopped one leaves only the database. `Node.step` lets a data
directory live through process starts, requests and stops, one after another,
with libraries that do not fail.
-/

namespace Numerator

open Std FiniteMap

/-- What the libraries report while one query is served. -/
structure Replies where
  judy : Nat → JudyReply := fun _ => {}
  write : WriteReply := .ok
  get : Nat → Option String := fun _ => none

/-- A running process: the storages, the global `cnt` and the handler's option. -/
structure Server where
  diskStorage : Store
  memoryStorage : MemoryStorage
  cnt : NumID
  disableS2iQueries : Bool
deriving DecidableEq

namespace Server

/-! ### `query_impl` -/

/-- The variables that the loop of a STR2ID query changes. -/
structure Loop where
  memoryStorage : MemoryStorage
  cnt : NumID
  kvPairs : List KVPair
  ids : List NumID

/-- One round of the loop: number the string, and remember it for the batch if it is new. -/
def round (reply : JudyReply) (l : Loop) (str : Bytes) : Except Fault Loop :=
  match MemoryStorage.find reply l.memoryStorage str l.cnt with
  | .error f => .error f
  | .ok r =>
      .ok { memoryStorage := r.data
            cnt := r.counter
            kvPairs := if r.inserted then l.kvPairs ++ [⟨r.id, str⟩] else l.kvPairs
            ids := l.ids ++ [r.id] }

def rounds (judy : Nat → JudyReply) : Nat → Loop → List Bytes → Except Fault Loop
  | _, l, [] => .ok l
  | i, l, str :: strings =>
    match round (judy i) l str with
    | .error f => .error f
    | .ok l' => rounds judy (i + 1) l' strings

/-- The answer to a STR2ID query while the service is disabled. -/
def s2iDisabled : NumeratorException :=
  ⟨.STR2ID_QUERIES_DISABLED, "string -> id service disabled"⟩

/-- A fault in the loop drops the memory and the counter reached so far: `query` ends the
    process then, and only the database is left. -/
def queryImpl (replies : Replies) (s : Server) (response request : Query) :
    Server × Except Fault Query :=
  match request.op with
  | .ID2STR =>
    match DiskStorage.lookup replies.get s.diskStorage request.ids response.strings
        response.failures with
    | .error f => (s, .error f)
    | .ok (values, failures) =>
        (s, .ok { response with op := request.op, strings := values, failures := failures })
  | .STR2ID =>
    if s.disableS2iQueries then (s, .error (.numeratorException s2iDisabled))
    else
      match rounds replies.judy 0 ⟨s.memoryStorage, s.cnt, [], response.ids⟩ request.strings with
      | .error f => (s, .error f)
      | .ok l =>
        match DiskStorage.write replies.write s.diskStorage l.kvPairs with
        | (db, .error f) => (⟨db, l.memoryStorage, l.cnt, false⟩, .error f)
        | (db, .ok ()) =>
            (⟨db, l.memoryStorage, l.cnt, false⟩,
              .ok { response with op := request.op, ids := l.ids })
  | .unknown _ => (s, .ok { response with op := request.op })

/-! ### The toggles -/

def disableS2i (s : Server) : Server :=
  if s.disableS2iQueries then s
  else { s with memoryStorage := MemoryStorage.unload s.memoryStorage, disableS2iQueries := true }

/-- The counter is not set here, unlike at startup. -/
def enableS2i (it : Iterator) (judy : Nat → JudyReply) (s : Server) :
    Server × Except Fault Unit :=
  if s.disableS2iQueries then
    match DiskStorage.loadInMemory it judy s.memoryStorage with
    | (storage, .error f) => ({ s with memoryStorage := storage }, .error f)
    | (storage, .ok _) =>
        ({ s with memoryStorage := storage, disableS2iQueries := false }, .ok ())
  else (s, .ok ())

end Server

/-! ### The life of a data directory -/

/-- A data directory: only its database, or the process that serves it. -/
inductive Node where
  | stopped (db : Store)
  | running (s : Server)
deriving DecidableEq

inductive Event where
  | start (disableS2iQueries : Bool)
  | query (request : Query)
  | disableS2i
  | enableS2i
  | stop
deriving DecidableEq, Repr

/-- What the outside sees of an event. -/
inductive Outcome where
  | response (q : Query)
  | refused (e : NumeratorException)
  | failed (e : Exc)
  | exited
  | done
  | ignored
deriving DecidableEq, Repr

namespace Node

def store : Node → Store
  | .stopped db => db
  | .running s => s.diskStorage

/-- The part of `main` before `serve`. The global `cnt` is 0 until it is set. -/
def start (it : Iterator) (judy : Nat → JudyReply) (db : Store) (disableS2iQueries : Bool) :
    Option (Outcome × Node) :=
  if disableS2iQueries then some (.done, .running ⟨db, ∅, 0, true⟩)
  else
    match DiskStorage.loadInMemory it judy ∅ with
    | (_, .error (.undefined _)) => none
    | (_, .error _) => some (.exited, .stopped db)
    | (storage, .ok (maxId, _)) =>
      match NumID.increment maxId with
      | .error _ => none
      | .ok cnt => some (.done, .running ⟨db, storage, cnt, false⟩)

/-- `NumeratorHandler::query`: its own exception goes to the client, any other one ends
    the process. -/
def query (replies : Replies) (s : Server) (request : Query) : Option (Outcome × Node) :=
  match s.queryImpl replies {} request with
  | (s', .ok response) => some (.response response, .running s')
  | (s', .error (.numeratorException e)) => some (.refused e, .running s')
  | (s', .error (.exc _)) => some (.exited, .stopped s'.diskStorage)
  | (_, .error (.undefined _)) => none

/-- An exception of `enable_s2i` becomes an error reply, and the process goes on. -/
def enable (it : Iterator) (judy : Nat → JudyReply) (s : Server) : Option (Outcome × Node) :=
  match s.enableS2i it judy with
  | (s', .ok ()) => some (.done, .running s')
  | (s', .error (.exc e)) => some (.failed e, .running s')
  | (s', .error (.numeratorException e)) => some (.refused e, .running s')
  | (_, .error (.undefined _)) => none

/-- One event. No event is defined past an overflow of the counter; an event that the
    directory has no use for in its state is ignored. -/
def step : Node → Event → Option (Outcome × Node)
  | .stopped db, .start disableS2iQueries =>
      start (DiskStorage.newIterator db) (fun _ => {}) db disableS2iQueries
  | .running s, .query request => query {} s request
  | .running s, .disableS2i => some (.done, .running s.disableS2i)
  | .running s, .enableS2i => enable (DiskStorage.newIterator s.diskStorage) (fun _ => {}) s
  | .running s, .stop => some (.done, .stopped s.diskStorage)
  | n, _ => some (.ignored, n)

end Node

/-- The steps of a history and the state it ends in, if the counter never overflows. -/
abbrev history : Node → List Event → Option (List (Machine.Record Node Event Outcome) × Node) :=
  Machine.run Node.step

end Numerator
